import LibPaxos.Proposer.Tables

/-!
# Pending instances and the known trim point

`proposer_receive_acceptor_state` raises `max_trim_iid` and hands the trim point
to `proposer_set_instance_id`, which removes older instances only when the trim
point lies beyond the last instance that the proposer opened.  So the pending
instances are above the known trim point exactly as long as no trim point falls
between a pending instance and the last one opened.
-/

namespace LibPaxos

open LibPaxos.Library

namespace Proposer

/-- All pending instances have an id above a given one. -/
def PendingAbove (p : Proposer) (iid : Nat) : Prop :=
  p.Instances (fun _ inst => iid < inst.iid) (fun _ inst => iid < inst.iid)

/-- No pending instance is at or below the known trim point, and the next
instances are beyond it. -/
structure AboveTrim (p : Proposer) : Prop where
  pending : p.PendingAbove p.maxTrimIid
  next : p.maxTrimIid ≤ p.nextPrepareIid

theorem pendingAbove_iff {p : Proposer} {iid : Nat} :
    p.PendingAbove iid ↔
      ∀ key inst, p.prepareInstances.get key = some inst ∨
        p.acceptInstances.get key = some inst → iid < inst.iid := by
  constructor
  · intro all key inst present
    rcases present with waiting | pending
    · exact all.prepare key inst waiting
    · exact all.accept key inst pending
  · intro all
    exact ⟨fun key inst present => all key inst (Or.inl present),
      fun key inst present => all key inst (Or.inr present)⟩

/-- A trim point that the proposer learns and that lies within the instances it
has opened is below all its pending instances. -/
def TrimCovers (p : Proposer) (op : ProposerOp) : Prop :=
  ∀ state, op = .receiveAcceptorState state →
    p.maxTrimIid < state.trimIid → state.trimIid ≤ p.nextPrepareIid →
    p.PendingAbove state.trimIid

end Proposer

/-- The instance ids that a call brings in are 32-bit numbers. -/
def ProposerOp.Iids32 : ProposerOp → Prop
  | .receiveAcceptorState state => state.trimIid < 2 ^ 32
  | .setInstanceId iid => iid < 2 ^ 32
  | _ => True

section Step

variable {p after : Proposer} {op : ProposerOp} {result : ProposerResult}

/-- What a call does to the two marks of the proposer: the known trim point and
the last instance opened. -/
inductive MarksOutcome (p : Proposer) : ProposerOp → Proposer → Prop
  | kept (op : ProposerOp) (after : Proposer) :
      (∀ state, op ≠ .receiveAcceptorState state) →
      (∀ now, op ≠ .prepare now) →
      after.maxTrimIid = p.maxTrimIid →
      after.nextPrepareIid = p.nextPrepareIid →
      MarksOutcome p op after
  | opened (now : Int) (after : Proposer) :
      0 < p.freshIid → after.maxTrimIid = p.maxTrimIid →
      after.nextPrepareIid = p.freshIid →
      MarksOutcome p (.prepare now) after
  | moved (iid : Nat) (after : Proposer) :
      p.nextPrepareIid < iid → after.maxTrimIid = p.maxTrimIid →
      after.nextPrepareIid = iid →
      MarksOutcome p (.setInstanceId iid) after
  | known (state : PaxosAcceptorState) :
      state.trimIid ≤ p.maxTrimIid →
      MarksOutcome p (.receiveAcceptorState state) p
  | noted (state : PaxosAcceptorState) :
      p.maxTrimIid < state.trimIid → state.trimIid ≤ p.nextPrepareIid →
      MarksOutcome p (.receiveAcceptorState state)
        { p with maxTrimIid := state.trimIid }
  | trimmed (state : PaxosAcceptorState) :
      p.maxTrimIid < state.trimIid → p.nextPrepareIid < state.trimIid →
      MarksOutcome p (.receiveAcceptorState state)
        { p with
          maxTrimIid := state.trimIid
          nextPrepareIid := state.trimIid
          values := p.trimmedValues state.trimIid
          prepareInstances := trimTable state.trimIid p.prepareInstances
          acceptInstances := trimTable state.trimIid p.acceptInstances }

theorem proposerPrepare_marks
    {now : Int} {out : PaxosPrepare}
    (ran : proposerPrepare now p = some (out, after)) :
    MarksOutcome p (.prepare now) after := by
  simp only [proposerPrepare, instanceNew] at ran
  split at ran
  · cases ran
  · next inst created =>
      split at created
      · next positive =>
          obtain ⟨table, _, equal⟩ := Option.map_eq_some_iff.mp ran
          cases equal
          exact .opened now _ positive rfl rfl
      · cases created

theorem proposerReceivePromise_marks
    {clock : Nat → Int} {ack : PaxosPromise} {out : Option PaxosPrepare}
    (ran : proposerReceivePromise clock p ack = some (out, after)) :
    MarksOutcome p (.receivePromise clock ack) after := by
  unfold proposerReceivePromise at ran
  split at ran
  · cases ran
    exact .kept _ _ nofun nofun rfl rfl
  · obtain ⟨looped, _, equal⟩ := Option.map_eq_some_iff.mp ran
    cases equal
    exact .kept _ _ nofun nofun rfl rfl

theorem proposerAccept_marks
    {out : Option PaxosAccept} (ran : proposerAccept p = some (out, after)) :
    MarksOutcome p .accept after := by
  unfold proposerAccept at ran
  split at ran
  · cases ran
    exact .kept _ _ nofun nofun rfl rfl
  · split at ran
    · cases ran
      exact .kept _ _ nofun nofun rfl rfl
    · simp only at ran
      split at ran
      · cases ran
        exact .kept _ _ nofun nofun rfl rfl
      · split at ran
        · cases ran
          exact .kept _ _ nofun nofun rfl rfl
        · cases ran

theorem proposerReceiveAccepted_marks
    {ack : PaxosAccepted} {done : Bool} {retired : List PaxosValue}
    (ran : proposerReceiveAccepted p ack = some (done, retired, after)) :
    MarksOutcome p (.receiveAccepted ack) after := by
  unfold proposerReceiveAccepted at ran
  split at ran
  · cases ran
    exact .kept _ _ nofun nofun rfl rfl
  · split at ran
    · cases ran
    · split at ran
      · split at ran
        · cases ran
        · split at ran
          · cases ran
          · cases ran
            exact .kept _ _ nofun nofun rfl rfl
          · simp only at ran
            split at ran
            · cases ran
              exact .kept _ _ nofun nofun rfl rfl
            · cases ran
              exact .kept _ _ nofun nofun rfl rfl
      · cases ran
        exact .kept _ _ nofun nofun rfl rfl

theorem proposerReceivePreempted_marks
    {now : Int} {ack : PaxosPreempted} {out : Option PaxosPrepare}
    (ran : proposerReceivePreempted now p ack = some (out, after)) :
    MarksOutcome p (.receivePreempted now ack) after := by
  unfold proposerReceivePreempted at ran
  split at ran
  · cases ran
    exact .kept _ _ nofun nofun rfl rfl
  · split at ran
    · obtain ⟨moved, _, equal⟩ := Option.map_eq_some_iff.mp ran
      cases equal
      exact .kept _ _ nofun nofun rfl rfl
    · cases ran
      exact .kept _ _ nofun nofun rfl rfl

theorem proposerReceiveAcceptorState_marks
    (p : Proposer) (state : PaxosAcceptorState) :
    MarksOutcome p (.receiveAcceptorState state)
      (proposerReceiveAcceptorState p state).2 := by
  unfold proposerReceiveAcceptorState
  split
  · next higher =>
      unfold proposerSetInstanceId
      split
      · next beyond =>
          have trimmed := MarksOutcome.trimmed (p := p) state higher beyond
          simp only [Proposer.trimmedValues] at trimmed
          simp only [trimEntries_snd]
          exact trimmed
      · next within => exact .noted state higher (Nat.le_of_not_lt within)
  · next known => exact .known state (Nat.le_of_not_lt known)

theorem proposerSetInstanceId_marks (p : Proposer) (iid : Nat) :
    MarksOutcome p (.setInstanceId iid) (proposerSetInstanceId p iid).2 := by
  unfold proposerSetInstanceId
  split
  · next beyond => exact .moved iid _ beyond rfl rfl
  · exact .kept _ _ nofun nofun rfl rfl

theorem timeoutIteratorAccept_marks
    {proposerTimeout : Int} {iter moved : TimeoutIterator}
    {out : Option PaxosAccept}
    (ran : timeoutIteratorAccept proposerTimeout iter p =
      some (out, moved, after)) :
    MarksOutcome p (.timeoutAccept proposerTimeout iter) after := by
  unfold timeoutIteratorAccept at ran
  split at ran
  · cases ran
    exact .kept _ _ nofun nofun rfl rfl
  · obtain ⟨accept, _, equal⟩ := Option.map_eq_some_iff.mp ran
    cases equal
    exact .kept _ _ nofun nofun rfl rfl

theorem proposerStep_marks
    (stepEq : proposerStep p op = some (after, result)) :
    MarksOutcome p op after := by
  cases op with
  | propose value =>
      cases stepEq
      refine .kept _ _ ?_ ?_ rfl rfl
      · intro _ isOp
        cases isOp
      · intro _ isOp
        cases isOp
  | prepare now =>
      obtain ⟨⟨out, state⟩, ran, equal⟩ := Option.map_eq_some_iff.mp stepEq
      cases equal
      exact proposerPrepare_marks ran
  | receivePromise clock ack =>
      obtain ⟨⟨out, state⟩, ran, equal⟩ := Option.map_eq_some_iff.mp stepEq
      cases equal
      exact proposerReceivePromise_marks ran
  | accept =>
      obtain ⟨⟨out, state⟩, ran, equal⟩ := Option.map_eq_some_iff.mp stepEq
      cases equal
      exact proposerAccept_marks ran
  | receiveAccepted ack =>
      obtain ⟨⟨done, retired, state⟩, ran, equal⟩ :=
        Option.map_eq_some_iff.mp stepEq
      cases equal
      exact proposerReceiveAccepted_marks ran
  | receivePreempted now ack =>
      obtain ⟨⟨out, state⟩, ran, equal⟩ := Option.map_eq_some_iff.mp stepEq
      cases equal
      exact proposerReceivePreempted_marks ran
  | receiveAcceptorState state =>
      cases stepEq
      exact proposerReceiveAcceptorState_marks p state
  | setInstanceId iid =>
      cases stepEq
      exact proposerSetInstanceId_marks p iid
  | timeoutPrepare proposerTimeout iter =>
      cases stepEq
      split
      · refine .kept _ _ ?_ ?_ rfl rfl
        · intro _ isOp
          cases isOp
        · intro _ isOp
          cases isOp
      · refine .kept _ _ ?_ ?_ rfl rfl
        · intro _ isOp
          cases isOp
        · intro _ isOp
          cases isOp
  | timeoutAccept proposerTimeout iter =>
      obtain ⟨⟨out, moved, state⟩, ran, equal⟩ :=
        Option.map_eq_some_iff.mp stepEq
      cases equal
      exact timeoutIteratorAccept_marks ran
  | rehash prepareInstances acceptInstances =>
      simp only [proposerStep] at stepEq
      split at stepEq
      · cases stepEq
        refine .kept _ _ ?_ ?_ rfl rfl
        · intro _ isOp
          cases isOp
        · intro _ isOp
          cases isOp
      · cases stepEq

/-- A number that the increment of `next_prepare_iid` does not wrap to zero,
where the program stops at an assertion. -/
theorem freshIid_of_positive
    (bound : p.nextPrepareIid < 2 ^ 32) (positive : 0 < p.freshIid) :
    p.freshIid = p.nextPrepareIid + 1 ∧ p.freshIid < 2 ^ 32 := by
  unfold Proposer.freshIid word32 at positive ⊢
  omega

theorem MarksOutcome.opens
    (outcome : MarksOutcome p op after)
    (bound : p.nextPrepareIid < 2 ^ 32) :
    p.Opens op := by
  intro now isPrepare
  cases outcome with
  | kept _ _ _ other _ _ => exact False.elim (other now isPrepare)
  | opened _ _ positive _ _ => exact (freshIid_of_positive bound positive).1
  | moved _ _ _ _ _ => cases isPrepare
  | known _ _ => cases isPrepare
  | noted _ _ _ => cases isPrepare
  | trimmed _ _ _ => cases isPrepare

/-- The known trim point never passes the last instance opened. -/
theorem MarksOutcome.trim_le_next
    (outcome : MarksOutcome p op after) (sized : op.Iids32)
    (bound : p.nextPrepareIid < 2 ^ 32)
    (below : p.maxTrimIid ≤ p.nextPrepareIid) :
    after.maxTrimIid ≤ after.nextPrepareIid ∧
      after.nextPrepareIid < 2 ^ 32 := by
  cases outcome with
  | kept _ _ _ _ sameTrim sameNext =>
      rw [sameTrim, sameNext]
      exact ⟨below, bound⟩
  | opened now _ positive sameTrim next =>
      have fresh := freshIid_of_positive bound positive
      rw [sameTrim, next]
      omega
  | moved iid _ beyond sameTrim next =>
      rw [sameTrim, next]
      exact ⟨below.trans beyond.le, sized⟩
  | known state _ => exact ⟨below, bound⟩
  | noted state _ within => exact ⟨within, bound⟩
  | trimmed state _ _ => exact ⟨Nat.le_refl _, sized⟩

/-- Pending instances stay above the known trim point through every call but
an acceptor state. -/
theorem ProposerOutcome.pendingAbove
    (outcome : ProposerOutcome p op after result)
    (marks : MarksOutcome p op after) (keyed : p.Keyed)
    (bound : p.nextPrepareIid < 2 ^ 32) (above : p.AboveTrim)
    (other : ∀ state, op ≠ .receiveAcceptorState state) :
    after.PendingAbove after.maxTrimIid := by
  have sameTrim : after.maxTrimIid = p.maxTrimIid := by
    cases marks with
    | kept _ _ _ _ sameTrim _ => exact sameTrim
    | opened _ _ _ sameTrim _ => exact sameTrim
    | moved _ _ _ sameTrim _ => exact sameTrim
    | known state _ => exact False.elim (other state rfl)
    | noted state _ _ => exact False.elim (other state rfl)
    | trimmed state _ _ => exact False.elim (other state rfl)
  have keys : p.Instances (fun key _ => p.maxTrimIid < key)
      (fun key _ => p.maxTrimIid < key) := by
    constructor
    · intro key inst present
      have high := above.pending.prepare key inst present
      rwa [keyed.prepare key inst present] at high
    · intro key inst present
      have high := above.pending.accept key inst present
      rwa [keyed.accept key inst present] at high
  have afterKeys := outcome.keys keys (by
    intro now isPrepare positive
    have fresh := freshIid_of_positive bound positive
    have next := above.next
    omega)
  have afterKeyed := outcome.keyed keyed
  rw [sameTrim]
  constructor
  · intro key inst present
    rw [afterKeyed.prepare key inst present]
    exact afterKeys.prepare key inst present
  · intro key inst present
    rw [afterKeyed.accept key inst present]
    exact afterKeys.accept key inst present

theorem pendingAbove_trimTable (p : Proposer) (iid : Nat) :
    (trimTable iid p.prepareInstances).All (fun _ inst => iid < inst.iid) ∧
      (trimTable iid p.acceptInstances).All fun _ inst => iid < inst.iid := by
  constructor
  · intro key inst present
    have kept := (Table.get_filter.mp present).2
    simpa using kept
  · intro key inst present
    have kept := (Table.get_filter.mp present).2
    simpa using kept

/-- One call from a proposer above its trim point: it stays there exactly when
the call meets the condition. -/
theorem proposerStep_aboveTrim_iff
    (keyed : p.Keyed) (sized : op.Iids32)
    (bound : p.nextPrepareIid < 2 ^ 32) (above : p.AboveTrim)
    (stepEq : proposerStep p op = some (after, result)) :
    after.AboveTrim ↔ p.TrimCovers op := by
  have marks := proposerStep_marks stepEq
  have next := (marks.trim_le_next sized bound above.next).1
  by_cases isState : ∃ state, op = .receiveAcceptorState state
  · obtain ⟨state, rfl⟩ := isState
    cases marks with
    | kept _ _ other _ _ _ => exact False.elim (other state rfl)
    | known _ low =>
        apply iff_of_true above
        intro state' same higher _
        cases same
        omega
    | noted _ higher within =>
        constructor
        · intro afterAbove state' same _ _
          cases same
          exact ⟨afterAbove.pending.prepare, afterAbove.pending.accept⟩
        · intro covers
          have pending := covers state rfl higher within
          exact ⟨⟨pending.prepare, pending.accept⟩, next⟩
    | trimmed _ higher beyond =>
        have pending := pendingAbove_trimTable p state.trimIid
        apply iff_of_true ⟨⟨pending.1, pending.2⟩, next⟩
        intro state' same _ within
        cases same
        omega
  · have other : ∀ state, op ≠ .receiveAcceptorState state :=
      fun state same => isState ⟨state, same⟩
    have outcome := proposerStep_outcome keyed stepEq
    apply iff_of_true
      ⟨outcome.pendingAbove marks keyed bound above other, next⟩
    intro state same
    exact False.elim (other state same)

end Step

section Run

variable {id acceptors : Nat} {past : List ProposerTransition}
variable {final : Proposer}

theorem proposerNew_aboveTrim (id acceptors : Nat) :
    (proposerNew id acceptors).AboveTrim :=
  ⟨proposerNew_instances id acceptors _ _, Nat.le_refl _⟩

/-- In every run the known trim point is at most the last instance opened. -/
theorem proposer_trace_trim_le_next
    (trace : Trace proposerStep (proposerNew id acceptors) past final)
    (sized : ∀ current ∈ past, current.input.Iids32) :
    final.maxTrimIid ≤ final.nextPrepareIid ∧
      final.nextPrepareIid < 2 ^ 32 := by
  induction trace with
  | nil => exact ⟨Nat.le_refl 0, Nat.two_pow_pos 32⟩
  | snoc earlier stepEq inductionHypothesis =>
      rw [List.forall_mem_append, List.forall_mem_singleton] at sized
      obtain ⟨below, bound⟩ := inductionHypothesis sized.1
      exact (proposerStep_marks stepEq).trim_le_next sized.2 bound below

/-- The tables of a proposer are in order in every run, whatever 32-bit ids it
is given. -/
theorem proposer_trace_tabled_of_iids32
    (trace : Trace proposerStep (proposerNew id acceptors) past final)
    (sized : ∀ current ∈ past, current.input.Iids32) :
    final.Tabled := by
  induction trace with
  | nil => exact proposerNew_tabled id acceptors
  | snoc earlier stepEq inductionHypothesis =>
      rw [List.forall_mem_append] at sized
      have bound := (proposer_trace_trim_le_next earlier sized.1).2
      have keyed := (proposer_trace_keyed earlier).1
      exact (proposerStep_outcome keyed stepEq).tabled
        (inductionHypothesis sized.1)
        ((proposerStep_marks stepEq).opens bound)

/-- In every run, the proposer stays above its trim point through all states
reached exactly when all calls meet the condition. -/
theorem proposer_trace_aboveTrim
    (trace : Trace proposerStep (proposerNew id acceptors) past final)
    (sized : ∀ current ∈ past, current.input.Iids32) :
    ((∀ current ∈ past, current.target.AboveTrim) → final.AboveTrim) ∧
      ((∀ current ∈ past, current.target.AboveTrim) ↔
        ∀ current ∈ past, current.source.TrimCovers current.input) := by
  induction trace with
  | nil => exact ⟨fun _ => proposerNew_aboveTrim id acceptors, by simp⟩
  | snoc earlier stepEq inductionHypothesis =>
      rw [List.forall_mem_append, List.forall_mem_singleton] at sized
      obtain ⟨last, same⟩ := inductionHypothesis sized.1
      have bound := (proposer_trace_trim_le_next earlier sized.1).2
      have keyed := (proposer_trace_keyed earlier).1
      simp only [List.forall_mem_append, List.forall_mem_singleton]
      refine ⟨fun above => above.2, ?_⟩
      rw [← same]
      refine and_congr_right fun above => ?_
      exact proposerStep_aboveTrim_iff keyed sized.2 bound (last above) stepEq

/-- After every call of every run, all pending instances are above the known
trim point, which is at most the last instance opened, exactly when each trim
point learned within the instances opened so far is below the instances pending
then.  The bound on the trim point holds in any case. -/
theorem pending_above_trim_iff
    (trace : Trace proposerStep (proposerNew id acceptors) past final)
    (sized : ∀ current ∈ past, current.input.Iids32) :
    ((∀ current ∈ past,
      (∀ key inst, current.target.prepareInstances.get key = some inst ∨
          current.target.acceptInstances.get key = some inst →
        current.target.maxTrimIid < inst.iid) ∧
      current.target.maxTrimIid ≤ current.target.nextPrepareIid) ↔
    ∀ current ∈ past, ∀ state,
      current.input = .receiveAcceptorState state →
      current.source.maxTrimIid < state.trimIid →
      state.trimIid ≤ current.source.nextPrepareIid →
      ∀ key inst, current.source.prepareInstances.get key = some inst ∨
          current.source.acceptInstances.get key = some inst →
        state.trimIid < inst.iid) ∧
    final.maxTrimIid ≤ final.nextPrepareIid := by
  refine ⟨?_, (proposer_trace_trim_le_next trace sized).1⟩
  simp only [← Proposer.pendingAbove_iff]
  apply Iff.trans ?_ (proposer_trace_aboveTrim trace sized).2
  refine forall₂_congr fun current _ => ?_
  exact ⟨fun both => ⟨both.1, both.2⟩, fun above => ⟨above.pending, above.next⟩⟩

/-- An instance is opened, a trim point beyond it is learned, and the next
instance is opened above the trim point. -/
theorem pending_above_trim_skipped :
    ∃ past final,
      Trace proposerStep (proposerNew 0 3) past final ∧
      (final.prepareInstances.get 6).isSome = true ∧
      ∀ current ∈ past,
        (∀ key inst, current.target.prepareInstances.get key = some inst ∨
            current.target.acceptInstances.get key = some inst →
          current.target.maxTrimIid < inst.iid) ∧
        current.target.maxTrimIid ≤ current.target.nextPrepareIid := by
  have ran :=
    trace_of_runFrom proposerStep (proposerNew 0 3)
      [.prepare 0, .receiveAcceptorState ⟨0, 5⟩, .prepare 0] rfl
  refine ⟨_, _, ran, rfl, ?_⟩
  apply (pending_above_trim_iff ran ?_).1.mpr
  · intro current member state isState _ within
    simp only [List.mem_cons, List.not_mem_nil, or_false] at member
    rcases member with rfl | rfl | rfl
    · cases isState
    · cases isState
      exact absurd within (by decide)
    · cases isState
  · intro current member
    simp only [List.mem_cons, List.not_mem_nil, or_false] at member
    rcases member with rfl | rfl | rfl
    · trivial
    · exact show 5 < 2 ^ 32 by decide
    · trivial

/-- An instance is opened, and then an acceptor state says that it has been
trimmed: it stays pending, at the known trim point. -/
theorem pending_at_trim :
    ∃ past final inst,
      Trace proposerStep (proposerNew 0 3) past final ∧
      (∀ current ∈ past, current.input.Iids32) ∧
      final.prepareInstances.get 1 = some inst ∧
      ¬ final.maxTrimIid < inst.iid := by
  have ran :=
    trace_of_runFrom proposerStep (proposerNew 0 3)
      [.prepare 0, .receiveAcceptorState ⟨0, 1⟩] rfl
  refine ⟨_, _, _, ran, ?_, rfl, by decide⟩
  intro current member
  simp only [List.mem_cons, List.not_mem_nil, or_false] at member
  rcases member with rfl | rfl
  · trivial
  · exact show 1 < 2 ^ 32 by decide

end Run

end LibPaxos
