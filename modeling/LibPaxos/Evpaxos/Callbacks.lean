import LibPaxos.Evpaxos.Replica
import LibPaxos.Library.Simulation
import LibPaxos.Network.Model

/-!
# The callbacks of a proposer as runs

Each callback of `evproposer.c` is a run of calls into the proposer that hands
over exactly the messages the callback sends.  The run opens instances only
while values wait, takes a message only where the callback brings it, and stays
inside the types as long as the proposer was well below their top.
-/

namespace LibPaxos

open LibPaxos.Library

/-- Whether a callback can open a window of instances and take the next ballot
of every instance without reaching the top of the types. -/
def Proposer.roomy (p : Proposer) (window : Nat) : Bool :=
  decide (p.nextPrepareIid + window + 1 < 2 ^ 32) &&
    (p.prepareInstances.entries ++ p.acceptInstances.entries).all fun entry =>
      decide (maxNOfProposers + entry.2.ballot < 2 ^ 32)

/-- A call that a callback may make while it handles a message. -/
structure CallbackCall (handled : Option PaxosMessage) (p : Proposer)
    (op : ProposerOp) : Prop where
  fits : p.fits op = true
  received : ∀ message, op.received = some message → handled = some message
  proposes : ∀ value, op = .propose value →
    handled = some (.clientValue ⟨value⟩)
  opens : ∀ now, op = .prepare now → carrayEmpty p.values.val = false

/-- The proposer makes calls of a callback, which send these messages. -/
abbrev Proposer.MakesCalls (handled : Option PaxosMessage) :
    Proposer → List PaxosMessage → Proposer → Prop :=
  Emits proposerStep (CallbackCall handled)
    fun result => result.sent.toList

section Room

variable {p : Proposer} {window : Nat} (roomy : p.roomy window = true)

include roomy

theorem roomy_next : p.nextPrepareIid + window + 1 < 2 ^ 32 := by
  rw [Proposer.roomy, Bool.and_eq_true, decide_eq_true_eq] at roomy
  exact roomy.1

theorem roomy_instance
    {table : Table Nat ProposerInstance}
    (own : table = p.prepareInstances ∨ table = p.acceptInstances)
    {key : Nat} {inst : ProposerInstance} (present : table.get key = some inst)
    (ballot : Nat) :
    ballotFits inst ballot = true := by
  rw [Proposer.roomy, Bool.and_eq_true, List.all_eq_true] at roomy
  have member := Table.get_eq_some_iff.mp present
  have small := roomy.2 (key, inst) (by
    rw [List.mem_append]
    rcases own with rfl | rfl
    · exact Or.inl member
    · exact Or.inr member)
  rw [ballotFits, Bool.or_eq_true]
  exact Or.inr small

/-- A promise of one acceptor preempts its instance once at most. -/
theorem roomy_promise
    {ack : PaxosPromise} (single : ack.nAids = 1) (clock : Nat → Int) :
    p.fits (.receivePromise clock ack) = true := by
  simp only [Proposer.fits]
  cases present : p.prepareInstances.get ack.iid with
  | none => rfl
  | some inst =>
      simp only [single, List.range_one, promiseFits]
      rw [Bool.and_eq_true]
      refine ⟨?_, ?_⟩
      · cases ack.ballots[0]? with
        | none => rfl
        | some ballot =>
            exact roomy_instance roomy (Or.inl rfl) present ballot
      · cases promiseEntry p.id clock ack 0 inst <;> rfl

theorem roomy_preempted (now : Int) (ack : PaxosPreempted) :
    p.fits (.receivePreempted now ack) = true := by
  simp only [Proposer.fits]
  cases present : p.acceptInstances.get ack.iid with
  | none => rfl
  | some inst => exact roomy_instance roomy (Or.inr rfl) present ack.ballot

end Room

/-! ### What the calls leave alone -/

section Frame

variable {p after : Proposer}

theorem proposerPrepare_frame
    {now : Int} {out : PaxosPrepare}
    (ran : proposerPrepare now p = some (out, after)) :
    after.values = p.values ∧
      after.nextPrepareIid = word32 (p.nextPrepareIid + 1) := by
  unfold proposerPrepare at ran
  simp only at ran
  split at ran
  · cases ran
  · obtain ⟨table, _, equal⟩ := Option.map_eq_some_iff.mp ran
    cases equal
    exact ⟨rfl, rfl⟩

theorem proposerAccept_next
    {out : Option PaxosAccept} (ran : proposerAccept p = some (out, after)) :
    after.nextPrepareIid = p.nextPrepareIid := by
  unfold proposerAccept at ran
  split at ran
  · cases ran
    rfl
  · split at ran
    · cases ran
      rfl
    · simp only at ran
      split at ran
      · cases ran
        rfl
      · split at ran
        · cases ran
          rfl
        · cases ran

theorem proposerReceivePromise_next
    {clock : Nat → Int} {ack : PaxosPromise} {out : Option PaxosPrepare}
    (ran : proposerReceivePromise clock p ack = some (out, after)) :
    after.nextPrepareIid = p.nextPrepareIid := by
  unfold proposerReceivePromise at ran
  split at ran
  · cases ran
    rfl
  · obtain ⟨result, _, equal⟩ := Option.map_eq_some_iff.mp ran
    cases equal
    rfl

theorem proposerReceiveAccepted_next
    {ack : PaxosAccepted} {done : Bool} {retired : List PaxosValue}
    (ran : proposerReceiveAccepted p ack = some (done, retired, after)) :
    after.nextPrepareIid = p.nextPrepareIid := by
  unfold proposerReceiveAccepted at ran
  split at ran
  · cases ran
    rfl
  · split at ran
    · cases ran
    · split at ran
      · split at ran
        · cases ran
        · split at ran
          · cases ran
          · cases ran
            rfl
          · simp only at ran
            split at ran
            · cases ran
              rfl
            · cases ran
              rfl
      · cases ran
        rfl

theorem proposerReceivePreempted_next
    {now : Int} {ack : PaxosPreempted} {out : Option PaxosPrepare}
    (ran : proposerReceivePreempted now p ack = some (out, after)) :
    after.nextPrepareIid = p.nextPrepareIid := by
  unfold proposerReceivePreempted at ran
  split at ran
  · cases ran
    rfl
  · split at ran
    · obtain ⟨tables, _, equal⟩ := Option.map_eq_some_iff.mp ran
      cases equal
      rfl
    · cases ran
      rfl

end Frame

/-! ### The calls of a callback -/

section Calls

variable {handled : Option PaxosMessage} {p after : Proposer}

theorem callbackCall_prepare
    (waits : carrayEmpty p.values.val = false)
    (room : p.nextPrepareIid + 1 < 2 ^ 32) (now : Int) :
    CallbackCall handled p (.prepare now) where
  fits := decide_eq_true room
  received := by
    intro message taken
    cases taken
  proposes := by
    intro value impossible
    cases impossible
  opens := fun _ _ => waits

/-- A call that takes the message at hand, or none at all. -/
theorem callbackCall_of_received
    {op : ProposerOp} (fits : p.fits op = true)
    (received : ∀ message, op.received = some message →
      handled = some message)
    (notPropose : ∀ value, op ≠ .propose value)
    (notPrepare : ∀ now, op ≠ .prepare now) :
    CallbackCall handled p op where
  fits := fits
  received := received
  proposes := fun value isPropose => absurd isPropose (notPropose value)
  opens := fun now isPrepare => absurd isPrepare (notPrepare now)

theorem callbackCall_accept : CallbackCall handled p .accept := by
  apply callbackCall_of_received rfl
  · intro message taken
    cases taken
  · intro value impossible
    cases impossible
  · intro now impossible
    cases impossible

theorem preexecuteLoop_makes
    {now : Nat → Int} (count : Nat) :
    ∀ {i : Nat} {p after : Proposer} {prepares : List PaxosPrepare},
      carrayEmpty p.values.val = false →
      p.nextPrepareIid + count < 2 ^ 32 →
      preexecuteLoop now i count p = some (prepares, after) →
      p.MakesCalls handled (prepares.map .prepare) after := by
  induction count with
  | zero =>
      intro i p after prepares _ _ ran
      cases ran
      exact .refl p
  | succ count inductionHypothesis =>
      intro i p after prepares waits room ran
      rw [preexecuteLoop] at ran
      split at ran
      · cases ran
      · next pr next prepared =>
          obtain ⟨⟨rest, last⟩, looped, equal⟩ := Option.map_eq_some_iff.mp ran
          cases equal
          obtain ⟨sameValues, opened⟩ := proposerPrepare_frame prepared
          rw [word32_of_lt (by omega)] at opened
          have stepEq : proposerStep p (.prepare (now i)) =
              some (next, ⟨some (.prepare pr), []⟩) := by
            rw [proposerStep, prepared]
            rfl
          have first : p.MakesCalls handled [.prepare pr] next :=
            .single (callbackCall_prepare waits (by omega) _) stepEq
          exact first.trans (inductionHypothesis
            (by rw [sameValues]; exact waits) (by omega) looped)

theorem proposerPreexecute_makes
    {now : Nat → Int} {window : Int} {prepares : List PaxosPrepare}
    (room : p.nextPrepareIid + window.toNat < 2 ^ 32)
    (ran : proposerPreexecute now window p = some (prepares, after)) :
    p.MakesCalls handled (prepares.map .prepare) after := by
  unfold proposerPreexecute at ran
  split at ran
  · cases ran
    exact .refl p
  · next waits =>
      simp only at ran
      split at ran
      · cases ran
        exact .refl p
      · apply preexecuteLoop_makes _ _ _ ran
        · exact Bool.eq_false_of_not_eq_true waits
        · omega

theorem acceptLoop_makes (rounds : Nat) :
    ∀ {p after : Proposer} {accepts : List PaxosAccept},
      acceptLoop rounds p = some (accepts, after) →
      p.MakesCalls handled (accepts.map .accept) after ∧
        after.nextPrepareIid = p.nextPrepareIid := by
  induction rounds with
  | zero =>
      intro p after accepts ran
      cases ran
  | succ rounds inductionHypothesis =>
      intro p after accepts ran
      rw [acceptLoop] at ran
      split at ran
      · cases ran
      · next next accepted =>
          cases ran
          have stepEq : proposerStep p .accept =
              some (after, ⟨none, []⟩) := by
            rw [proposerStep, accepted]
            rfl
          exact ⟨.single callbackCall_accept stepEq,
            proposerAccept_next accepted⟩
      · next accept next accepted =>
          obtain ⟨⟨rest, last⟩, looped, equal⟩ := Option.map_eq_some_iff.mp ran
          cases equal
          have stepEq : proposerStep p .accept =
              some (next, ⟨some (.accept accept), []⟩) := by
            rw [proposerStep, accepted]
            rfl
          have first : p.MakesCalls handled [.accept accept] next :=
            .single callbackCall_accept stepEq
          obtain ⟨later, sameNext⟩ := inductionHypothesis looped
          exact ⟨first.trans later,
            sameNext.trans (proposerAccept_next accepted)⟩

end Calls

/-! ### The callbacks -/

section Callbacks

variable {handled : Option PaxosMessage} {p after : EvProposer}
variable {sent : List PaxosMessage}

/-- A callback is a run of calls into the proposer of the replica. -/
structure EvProposer.Makes (handled : Option PaxosMessage) (p : EvProposer)
    (sent : List PaxosMessage) (after : EvProposer) : Prop where
  calls : p.state.MakesCalls handled sent after.state
  id_eq : after.id = p.id
  window_eq : after.preexecWindow = p.preexecWindow

theorem tryAccept_makes
    {now : Nat → Int}
    (room : p.state.nextPrepareIid + p.preexecWindow.toNat < 2 ^ 32)
    (ran : tryAccept now p = some (sent, after)) :
    p.Makes handled sent after := by
  unfold tryAccept at ran
  split at ran
  · cases ran
  · next accepts state looped =>
      obtain ⟨⟨prepares, last⟩, refilled, equal⟩ :=
        Option.map_eq_some_iff.mp ran
      cases equal
      obtain ⟨accepted, sameNext⟩ := acceptLoop_makes _ looped
      rw [← sameNext] at room
      exact ⟨accepted.trans (proposerPreexecute_makes room refilled), rfl, rfl⟩

/-- A call that keeps the next instance id and then `try_accept`. -/
theorem EvProposer.Makes.of_tryAccept
    {now : Nat → Int} {op : ProposerOp} {result : ProposerResult}
    {state : Proposer}
    (room : p.state.nextPrepareIid + p.preexecWindow.toNat < 2 ^ 32)
    (stepEq : proposerStep p.state op = some (state, result))
    (meets : CallbackCall handled p.state op)
    (sameNext : state.nextPrepareIid = p.state.nextPrepareIid)
    (ran : tryAccept now { p with state := state } = some (sent, after)) :
    p.Makes handled (result.sent.toList ++ sent) after := by
  rw [← sameNext] at room
  have tried : EvProposer.Makes handled { p with state := state } sent after :=
    tryAccept_makes room ran
  exact ⟨(Emits.single meets stepEq).trans tried.calls, tried.id_eq,
    tried.window_eq⟩

theorem evproposerHandlePromise_makes
    {clock now : Nat → Int} {pro : PaxosPromise}
    (roomy : p.state.roomy p.preexecWindow.toNat = true)
    (single : pro.nAids = 1)
    (ran : evproposerHandlePromise clock now p pro = some (sent, after)) :
    p.Makes (some (.promise pro)) sent after := by
  have room := roomy_next roomy
  unfold evproposerHandlePromise at ran
  split at ran
  · next prepare state aid received _ =>
      obtain ⟨⟨rest, last⟩, tried, equal⟩ := Option.map_eq_some_iff.mp ran
      cases equal
      have stepEq : proposerStep p.state (.receivePromise clock pro) =
          some (state, ⟨prepare.map .prepare, []⟩) := by
        rw [proposerStep, received]
        rfl
      have meets : CallbackCall (some (.promise pro)) p.state
          (.receivePromise clock pro) := by
        apply callbackCall_of_received (roomy_promise roomy single clock)
        · intro message taken
          exact taken
        · intro value impossible
          cases impossible
        · intro now impossible
          cases impossible
      have made := EvProposer.Makes.of_tryAccept (by omega) stepEq meets
        (proposerReceivePromise_next received) tried
      cases prepare with
      | none => exact made
      | some out => exact made
  · cases ran

theorem evproposerHandleAccepted_makes
    {now : Nat → Int} {acc : PaxosAccepted}
    (roomy : p.state.roomy p.preexecWindow.toNat = true)
    (ran : evproposerHandleAccepted now p acc = some (sent, after)) :
    p.Makes (some (.accepted acc)) sent after := by
  have room := roomy_next roomy
  have meets : CallbackCall (some (.accepted acc)) p.state
      (.receiveAccepted acc) := by
    apply callbackCall_of_received rfl
    · intro message taken
      exact taken
    · intro value impossible
      cases impossible
    · intro now impossible
      cases impossible
  unfold evproposerHandleAccepted at ran
  split at ran
  · cases ran
  · next retired state received =>
      have stepEq : proposerStep p.state (.receiveAccepted acc) =
          some (state, ⟨none, retired⟩) := by
        rw [proposerStep, received]
        rfl
      exact .of_tryAccept (by omega) stepEq meets
        (proposerReceiveAccepted_next received) ran
  · next retired state received =>
      cases ran
      have stepEq : proposerStep p.state (.receiveAccepted acc) =
          some (state, ⟨none, retired⟩) := by
        rw [proposerStep, received]
        rfl
      exact ⟨.single meets stepEq, rfl, rfl⟩

theorem evproposerHandlePreempted_makes
    {clock : Int} {now : Nat → Int} {preempted : PaxosPreempted}
    (roomy : p.state.roomy p.preexecWindow.toNat = true)
    (ran : evproposerHandlePreempted clock now p preempted =
      some (sent, after)) :
    p.Makes (some (.preempted preempted)) sent after := by
  have room := roomy_next roomy
  have meets : CallbackCall (some (.preempted preempted)) p.state
      (.receivePreempted clock preempted) := by
    apply callbackCall_of_received (roomy_preempted roomy clock preempted)
    · intro message taken
      exact taken
    · intro value impossible
      cases impossible
    · intro now impossible
      cases impossible
  unfold evproposerHandlePreempted at ran
  split at ran
  · cases ran
  · next state received =>
      cases ran
      have stepEq : proposerStep p.state (.receivePreempted clock preempted) =
          some (state, ⟨none, []⟩) := by
        rw [proposerStep, received]
        rfl
      exact ⟨.single meets stepEq, rfl, rfl⟩
  · next prepare state received =>
      obtain ⟨⟨rest, last⟩, tried, equal⟩ := Option.map_eq_some_iff.mp ran
      cases equal
      have stepEq : proposerStep p.state (.receivePreempted clock preempted) =
          some (state, ⟨some (.prepare prepare), []⟩) := by
        rw [proposerStep, received]
        rfl
      exact .of_tryAccept (by omega) stepEq meets
        (proposerReceivePreempted_next received) tried

theorem evproposerHandleClientValue_makes
    {now : Nat → Int} {v : PaxosClientValue}
    (roomy : p.state.roomy p.preexecWindow.toNat = true)
    (ran : evproposerHandleClientValue now p v = some (sent, after)) :
    p.Makes (some (.clientValue v)) sent after := by
  have room := roomy_next roomy
  have meets : CallbackCall (some (.clientValue v)) p.state
      (.propose v.value) := by
    refine ⟨rfl, ?_, ?_, ?_⟩
    · intro message taken
      cases taken
    · intro value isPropose
      cases isPropose
      rfl
    · intro now impossible
      cases impossible
  have stepEq : proposerStep p.state (.propose v.value) =
      some (proposerPropose p.state v.value, ⟨none, []⟩) :=
    rfl
  exact .of_tryAccept (by omega) stepEq meets rfl ran

/-- The callback for a message that replicas of a group send to each other, or
for the value of a client. -/
theorem evproposerReceive_makes
    {env : Surroundings} {message : PaxosMessage}
    (roomy : p.state.roomy p.preexecWindow.toNat = true)
    (notState : ∀ state, message ≠ .acceptorState state)
    (single : ∀ pro, message = .promise pro → pro.nAids = 1)
    (ran : evproposerReceive env p message = some (sent, after)) :
    p.Makes (some message) sent after := by
  cases message with
  | promise pro => exact evproposerHandlePromise_makes roomy (single pro rfl) ran
  | accepted acc => exact evproposerHandleAccepted_makes roomy ran
  | preempted preempted => exact evproposerHandlePreempted_makes roomy ran
  | clientValue v => exact evproposerHandleClientValue_makes roomy ran
  | acceptorState state => exact absurd rfl (notState state)
  | _ =>
      cases ran
      exact ⟨.refl _, rfl, rfl⟩

theorem evproposerPreexecOnce_makes
    {now : Nat → Int} (roomy : p.state.roomy p.preexecWindow.toNat = true)
    (ran : evproposerPreexecOnce now p = some (sent, after)) :
    p.Makes handled sent after := by
  have room := roomy_next roomy
  obtain ⟨⟨prepares, state⟩, refilled, equal⟩ := Option.map_eq_some_iff.mp ran
  cases equal
  exact ⟨proposerPreexecute_makes (by omega) refilled, rfl, rfl⟩

/-- A single call. -/
theorem EvProposer.Makes.of_call
    {op : ProposerOp} {result : ProposerResult} {state : Proposer}
    (stepEq : proposerStep p.state op = some (state, result))
    (meets : CallbackCall handled p.state op) :
    p.Makes handled result.sent.toList { p with state := state } :=
  ⟨.single meets stepEq, rfl, rfl⟩

theorem evproposerSetInstanceId_makes (p : EvProposer) (iid : Nat) :
    p.Makes handled [] (evproposerSetInstanceId p iid) := by
  have stepEq : proposerStep p.state (.setInstanceId iid) =
      some ((proposerSetInstanceId p.state iid).2,
        ⟨none, (proposerSetInstanceId p.state iid).1⟩) :=
    rfl
  apply EvProposer.Makes.of_call stepEq
  apply callbackCall_of_received rfl
  · intro message taken
    cases taken
  · intro value impossible
    cases impossible
  · intro now impossible
    cases impossible

theorem evproposerStep_rehash_makes
    {prepareInstances acceptInstances : Table Nat ProposerInstance}
    (stepEq : evproposerStep p (.rehash prepareInstances acceptInstances) =
      some (after, sent)) :
    p.Makes handled sent after := by
  obtain ⟨⟨state, result⟩, reordered, equal⟩ :=
    Option.map_eq_some_iff.mp stepEq
  cases equal
  have silent : result.sent = none := by
    rw [proposerStep] at reordered
    split at reordered
    · cases reordered
      rfl
    · cases reordered
  rw [show ([] : List PaxosMessage) = result.sent.toList by rw [silent]; rfl]
  apply EvProposer.Makes.of_call reordered
  apply callbackCall_of_received rfl
  · intro message taken
    cases taken
  · intro value impossible
    cases impossible
  · intro now impossible
    cases impossible

end Callbacks

end LibPaxos
