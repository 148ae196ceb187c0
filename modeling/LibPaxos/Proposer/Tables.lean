import LibPaxos.Proposer.Steps
import LibPaxos.Storage

/-!
# The two tables of a proposer

An instance lies in one table at a time, under its own id, which is one that the
proposer has opened.  Every instance that waits for acknowledgements has a
value.  So the assertions of the proposer hold, whatever messages arrive, as
long as the next instance id stays inside its type.
-/

namespace LibPaxos

open LibPaxos.Library

namespace Proposer

/-- No instance waits for promises and for acknowledgements at once. -/
def Disjoint (p : Proposer) : Prop :=
  ∀ key waiting pending, p.prepareInstances.get key = some waiting →
    p.acceptInstances.get key ≠ some pending

/-- The next prepare opens the instance after the last one. -/
def Opens (p : Proposer) (op : ProposerOp) : Prop :=
  ∀ now, op = .prepare now → p.freshIid = p.nextPrepareIid + 1

end Proposer

section Step

variable {p after : Proposer} {op : ProposerOp} {result : ProposerResult}
variable (outcome : ProposerOutcome p op after result)

include outcome in
theorem ProposerOutcome.next_eq_of_prepare
    (isPrepare : ∃ now, op = .prepare now) :
    after.nextPrepareIid = p.freshIid := by
  obtain ⟨now, rfl⟩ := isPrepare
  cases outcome with
  | prepared _ _ _ _ _ => rfl
  | idle passive => exact False.elim (passive.notPrepare now rfl)
  | noted _ passive => exact False.elim (passive.notPrepare now rfl)
  | trimmed _ _ passive _ => exact False.elim (passive.notPrepare now rfl)
  | proposed _ same => cases same
  | promised _ _ _ _ _ same _ _ => cases same
  | accepted _ _ _ _ _ same _ _ _ _ _ => cases same
  | counted _ _ _ _ same _ _ _ _ _ => cases same
  | closed _ _ _ _ _ _ same _ _ _ _ _ _ => cases same
  | preempted _ _ _ _ same _ _ _ _ => cases same
  | resentPrepare _ _ _ same _ => cases same
  | resentAccept _ _ _ _ same _ _ => cases same
  | rehashed _ _ same _ _ => cases same

include outcome in
theorem ProposerOutcome.next_le (opens : p.Opens op) :
    p.nextPrepareIid ≤ after.nextPrepareIid := by
  cases outcome with
  | prepared now table isPrepare _ _ =>
      have opened := opens now isPrepare
      change p.nextPrepareIid ≤ p.freshIid
      omega
  | trimmed _ iid _ higher => exact Nat.le_of_lt higher
  | _ => exact Nat.le_refl _

include outcome in
theorem ProposerOutcome.disjoint
    (disjoint : p.Disjoint)
    (bounded : p.Instances (fun key _ => key ≤ p.nextPrepareIid)
      (fun key _ => key ≤ p.nextPrepareIid))
    (opens : p.Opens op) :
    after.Disjoint := by
  cases outcome with
  | prepared now table isPrepare positive inserted =>
      intro key waiting pending present other
      simp only [Table.get_insertNew inserted] at present
      split at present
      · next same =>
          have opened := opens now isPrepare
          have bound := bounded.accept key pending other
          omega
      · exact disjoint key waiting pending present other
  | promised clock ack inst changed out _ _ _ =>
      intro key waiting pending present other
      obtain ⟨old, oldAt⟩ := Table.get_of_get_set present
      exact disjoint key old pending oldAt other
  | accepted inst valued values table out _ _ _ _ _ inserted =>
      intro key waiting pending present other
      simp only [Table.get_insertNew inserted] at other
      split at other
      · next same =>
          subst same
          rw [Table.get_erase_self] at present
          cases present
      · exact disjoint key waiting pending (Table.get_filter.mp present).1
          other
  | counted ack inst aid quorum _ _ _ _ _ _ =>
      intro key waiting pending present other
      obtain ⟨old, oldAt⟩ := Table.get_of_get_set other
      exact disjoint key waiting old present oldAt
  | closed ack inst freed aid quorum values _ _ _ _ _ _ _ =>
      intro key waiting pending present other
      exact disjoint key waiting pending present (Table.get_filter.mp other).1
  | preempted now ack inst table _ _ _ _ inserted =>
      intro key waiting pending present other
      simp only [Table.get_insertNew inserted] at present
      split at present
      · next same =>
          subst same
          rw [Table.get_erase_self] at other
          cases other
      · exact disjoint key waiting pending present
          (Table.get_filter.mp other).1
  | trimmed maxTrimIid iid _ _ =>
      intro key waiting pending present other
      exact disjoint key waiting pending (Table.get_filter.mp present).1
        (Table.get_filter.mp other).1
  | resentPrepare proposerTimeout iter inst _ _ =>
      intro key waiting pending present other
      obtain ⟨old, oldAt⟩ := Table.get_of_get_set present
      exact disjoint key old pending oldAt other
  | resentAccept proposerTimeout iter inst out _ _ _ =>
      intro key waiting pending present other
      obtain ⟨old, oldAt⟩ := Table.get_of_get_set other
      exact disjoint key waiting old present oldAt
  | rehashed prepareInstances acceptInstances _ permPrepare permAccept =>
      intro key waiting pending present other
      rw [Table.get_eq_some_iff, permPrepare.mem_iff,
        ← Table.get_eq_some_iff] at present
      rw [Table.get_eq_some_iff, permAccept.mem_iff,
        ← Table.get_eq_some_iff] at other
      exact disjoint key waiting pending present other
  | _ => exact disjoint

include outcome in
/-- What is known of the keys of the tables stays true if it is true of the
instance that a prepare opens. -/
theorem ProposerOutcome.keys
    {known : Nat → Prop}
    (holds : p.Instances (fun key _ => known key) (fun key _ => known key))
    (fresh : ∀ now, op = .prepare now → 0 < p.freshIid → known p.freshIid) :
    after.Instances (fun key _ => known key) (fun key _ => known key) := by
  refine outcome.instances holds ⟨fresh, ?_, ?_, ?_, ?_, ?_, ?_⟩
  · intro _ _ _ _ _ _ _ held _ _
    exact held
  · intro _ _ _ _ _ held _ _ _
    exact held
  · intro _ _ _ _ _ _ held _ _ _ _ _
    exact held
  · intro _ _ _ _ held _ _
    exact held
  · intro _ _ _ held
    exact held
  · intro _ _ _ held
    exact held

include outcome in
theorem ProposerOutcome.bounded
    (bounded : p.Instances (fun key _ => key ≤ p.nextPrepareIid)
      (fun key _ => key ≤ p.nextPrepareIid))
    (opens : p.Opens op) :
    after.Instances (fun key _ => key ≤ after.nextPrepareIid)
      (fun key _ => key ≤ after.nextPrepareIid) := by
  have grows := outcome.next_le opens
  apply outcome.keys
  · exact ⟨fun key inst present =>
        (bounded.prepare key inst present).trans grows,
      fun key inst present => (bounded.accept key inst present).trans grows⟩
  · intro now isPrepare _
    exact Nat.le_of_eq (outcome.next_eq_of_prepare ⟨now, isPrepare⟩).symm

/-- The tables as the assertions of the proposer need them. -/
structure Proposer.Tabled (p : Proposer) : Prop where
  disjoint : p.Disjoint
  positive : p.Instances (fun key _ => 0 < key) (fun key _ => 0 < key)
  bounded : p.Instances (fun key _ => key ≤ p.nextPrepareIid)
    (fun key _ => key ≤ p.nextPrepareIid)
  sized : p.Instances (fun _ inst => inst.quorum.acceptors = p.acceptors)
    (fun _ inst => inst.quorum.acceptors = p.acceptors)
  valued : p.Instances (fun _ _ => True)
    (fun _ inst => inst.promisedValue.or inst.value ≠ none)

include outcome in
/-- Every quorum counts the acceptors of the proposer. -/
theorem ProposerOutcome.sized
    (sized : p.Instances (fun _ inst => inst.quorum.acceptors = p.acceptors)
      (fun _ inst => inst.quorum.acceptors = p.acceptors)) :
    after.Instances (fun _ inst => inst.quorum.acceptors = after.acceptors)
      (fun _ inst => inst.quorum.acceptors = after.acceptors) := by
  rw [outcome.id_eq.2]
  refine outcome.instances sized ⟨?_, ?_, ?_, ?_, ?_, ?_, ?_⟩
  · intro _ _ _
    rfl
  · intro _ _ _ _ _ _ _ held _ entryOutcome
    exact entryOutcome.frame.2.2.trans held
  · intro _ _ _ _ _ held _ took _
    have sameQuorum := (takeValue_iid took).2.2.2
    simpa only [sameQuorum, Quorum.acceptors_quorumClear] using held
  · intro _ _ _ _ _ _ held _ _ _ added _
    exact (Quorum.quorumAdd_spec added).1.trans held
  · intro _ _ _ _ held _ _
    exact held
  · intro _ _ _ held
    exact held
  · intro _ _ _ held
    exact held

include outcome in
/-- Every instance that waits for acknowledgements has a value. -/
theorem ProposerOutcome.valued
    (valued : p.Instances (fun _ _ => True)
      (fun _ inst => inst.promisedValue.or inst.value ≠ none)) :
    after.Instances (fun _ _ => True)
      (fun _ inst => inst.promisedValue.or inst.value ≠ none) := by
  refine outcome.instances valued ⟨?_, ?_, ?_, ?_, ?_, ?_, ?_⟩
  · intro _ _ _
    trivial
  · intro _ _ _ _ _ _ _ _ _ _
    trivial
  · intro _ _ _ _ _ _ _ _ toAccept missing
    rw [(instanceToAccept_eq_some toAccept).2.2.2] at missing
    cases missing
  · intro _ _ _ _ _ _ held _ _ _ _ _
    exact held
  · intro _ _ _ _ _ _ _
    trivial
  · intro _ _ _ _
    trivial
  · intro _ _ _ held
    exact held

include outcome in
theorem ProposerOutcome.tabled
    (tabled : p.Tabled) (opens : p.Opens op) :
    after.Tabled where
  disjoint := outcome.disjoint tabled.disjoint tabled.bounded opens
  positive := outcome.keys tabled.positive fun _ _ positive => positive
  bounded := outcome.bounded tabled.bounded opens
  sized := outcome.sized tabled.sized
  valued := outcome.valued tabled.valued

end Step

/-- A promise with its announced entries, all from acceptors of the group. -/
structure PaxosPromise.WellFormed (acceptors : Nat) (ack : PaxosPromise) :
    Prop where
  aids : ack.aids.length = ack.nAids
  values : ack.values.length = ack.nAids
  ballots : ack.ballots.length = ack.nAids
  valueBallots : ack.valueBallots.length = ack.nAids
  known : ∀ aid ∈ ack.aids, aid < acceptors

/-- An accepted with its announced entries, all from acceptors of the group. -/
structure PaxosAccepted.WellFormed (acceptors : Nat) (ack : PaxosAccepted) :
    Prop extends ack.ArraysConsistent where
  known : ∀ aid ∈ ack.aids, aid < acceptors

/-- A call of the proposer on well-formed messages. -/
def ProposerOp.WellFormed (acceptors : Nat) : ProposerOp → Prop
  | .receivePromise _ ack => ack.WellFormed acceptors
  | .receiveAccepted ack => ack.WellFormed acceptors
  | .rehash _ _ => False
  | _ => True

theorem promiseEntry_progress
    {acceptors : Nat} {ack : PaxosPromise} (ok : ack.WellFormed acceptors)
    (id : Nat) (clock : Nat → Int) {ii : Nat} (bound : ii < ack.nAids)
    {inst : ProposerInstance} (sized : inst.quorum.acceptors = acceptors) :
    ∃ result sent, promiseEntry id clock ack ii inst = some (result, sent) := by
  have ballotAt := List.getElem?_eq_getElem (ok.ballots ▸ bound)
  have aidAt := List.getElem?_eq_getElem (ok.aids ▸ bound)
  have valueAt := List.getElem?_eq_getElem (ok.values ▸ bound)
  have valueBallotAt := List.getElem?_eq_getElem (ok.valueBallots ▸ bound)
  have known := ok.known _ (List.mem_of_getElem? aidAt)
  obtain ⟨fresh, quorum, added⟩ :=
    Quorum.exists_quorumAdd (known.trans_eq sized.symm)
  unfold promiseEntry
  simp only [ballotAt, aidAt, valueAt, added, valueBallotAt]
  split
  · exact ⟨_, _, rfl⟩
  · split
    · exact ⟨_, _, rfl⟩
    · split
      · split <;> exact ⟨_, _, rfl⟩
      · exact ⟨_, _, rfl⟩

theorem promiseLoop_progress
    {acceptors : Nat} {ack : PaxosPromise} (ok : ack.WellFormed acceptors)
    (id : Nat) (clock : Nat → Int) (entries : List Nat)
    (bound : ∀ ii ∈ entries, ii < ack.nAids) :
    ∀ {inst : ProposerInstance} (out : Option PaxosPrepare),
      inst.quorum.acceptors = acceptors →
      ∃ result, promiseLoop id clock ack entries inst out = some result := by
  induction entries with
  | nil =>
      intro inst out _
      exact ⟨_, rfl⟩
  | cons ii rest inductionHypothesis =>
      intro inst out sized
      obtain ⟨changed, sent, ran⟩ := promiseEntry_progress ok id clock
        (bound ii (List.mem_cons_self ..)) sized
      simp only [promiseLoop, ran]
      apply inductionHypothesis
      · intro later member
        exact bound later (List.mem_cons_of_mem _ member)
      · exact (promiseEntry_outcome ran).frame.2.2.trans sized

/-- The assertions of `proposer_move_instance` hold when the instance is in one
table and not in the other. -/
theorem proposerMoveInstance_progress
    {f t : Table Nat ProposerInstance} {inst old : ProposerInstance}
    (present : f.get inst.iid = some old) (absent : t.get inst.iid = none) :
    ∃ result, proposerMoveInstance f t inst = some result := by
  obtain ⟨table, inserted⟩ := Table.exists_insertNew absent
    { inst with quorum := quorumClear inst.quorum }
  unfold proposerMoveInstance
  rw [present]
  simp only [inserted]
  exact ⟨_, rfl⟩

theorem instanceToAccept_progress
    (id : Nat) {inst : ProposerInstance}
    (valued : inst.promisedValue.or inst.value ≠ none) :
    ∃ out, instanceToAccept id inst = some out := by
  obtain ⟨value, chosen⟩ := Option.ne_none_iff_exists'.mp valued
  exact ⟨_, congrArg (Option.map _) chosen⟩

section Progress

variable {p : Proposer} (keyed : p.Keyed) (tabled : p.Tabled)

include tabled in
theorem proposerPrepare_progress
    (room : p.nextPrepareIid < 2 ^ 32 - 1) (now : Int) :
    ∃ result, proposerPrepare now p = some result := by
  have opened : word32 (p.nextPrepareIid + 1) = p.nextPrepareIid + 1 :=
    word32_of_lt (by omega)
  have absent : p.prepareInstances.get (p.nextPrepareIid + 1) = none := by
    by_contra present
    obtain ⟨inst, found⟩ := Option.ne_none_iff_exists'.mp present
    have bound := tabled.bounded.prepare _ _ found
    omega
  unfold proposerPrepare
  simp only [opened, instanceNew, if_pos (Nat.succ_pos p.nextPrepareIid)]
  obtain ⟨table, inserted⟩ := Table.exists_insertNew absent
    (⟨p.nextPrepareIid + 1, proposerNextBallot p.id 0, none, none, 0,
      quorumInit p.acceptors, now⟩ : ProposerInstance)
  simp only [inserted]
  exact ⟨_, rfl⟩

include tabled in
theorem proposerReceivePromise_progress
    {ack : PaxosPromise} (ok : ack.WellFormed p.acceptors)
    (clock : Nat → Int) :
    ∃ result, proposerReceivePromise clock p ack = some result := by
  unfold proposerReceivePromise
  cases present : p.prepareInstances.get ack.iid with
  | none => exact ⟨_, rfl⟩
  | some inst =>
      have sized := tabled.sized.prepare _ _ present
      obtain ⟨result, looped⟩ := promiseLoop_progress ok p.id clock
        (List.range ack.nAids) (fun ii member => List.mem_range.mp member)
        none sized
      simp only [looped]
      exact ⟨_, rfl⟩

theorem Proposer.Disjoint.accept_none
    (disjoint : p.Disjoint) {key : Nat} {inst : ProposerInstance}
    (present : p.prepareInstances.get key = some inst) :
    p.acceptInstances.get key = none := by
  by_contra other
  obtain ⟨pending, found⟩ := Option.ne_none_iff_exists'.mp other
  exact disjoint key inst pending present found

theorem Proposer.Disjoint.prepare_none
    (disjoint : p.Disjoint) {key : Nat} {inst : ProposerInstance}
    (present : p.acceptInstances.get key = some inst) :
    p.prepareInstances.get key = none := by
  by_contra other
  obtain ⟨waiting, found⟩ := Option.ne_none_iff_exists'.mp other
  exact disjoint key waiting inst found present

include keyed tabled in
theorem proposerAccept_progress :
    ∃ result, proposerAccept p = some result := by
  unfold proposerAccept
  cases smallest : smallestInstance p.prepareInstances with
  | none => exact ⟨_, rfl⟩
  | some inst =>
      simp only
      split
      · exact ⟨_, rfl⟩
      · obtain ⟨key, member⟩ := smallestInstance_mem smallest
        have present := keyed.prepare_mem member
        have absent := tabled.disjoint.accept_none present
        cases took : takeValue p.values inst with
        | mk values valued =>
            have sameIid := (takeValue_iid took).1
            simp only
            split
            · exact ⟨_, rfl⟩
            · next chosen =>
                have stored : (p.prepareInstances.set valued.iid valued).get
                    valued.iid = some valued := by
                  rw [sameIid]
                  exact Table.get_set_self valued present
                rw [← sameIid] at absent
                obtain ⟨⟨prepares, accepts⟩, moved⟩ :=
                  proposerMoveInstance_progress stored absent
                have hasValue : valued.promisedValue.or valued.value ≠ none := by
                  intro missing
                  rw [Option.or_eq_none_iff] at missing
                  exact chosen ⟨missing.2, missing.1⟩
                obtain ⟨out, toAccept⟩ :=
                  instanceToAccept_progress p.id hasValue
                simp only [moved, toAccept]
                exact ⟨_, rfl⟩

include tabled in
/-- Reading an accepted needs its first entry. -/
theorem proposerReceiveAccepted_progress
    {ack : PaxosAccepted} (ok : ack.WellFormed p.acceptors)
    (positive : 0 < ack.nAids) :
    ∃ result, proposerReceiveAccepted p ack = some result := by
  unfold proposerReceiveAccepted
  cases present : p.acceptInstances.get ack.iid with
  | none => exact ⟨_, rfl⟩
  | some inst =>
      have ballotAt := List.getElem?_eq_getElem (ok.ballots ▸ positive)
      have aidAt := List.getElem?_eq_getElem (ok.aids ▸ positive)
      have known := ok.known _ (List.mem_of_getElem? aidAt)
      have sized := tabled.sized.accept _ _ present
      obtain ⟨fresh, quorum, added⟩ :=
        Quorum.exists_quorumAdd (known.trans_eq sized.symm)
      simp only [ballotAt, aidAt]
      split
      · simp only [added]
        cases fresh with
        | false => exact ⟨_, rfl⟩
        | true =>
            simp only
            split <;> exact ⟨_, rfl⟩
      · exact ⟨_, rfl⟩

include keyed tabled in
theorem proposerReceivePreempted_progress
    (now : Int) (ack : PaxosPreempted) :
    ∃ result, proposerReceivePreempted now p ack = some result := by
  unfold proposerReceivePreempted
  cases present : p.acceptInstances.get ack.iid with
  | none => exact ⟨_, rfl⟩
  | some inst =>
      simp only
      split
      · have sameIid : inst.iid = ack.iid := keyed.accept _ _ present
        rw [← sameIid] at present
        obtain ⟨⟨accepts, prepares⟩, moved⟩ := proposerMoveInstance_progress
          present (tabled.disjoint.prepare_none present)
        simp only [moved]
        exact ⟨_, rfl⟩
      · exact ⟨_, rfl⟩

include keyed tabled in
theorem timeoutIteratorAccept_progress
    (proposerTimeout : Int) (iter : TimeoutIterator) :
    ∃ result, timeoutIteratorAccept proposerTimeout iter p = some result := by
  unfold timeoutIteratorAccept
  cases next : nextTimedout proposerTimeout iter.timeout
      (p.acceptInstances.entries.drop iter.ai) iter.ai with
  | mk k found =>
      cases found with
      | none => exact ⟨_, rfl⟩
      | some inst =>
          obtain ⟨key, member⟩ := nextTimedout_mem _ next
          have present := keyed.accept_mem (List.mem_of_mem_drop member)
          obtain ⟨out, toAccept⟩ := instanceToAccept_progress p.id
            (tabled.valued.accept _ _ present)
          simp only [toAccept]
          exact ⟨_, rfl⟩

include keyed tabled in
/-- A call on well-formed messages fails only by reading an accepted that has
no entry. -/
theorem proposerStep_progress
    (room : p.nextPrepareIid < 2 ^ 32 - 1)
    {op : ProposerOp} (ok : op.WellFormed p.acceptors)
    (stopped : proposerStep p op = none) :
    ∃ ack, op = .receiveAccepted ack ∧ ack.nAids = 0 := by
  have mapped : ∀ {α β : Type} {run : Option α} {pack : α → β},
      (∃ result, run = some result) → run.map pack ≠ none := by
    rintro α β run pack ⟨result, ran⟩ missing
    rw [ran] at missing
    cases missing
  cases op with
  | propose value => cases stopped
  | prepare now =>
      exact False.elim
        (mapped (proposerPrepare_progress tabled room now) stopped)
  | receivePromise clock ack =>
      exact False.elim
        (mapped (proposerReceivePromise_progress tabled ok clock) stopped)
  | accept =>
      exact False.elim
        (mapped (proposerAccept_progress keyed tabled) stopped)
  | receiveAccepted ack =>
      by_cases positive : 0 < ack.nAids
      · exact False.elim
          (mapped (proposerReceiveAccepted_progress tabled ok positive)
            stopped)
      · exact ⟨ack, rfl, by omega⟩
  | receivePreempted now ack =>
      exact False.elim
        (mapped (proposerReceivePreempted_progress keyed tabled now ack)
          stopped)
  | receiveAcceptorState state => cases stopped
  | setInstanceId iid => cases stopped
  | timeoutPrepare proposerTimeout iter => cases stopped
  | timeoutAccept proposerTimeout iter =>
      exact False.elim
        (mapped (timeoutIteratorAccept_progress keyed tabled proposerTimeout
          iter) stopped)
  | rehash prepareInstances acceptInstances => cases ok

end Progress

section Run

variable {id acceptors : Nat} {past : List ProposerTransition}
variable {final : Proposer}

theorem proposerNew_tabled (id acceptors : Nat) :
    (proposerNew id acceptors).Tabled where
  disjoint := by
    intro key waiting pending present
    cases present
  positive := proposerNew_instances id acceptors _ _
  bounded := proposerNew_instances id acceptors _ _
  sized := proposerNew_instances id acceptors _ _
  valued := proposerNew_instances id acceptors _ _

/-- The next instance id has not reached the top of its type. -/
def Proposer.Roomy (p : Proposer) : Prop :=
  p.nextPrepareIid < 2 ^ 32 - 1

theorem Proposer.Roomy.opens
    {p : Proposer} (room : p.Roomy) (op : ProposerOp) : p.Opens op := by
  intro now _
  apply word32_of_lt
  unfold Proposer.Roomy at room
  omega

theorem proposer_trace_tabled
    (trace : Trace proposerStep (proposerNew id acceptors) past final)
    (room : ∀ current ∈ past, current.target.Roomy) :
    final.Tabled ∧ final.Roomy := by
  induction trace with
  | nil => exact ⟨proposerNew_tabled id acceptors, Nat.zero_lt_succ _⟩
  | snoc reached stepEq inductionHypothesis =>
      obtain ⟨tabled, roomy⟩ := inductionHypothesis fun current member =>
        room current (List.mem_append_left _ member)
      have keyed := (proposer_trace_keyed reached).1
      refine ⟨(proposerStep_outcome keyed stepEq).tabled tabled
        (roomy.opens _), ?_⟩
      exact room _ (List.mem_append_right _ (List.mem_singleton_self _))

/-- In every run of a proposer whose next instance id stays below the top of
its type, no instance is in both tables, every key is that of its instance and
has been opened, every quorum counts the marked acceptors, and every instance
that waits for acknowledgements has a value.  A call on well-formed messages
then fails no assertion and follows no null pointer: it can only fail to read
the first entry of an accepted that has none. -/
theorem proposer_tables_consistent
    (trace : Trace proposerStep (proposerNew id acceptors) past final)
    (room : ∀ current ∈ past, current.target.nextPrepareIid < 2 ^ 32 - 1) :
    (∀ key waiting pending, final.prepareInstances.get key = some waiting →
      final.acceptInstances.get key ≠ some pending) ∧
    (∀ key inst, final.prepareInstances.get key = some inst ∨
        final.acceptInstances.get key = some inst →
      inst.iid = key ∧ 1 ≤ key ∧ key ≤ final.nextPrepareIid ∧
        inst.quorum.count = inst.quorum.marked.card) ∧
    (∀ key inst, final.acceptInstances.get key = some inst →
      (inst.value ≠ none ∨ inst.promisedValue ≠ none) ∧
        instanceToAccept final.id inst ≠ none) ∧
    (∀ op : ProposerOp, op.WellFormed acceptors →
      proposerStep final op = none →
      ∃ ack, op = .receiveAccepted ack ∧ ack.nAids = 0) := by
  obtain ⟨tabled, roomy⟩ := proposer_trace_tabled trace room
  obtain ⟨keyed, _, sameAcceptors⟩ := proposer_trace_keyed trace
  refine ⟨tabled.disjoint, ?_, ?_, ?_⟩
  · rintro key inst (present | present)
    · exact ⟨keyed.prepare key inst present,
        tabled.positive.prepare key inst present,
        tabled.bounded.prepare key inst present,
        inst.quorum.count_eq_card_marked⟩
    · exact ⟨keyed.accept key inst present,
        tabled.positive.accept key inst present,
        tabled.bounded.accept key inst present,
        inst.quorum.count_eq_card_marked⟩
  · intro key inst present
    have valued := tabled.valued.accept key inst present
    obtain ⟨out, toAccept⟩ := instanceToAccept_progress final.id valued
    refine ⟨?_, ?_⟩
    · by_contra missing
      rw [not_or, not_not, not_not] at missing
      exact valued (by rw [missing.1, missing.2]; rfl)
    · rw [toAccept]
      exact nofun
  · intro op ok stopped
    rw [← sameAcceptors] at ok
    exact proposerStep_progress keyed tabled roomy ok stopped

/-- A value is proposed and an instance prepared, promised and accepted; the
next call cannot fail. -/
theorem proposer_tables_consistent_pending :
    ∃ past final,
      Trace proposerStep (proposerNew 3 1) past final ∧
      (final.acceptInstances.get 1).isSome = true ∧
      proposerStep final .accept ≠ none ∧
      ∀ op : ProposerOp, op.WellFormed 1 → proposerStep final op = none →
        ∃ ack, op = .receiveAccepted ack ∧ ack.nAids = 0 := by
  have ran :=
    trace_of_runFrom proposerStep (proposerNew 3 1)
      [.propose ⟨[7]⟩, .prepare 0,
        .receivePromise (fun _ => 0)
          ⟨3, 1, 1003, 0, 1, [0], PaxosValue.empty, [PaxosValue.empty],
            [1003], [0]⟩,
        .accept] rfl
  refine ⟨_, _, ran, rfl, by decide, ?_⟩
  apply (proposer_tables_consistent ran ?_).2.2.2
  decide

end Run

end LibPaxos
