import LibPaxos.Proposer.Values

/-!
# The value rule of the second phase

A run of a proposer determines the events that matter for a prepared instance:
it took a ballot, or processed an entry of a promise for its ballot.  A
preemption in the middle of an aggregated promise is such an event too, so the
events of one call follow the loop over its entries.  The state of an instance
is a function of the entries processed since it last took a ballot, and this
gives the rule for the value of an accept.
-/

namespace LibPaxos

open LibPaxos.Library

structure PromiseItem where
  aid : Nat
  ballot : Nat
  valueBallot : Nat
  value : PaxosValue

/-- What happens to an instance that waits for promises. -/
inductive PhaseEvent where
  | took (iid ballot : Nat)
  | processed (iid : Nat) (item : PromiseItem)

def promiseItem (ack : PaxosPromise) (ii ballot : Nat) : PromiseItem where
  aid := ack.aids.getD ii 0
  ballot := ballot
  valueBallot := ack.valueBallots.getD ii 0
  value := ack.values.getD ii PaxosValue.empty

/-- The event of one entry of a promise: it is dropped as too old, or the
instance takes the next ballot, or the entry is processed. -/
def entryEvents (id : Nat) (ack : PaxosPromise) (ii : Nat)
    (inst : ProposerInstance) : List PhaseEvent :=
  match ack.ballots[ii]? with
  | none => []
  | some ballot =>
      if ballot < inst.ballot then
        []
      else if inst.ballot < ballot then
        [.took inst.iid (proposerNextBallot id inst.ballot)]
      else
        [.processed inst.iid (promiseItem ack ii ballot)]

def loopEvents (id : Nat) (clock : Nat → Int) (ack : PaxosPromise) :
    List Nat → ProposerInstance → List PhaseEvent
  | [], _ => []
  | ii :: rest, inst =>
      entryEvents id ack ii inst ++
        match promiseEntry id clock ack ii inst with
        | none => []
        | some (inst, _) => loopEvents id clock ack rest inst

/-- The event of a call that sends a prepare with a new ballot. -/
def tookBallot : Option PaxosMessage → List PhaseEvent
  | some (.prepare out) => [.took out.iid out.ballot]
  | _ => []

def phaseEvents (current : ProposerTransition) : List PhaseEvent :=
  match current.input with
  | .prepare _ => tookBallot current.output.sent
  | .receivePreempted _ _ => tookBallot current.output.sent
  | .receivePromise clock ack =>
      match current.source.prepareInstances.get ack.iid with
      | none => []
      | some inst =>
          loopEvents current.source.id clock ack (List.range ack.nAids) inst
  | _ => []

/-- The ballot that an instance took last and the entries processed since. -/
structure Tenure where
  ballot : Nat
  items : List PromiseItem

/-- The effect of one event on the tenure of an instance. -/
def Tenure.next (iid : Nat) (tenure : Tenure) : PhaseEvent → Tenure
  | .took other ballot => if other = iid then ⟨ballot, []⟩ else tenure
  | .processed other item =>
      if other = iid then ⟨tenure.ballot, tenure.items ++ [item]⟩ else tenure

/-- The tenure of an instance after some events. -/
def Tenure.after (iid : Nat) (tenure : Tenure) (events : List PhaseEvent) :
    Tenure :=
  events.foldl (Tenure.next iid) tenure

/-- The tenure of an instance at the end of a run. -/
def tenureOf (iid : Nat) (past : List ProposerTransition) : Tenure :=
  Tenure.after iid ⟨0, []⟩ (past.flatMap phaseEvents)

/-- The entries that carry a value with a value ballot. -/
def valuedItems (items : List PromiseItem) : List PromiseItem :=
  items.filter fun item =>
    decide (0 < item.value.len) && decide (0 < item.valueBallot)

/-- The first entry with the greatest value ballot. -/
def FirstGreatest (items : List PromiseItem) (best : PromiseItem) : Prop :=
  ∃ earlier later, items = earlier ++ best :: later ∧
    (∀ item ∈ earlier, item.valueBallot < best.valueBallot) ∧
    ∀ item ∈ later, item.valueBallot ≤ best.valueBallot

/-- The value ballot and the promised value of an instance are those of the
first entry with the greatest value ballot. -/
def KeepsBest (items : List PromiseItem) (inst : ProposerInstance) : Prop :=
  (valuedItems items = [] ∧ inst.valueBallot = 0 ∧
    inst.promisedValue = none) ∨
  ∃ best, FirstGreatest (valuedItems items) best ∧
    inst.valueBallot = best.valueBallot ∧
    inst.promisedValue = some best.value

/-- The state of an instance follows from its tenure. -/
structure Follows (tenure : Tenure) (inst : ProposerInstance) : Prop where
  ballot_eq : tenure.ballot = inst.ballot
  items_ballot : ∀ item ∈ tenure.items, item.ballot = inst.ballot
  marks : ∀ aid ∈ inst.quorum.marked, ∃ item ∈ tenure.items, item.aid = aid
  best : KeepsBest tenure.items inst

theorem FirstGreatest.le
    {items : List PromiseItem} {best : PromiseItem}
    (greatest : FirstGreatest items best) :
    ∀ item ∈ items, item.valueBallot ≤ best.valueBallot := by
  obtain ⟨earlier, later, rfl, smaller, bounded⟩ := greatest
  intro item member
  rw [List.mem_append, List.mem_cons] at member
  rcases member with early | rfl | late
  · exact Nat.le_of_lt (smaller item early)
  · exact Nat.le_refl _
  · exact bounded item late

/-- An entry without a value, or with a smaller value ballot, changes
nothing. -/
theorem KeepsBest.ignore
    {items : List PromiseItem} {inst : ProposerInstance}
    (best : KeepsBest items inst) {item : PromiseItem}
    (ignored : 0 < item.value.len → item.valueBallot ≤ inst.valueBallot)
    {changed : ProposerInstance}
    (sameBallot : changed.valueBallot = inst.valueBallot)
    (sameValue : changed.promisedValue = inst.promisedValue) :
    KeepsBest (items ++ [item]) changed := by
  unfold KeepsBest
  rw [sameBallot, sameValue]
  by_cases valued : 0 < item.value.len ∧ 0 < item.valueBallot
  · have appended : valuedItems (items ++ [item]) =
        valuedItems items ++ [item] := by
      simp [valuedItems, valued.1, valued.2]
    have smaller := ignored valued.1
    rw [appended]
    rcases best with ⟨_, zero, _⟩ | ⟨first, greatest, ballotEq, valueEq⟩
    · omega
    · refine Or.inr ⟨first, ?_, ballotEq, valueEq⟩
      obtain ⟨earlier, later, shape, lower, bounded⟩ := greatest
      refine ⟨earlier, later ++ [item], by simp [shape], lower, ?_⟩
      intro other member
      rw [List.mem_append, List.mem_singleton] at member
      rcases member with old | rfl
      · exact bounded other old
      · omega
  · have unchanged : valuedItems (items ++ [item]) = valuedItems items := by
      simpa [valuedItems] using valued
    rw [unchanged]
    exact best

/-- An entry with a value and a greater value ballot becomes the best. -/
theorem KeepsBest.replace
    {items : List PromiseItem} {inst : ProposerInstance}
    (best : KeepsBest items inst) {item : PromiseItem}
    (nonempty : 0 < item.value.len)
    (greater : inst.valueBallot < item.valueBallot)
    {changed : ProposerInstance}
    (ballotEq : changed.valueBallot = item.valueBallot)
    (valueEq : changed.promisedValue = some item.value) :
    KeepsBest (items ++ [item]) changed := by
  have positive : 0 < item.valueBallot := by omega
  have appended : valuedItems (items ++ [item]) =
      valuedItems items ++ [item] := by
    simp [valuedItems, nonempty, positive]
  refine Or.inr ⟨item, ⟨valuedItems items, [], appended, ?_, by simp⟩,
    ballotEq, valueEq⟩
  intro other member
  rcases best with ⟨none, _, _⟩ | ⟨first, greatest, firstBallot, _⟩
  · rw [none] at member
    cases member
  · have bounded := greatest.le other member
    omega

/-- An instance that has just taken a ballot follows its empty tenure. -/
theorem Follows.ofTaken
    {inst : ProposerInstance} (unmarked : inst.quorum.marked = ∅)
    (noBallot : inst.valueBallot = 0) (noValue : inst.promisedValue = none) :
    Follows ⟨inst.ballot, []⟩ inst where
  ballot_eq := rfl
  items_ballot := by simp
  marks := by simp [unmarked]
  best := Or.inl ⟨rfl, noBallot, noValue⟩

section Loop

variable {id : Nat} {clock : Nat → Int} {ack : PaxosPromise}
variable {inst result : ProposerInstance}

/-- Processing an entry for the ballot of the instance marks its acceptor. -/
theorem Follows.process
    {tenure : Tenure} (follows : Follows tenure inst)
    {item : PromiseItem} (ballotEq : item.ballot = inst.ballot)
    {fresh : Bool} {quorum : Quorum}
    (added : quorumAdd inst.quorum item.aid = some (fresh, quorum))
    {changed : ProposerInstance} (sameBallot : changed.ballot = inst.ballot)
    (quorumEq : changed.quorum = quorum)
    (best : KeepsBest (tenure.items ++ [item]) changed) :
    Follows ⟨tenure.ballot, tenure.items ++ [item]⟩ changed where
  ballot_eq := by
    rw [sameBallot]
    exact follows.ballot_eq
  items_ballot := by
    intro other member
    rw [sameBallot]
    rw [List.mem_append, List.mem_singleton] at member
    rcases member with old | rfl
    · exact follows.items_ballot other old
    · exact ballotEq
  marks := by
    intro aid marked
    rw [quorumEq, (Quorum.quorumAdd_spec added).2.1, Finset.mem_insert]
      at marked
    rcases marked with rfl | old
    · exact ⟨item, by simp, rfl⟩
    · obtain ⟨other, member, same⟩ := follows.marks aid old
      exact ⟨other, List.mem_append_left _ member, same⟩
  best := best

theorem getD_of_getElem? {α : Type} {entries : List α} {ii : Nat} {entry : α}
    (present : entries[ii]? = some entry) (fallback : α) :
    entries.getD ii fallback = entry := by
  rw [List.getD_eq_getElem?_getD, present]
  rfl

/-- One entry of a promise keeps an instance in step with its tenure. -/
theorem Follows.entry
    {tenure : Tenure} (follows : Follows tenure inst) {ii : Nat}
    {sent : Option PaxosPrepare}
    (outcome : EntryOutcome id clock ack ii inst result sent) :
    Follows (tenure.after inst.iid (entryEvents id ack ii inst)) result := by
  cases outcome with
  | stale ballot ballotAt smaller =>
      simpa [entryEvents, ballotAt, smaller, Tenure.after] using follows
  | preempted ballot ballotAt higher =>
      have taken : Tenure.after inst.iid tenure
          (entryEvents id ack ii inst) =
            ⟨(proposerPreempt id (clock ii) inst).1.ballot, []⟩ := by
        simp [entryEvents, ballotAt, higher, Nat.lt_asymm higher,
          Tenure.after, Tenure.next, proposerPreempt]
      rw [taken]
      exact Follows.ofTaken (Quorum.marked_quorumClear _) rfl rfl
  | counted aid value fresh quorum ballotAt aidAt valueAt added ignored =>
      have processed : Tenure.after inst.iid tenure
          (entryEvents id ack ii inst) =
            ⟨tenure.ballot,
              tenure.items ++ [promiseItem ack ii inst.ballot]⟩ := by
        simp [entryEvents, ballotAt, Tenure.after, Tenure.next]
      have sameAid : (promiseItem ack ii inst.ballot).aid = aid :=
        getD_of_getElem? aidAt _
      rw [← sameAid] at added
      rw [processed]
      refine follows.process rfl added rfl rfl
        (follows.best.ignore ?_ rfl rfl)
      intro nonempty
      change 0 < (ack.values.getD ii PaxosValue.empty).len at nonempty
      rw [getD_of_getElem? valueAt] at nonempty
      obtain ⟨valueBallot, valueBallotAt, smaller⟩ := ignored nonempty
      change ack.valueBallots.getD ii 0 ≤ _
      rw [getD_of_getElem? valueBallotAt]
      exact smaller
  | recorded aid value fresh quorum valueBallot ballotAt aidAt valueAt added
      nonempty valueBallotAt greater =>
      have processed : Tenure.after inst.iid tenure
          (entryEvents id ack ii inst) =
            ⟨tenure.ballot,
              tenure.items ++ [promiseItem ack ii inst.ballot]⟩ := by
        simp [entryEvents, ballotAt, Tenure.after, Tenure.next]
      have sameValue : (promiseItem ack ii inst.ballot).value = value :=
        getD_of_getElem? valueAt _
      have sameBallot :
          (promiseItem ack ii inst.ballot).valueBallot = valueBallot :=
        getD_of_getElem? valueBallotAt _
      have sameAid : (promiseItem ack ii inst.ballot).aid = aid :=
        getD_of_getElem? aidAt _
      rw [← sameAid] at added
      rw [processed]
      refine follows.process rfl added rfl rfl
        (follows.best.replace ?_ ?_ ?_ ?_)
      · rw [sameValue]
        exact nonempty
      · rw [sameBallot]
        exact greater
      · exact sameBallot.symm
      · rw [sameValue]

theorem Tenure.after_append (iid : Nat) (tenure : Tenure)
    (first second : List PhaseEvent) :
    tenure.after iid (first ++ second) =
      (tenure.after iid first).after iid second :=
  List.foldl_append

/-- The loop over a promise keeps an instance in step with its tenure. -/
theorem Follows.loop (entries : List Nat) :
    ∀ {tenure : Tenure} {inst result : ProposerInstance}
      {out sent : Option PaxosPrepare},
      Follows tenure inst →
      promiseLoop id clock ack entries inst out = some (result, sent) →
      Follows (tenure.after inst.iid (loopEvents id clock ack entries inst))
        result := by
  induction entries with
  | nil =>
      intro tenure inst result out sent follows ran
      cases ran
      exact follows
  | cons ii rest inductionHypothesis =>
      intro tenure inst result out sent follows ran
      rw [promiseLoop] at ran
      split at ran
      · cases ran
      · next next prepare entryRan =>
          have outcome := promiseEntry_outcome entryRan
          have remaining := inductionHypothesis (follows.entry outcome) ran
          rw [outcome.frame.1] at remaining
          rw [loopEvents, entryRan, Tenure.after_append]
          exact remaining

def PhaseEvent.iid : PhaseEvent → Nat
  | .took iid _ => iid
  | .processed iid _ => iid

/-- Events of other instances leave a tenure alone. -/
theorem Tenure.after_of_ne
    {iid : Nat} (tenure : Tenure) {events : List PhaseEvent}
    (others : ∀ event ∈ events, event.iid ≠ iid) :
    tenure.after iid events = tenure := by
  induction events with
  | nil => rfl
  | cons event rest inductionHypothesis =>
      have unchanged : tenure.next iid event = tenure := by
        have different := others event (List.mem_cons_self ..)
        cases event with
        | took other ballot => exact if_neg different
        | processed other item => exact if_neg different
      change Tenure.after iid (tenure.next iid event) rest = tenure
      rw [unchanged]
      exact inductionHypothesis fun other member =>
        others other (List.mem_cons_of_mem _ member)

theorem entryEvents_iid
    {ii : Nat} {event : PhaseEvent}
    (member : event ∈ entryEvents id ack ii inst) :
    event.iid = inst.iid := by
  unfold entryEvents at member
  split at member
  · cases member
  · split at member
    · cases member
    · split at member
      · rw [List.mem_singleton] at member
        rw [member]
        rfl
      · rw [List.mem_singleton] at member
        rw [member]
        rfl

theorem loopEvents_iid (entries : List Nat) :
    ∀ {inst : ProposerInstance} {event : PhaseEvent},
      event ∈ loopEvents id clock ack entries inst →
      event.iid = inst.iid := by
  induction entries with
  | nil =>
      intro inst event member
      cases member
  | cons ii rest inductionHypothesis =>
      intro inst event member
      rw [loopEvents, List.mem_append] at member
      rcases member with here | later
      · exact entryEvents_iid here
      · split at later
        · cases later
        · next next prepare entryRan =>
            exact (inductionHypothesis later).trans
              (promiseEntry_outcome entryRan).frame.1

end Loop

section Run

variable {id acceptors : Nat} {past : List ProposerTransition}
variable {final : Proposer}

theorem tenureOf_snoc (iid : Nat) (past : List ProposerTransition)
    (current : ProposerTransition) :
    tenureOf iid (past ++ [current]) =
      (tenureOf iid past).after iid (phaseEvents current) := by
  unfold tenureOf
  rw [List.flatMap_append, Tenure.after_append]
  simp

theorem Proposer.Passive.phaseEvents_eq
    {p after : Proposer} {op : ProposerOp} (passive : p.Passive op) :
    phaseEvents ⟨p, op, ⟨none, []⟩, after⟩ = [] := by
  cases op with
  | prepare now => exact False.elim (passive.notPrepare now rfl)
  | receivePromise clock ack =>
      simp [phaseEvents, passive.notPending clock ack rfl]
  | _ => rfl

/-- Filing an instance that takes a ballot starts a new tenure for it. -/
theorem follows_insertNew
    {table result : Table Nat ProposerInstance}
    (all : table.All fun key inst => Follows (tenureOf key past) inst)
    (inst : ProposerInstance)
    (inserted : table.insertNew inst.iid inst = some result)
    {current : ProposerTransition}
    (took : phaseEvents current = [.took inst.iid inst.ballot])
    (unmarked : inst.quorum.marked = ∅) (noBallot : inst.valueBallot = 0)
    (noValue : inst.promisedValue = none) :
    result.All fun key inst =>
      Follows (tenureOf key (past ++ [current])) inst := by
  intro key found present
  rw [tenureOf_snoc, took]
  rw [Table.get_insertNew inserted] at present
  split at present
  · next same =>
      cases present
      have started : (tenureOf key past).after key
          [.took inst.iid inst.ballot] = ⟨inst.ballot, []⟩ := by
        simp [Tenure.after, Tenure.next, same]
      rw [started]
      exact Follows.ofTaken unmarked noBallot noValue
  · next different =>
      have others : ∀ event ∈ [PhaseEvent.took inst.iid inst.ballot],
          event.iid ≠ key := by
        intro event member
        rw [List.mem_singleton] at member
        rw [member]
        exact fun equal => different equal.symm
      rw [Tenure.after_of_ne _ others]
      exact all key found present

/-- Every instance that waits for promises follows its tenure. -/
theorem proposer_follows
    (trace : Trace proposerStep (proposerNew id acceptors) past final) :
    final.prepareInstances.All fun key inst =>
      Follows (tenureOf key past) inst := by
  induction trace with
  | nil => exact Table.All.empty
  | @snoc past source target op result trace stepEq inductionHypothesis =>
      have keyed := (proposer_trace_keyed trace).1
      have outcome := proposerStep_outcome keyed stepEq
      have quiet : ∀ table : Table Nat ProposerInstance,
          phaseEvents ⟨source, op, result, target⟩ = [] →
          (table.All fun key inst => Follows (tenureOf key past) inst) →
          table.All fun key inst =>
            Follows (tenureOf key
              (past ++ [⟨source, op, result, target⟩])) inst := by
        intro table silent all key inst present
        rw [tenureOf_snoc, silent]
        exact all key inst present
      cases outcome with
      | idle passive =>
          exact quiet _ passive.phaseEvents_eq inductionHypothesis
      | noted _ passive =>
          exact quiet _ passive.phaseEvents_eq inductionHypothesis
      | trimmed _ iid passive _ =>
          exact quiet _ passive.phaseEvents_eq (inductionHypothesis.filter _)
      | proposed value same =>
          subst same
          exact quiet _ rfl inductionHypothesis
      | prepared now table isPrepare _ inserted =>
          subst isPrepare
          exact follows_insertNew inductionHypothesis
            (source.freshInstance now) inserted rfl
            (Quorum.marked_quorumInit _) rfl
            rfl
      | promised clock ack inst changed out isPromise present looped =>
          subst isPromise
          have sameIid := keyed.prepare _ _ present
          intro key found foundAt
          rw [tenureOf_snoc]
          simp only [phaseEvents, present]
          by_cases same : key = ack.iid
          · subst same
            simp only [Table.get_set_self changed present,
              Option.some.injEq] at foundAt
            subst foundAt
            have follows :=
              (inductionHypothesis _ _ present).loop _ looped
            rwa [sameIid] at follows
          · rw [Tenure.after_of_ne]
            · simp only [Table.get_set_of_ne _ changed same] at foundAt
              exact inductionHypothesis key found foundAt
            · intro event member
              rw [loopEvents_iid _ member, sameIid]
              exact fun equal => same equal.symm
      | accepted inst valued values table out isAccept _ _ _ _ _ =>
          subst isAccept
          exact quiet _ rfl (inductionHypothesis.erase _)
      | counted ack inst aid quorum isAccepted _ _ _ _ _ =>
          subst isAccepted
          exact quiet _ rfl inductionHypothesis
      | closed ack inst freed aid quorum values isAccepted _ _ _ _ _ _ =>
          subst isAccepted
          exact quiet _ rfl inductionHypothesis
      | preempted now ack inst table isPreempted _ _ _ inserted =>
          subst isPreempted
          exact follows_insertNew inductionHypothesis
            (proposerPreempt source.id now inst).1 inserted rfl
            (Quorum.marked_quorumClear _) rfl
            rfl
      | resentPrepare proposerTimeout iter inst isTimeout present =>
          subst isTimeout
          refine quiet _ rfl (inductionHypothesis.set ?_)
          have follows := inductionHypothesis _ _ present
          exact ⟨follows.ballot_eq, follows.items_ballot, follows.marks,
            follows.best⟩
      | resentAccept proposerTimeout iter inst out isTimeout _ _ =>
          subst isTimeout
          exact quiet _ rfl inductionHypothesis
      | rehashed prepareInstances acceptInstances isRehash permPrepare _ =>
          subst isRehash
          exact quiet _ rfl (inductionHypothesis.perm permPrepare)

/-- A client value that an accept carries was proposed before. -/
theorem takeValue_proposed
    (trace : Trace proposerStep (proposerNew id acceptors) past final)
    {inst valued : ProposerInstance} {values : Queue PaxosValue}
    (present : final.prepareInstances.get inst.iid = some inst)
    (took : takeValue final.values inst = (values, valued))
    {value : PaxosValue} (holds : valued.value = some value) :
    value ∈ proposedValues past := by
  have moved := takeValue_values took
  have listed : value ∈
      (final.values.contents : Multiset PaxosValue) + inst.clientValue := by
    rw [← moved, Multiset.mem_add]
    exact Or.inr (by simp [ProposerInstance.clientValue, holds])
  have held : value ∈ final.heldValues := by
    unfold Proposer.heldValues
    rw [tableValues_erase present]
    rw [Multiset.mem_add] at listed
    simp only [Multiset.mem_add]
    rcases listed with queued | assigned
    · exact Or.inl (Or.inl queued)
    · exact Or.inl (Or.inr (Or.inl assigned))
  have accounts := proposer_accounts trace
  rw [← Multiset.mem_coe, accounts, Multiset.mem_add]
  exact Or.inl held

/-- Every accept that `proposer_accept` emits is for the ballot that its
instance took last.  Since then, entries for that ballot from a majority of
acceptor ids have been processed.  If one of the processed entries carried a
value with a value ballot, the accept carries the value of the first of them
with the greatest value ballot, and otherwise a value that was proposed. -/
theorem accept_value_rule
    (trace : Trace proposerStep (proposerNew id acceptors) past final) :
    ∀ before current after, past = before ++ current :: after →
      current.input = .accept →
      ∀ out, current.output.sent = some (.accept out) →
        (tenureOf out.iid before).ballot = out.ballot ∧
        (∃ voters : Finset Nat, acceptors / 2 + 1 ≤ voters.card ∧
          ∀ aid ∈ voters, ∃ item ∈ (tenureOf out.iid before).items,
            item.aid = aid ∧ item.ballot = out.ballot) ∧
        (∀ item ∈ (tenureOf out.iid before).items,
          item.ballot = out.ballot) ∧
        (valuedItems (tenureOf out.iid before).items ≠ [] →
          ∃ best,
            FirstGreatest (valuedItems (tenureOf out.iid before).items) best ∧
            out.value = best.value) ∧
        (valuedItems (tenureOf out.iid before).items = [] →
          out.value ∈ proposedValues before) := by
  rintro before current after rfl isAccept out sent
  obtain ⟨reached, stepEq⟩ := trace.split
  have keyed := (proposer_trace_keyed reached).1
  have outcome := proposerStep_outcome keyed stepEq
  rcases outcome.accept_sent sent with
    ⟨inst, valued, values, _, present, majority, took, toAccept⟩ |
    ⟨_, _, _, isTimeout, _, _⟩
  case inr =>
    rw [isAccept] at isTimeout
    cases isTimeout
  obtain ⟨_, sameIid, sameBallot, chosen⟩ :=
    instanceToAccept_eq_some toAccept
  obtain ⟨iidEq, ballotEq, promisedEq, _⟩ := takeValue_iid took
  rw [iidEq] at sameIid
  rw [ballotEq] at sameBallot
  have follows := proposer_follows reached _ _ present
  have counted := (proposer_pendingCounts reached).prepare _ _ present
  rw [sameIid, sameBallot]
  refine ⟨follows.ballot_eq, ⟨inst.quorum.marked, ?_, ?_⟩,
    follows.items_ballot, ?_, ?_⟩
  · have enough := (inst.quorum.reached_iff_isMajority.mp majority).2
    rwa [Finset.card_range, counted] at enough
  · intro aid marked
    obtain ⟨item, member, same⟩ := follows.marks aid marked
    exact ⟨item, member, same, follows.items_ballot item member⟩
  · intro some
    rcases follows.best with ⟨none, _, _⟩ | ⟨best, greatest, _, promised⟩
    · exact False.elim (some none)
    · refine ⟨best, greatest, ?_⟩
      rw [promisedEq, promised] at chosen
      exact (Option.some.inj chosen).symm
  · intro none
    rcases follows.best with ⟨_, _, promised⟩ | ⟨best, greatest, _, _⟩
    · rw [promisedEq, promised] at chosen
      exact takeValue_proposed reached present took chosen
    · obtain ⟨earlier, later, shape, _⟩ := greatest
      rw [none] at shape
      simp at shape

/-- Two acceptors report values: the accept carries the one with the greater
value ballot. -/
theorem accept_value_rule_greatest :
    ∃ past final,
      Trace proposerStep (proposerNew 3 3) past final ∧
      (past.getLast?.bind fun current => current.output.sent) =
        some (.accept ⟨3, 1, 1003, ⟨[2]⟩⟩) ∧
      ∀ before current after, past = before ++ current :: after →
        current.input = .accept →
        ∀ out, current.output.sent = some (.accept out) →
          (tenureOf out.iid before).ballot = out.ballot := by
  have ran :=
    trace_of_runFrom proposerStep (proposerNew 3 3)
      ([.prepare 0,
        .receivePromise (fun _ => 0)
          ⟨3, 1, 1003, 1, 2, [0, 1], PaxosValue.empty, [⟨[1]⟩, ⟨[2]⟩],
            [1003, 1003], [1, 2]⟩,
        .accept]) rfl
  refine ⟨_, _, ran, rfl, ?_⟩
  intro before current after shape isAccept out sent
  exact (accept_value_rule ran before current after shape isAccept out sent).1

end Run

end LibPaxos
