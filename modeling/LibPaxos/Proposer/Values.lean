import LibPaxos.Proposer.Steps
import Mathlib.Algebra.Order.Group.Multiset
import Mathlib.Algebra.BigOperators.Group.List.Basic
import Mathlib.Tactic.Abel

/-!
# Client values inside a proposer

A client value is in the queue, or assigned to an instance of one of the tables,
or retired.  Every call moves values between these places and neither drops nor
copies one.  A value is retired by the acknowledgement that completes a majority
for the ballot of its instance, and only if no other value was chosen there.
-/

namespace LibPaxos

open LibPaxos.Library

def ProposerInstance.clientValue (inst : ProposerInstance) :
    Multiset PaxosValue :=
  (inst.value.toList : List PaxosValue)

/-- The client values assigned to the instances of a listing. -/
def entriesValues (entries : List (Nat × ProposerInstance)) :
    Multiset PaxosValue :=
  (entries.map fun entry => entry.2.clientValue).sum

/-- The client values assigned to the instances of a table. -/
def tableValues (table : Table Nat ProposerInstance) : Multiset PaxosValue :=
  entriesValues table.entries

def Proposer.heldValues (p : Proposer) : Multiset PaxosValue :=
  (p.values.contents : Multiset PaxosValue) + tableValues p.prepareInstances +
    tableValues p.acceptInstances

section Tables

variable {table : Table Nat ProposerInstance} {key : Nat}
variable {inst : ProposerInstance}

@[simp]
theorem entriesValues_cons
    (entry : Nat × ProposerInstance)
    (entries : List (Nat × ProposerInstance)) :
    entriesValues (entry :: entries) =
      entry.2.clientValue + entriesValues entries := by
  simp [entriesValues]

theorem entriesValues_perm
    {left right : List (Nat × ProposerInstance)}
    (permutation : left.Perm right) :
    entriesValues left = entriesValues right :=
  (permutation.map _).sum_eq

theorem tableValues_erase (present : table.get key = some inst) :
    tableValues table = inst.clientValue + tableValues (table.erase key) :=
  (entriesValues_perm (Table.entries_perm_erase present)).trans
    (entriesValues_cons _ _)

/-- Changing an instance without touching its client value. -/
theorem tableValues_set
    (present : table.get key = some inst) (changed : ProposerInstance)
    (same : changed.value = inst.value) :
    tableValues (table.set key changed) = tableValues table := by
  have replaced :=
    entriesValues_perm (Table.entries_set_perm changed present)
  rw [tableValues_erase present]
  rw [entriesValues_cons, ProposerInstance.clientValue, same] at replaced
  exact replaced

theorem tableValues_insertNew
    {result : Table Nat ProposerInstance}
    (inserted : table.insertNew key inst = some result) :
    tableValues result = tableValues table + inst.clientValue := by
  obtain ⟨_, shape⟩ := Table.insertNew_eq_some_iff.mp inserted
  unfold tableValues entriesValues
  rw [shape, List.map_append, List.sum_append]
  simp

end Tables

/-- Trimming gives the values of the removed instances back to the queue. -/
theorem trimEntries_values (iid : Nat)
    (entries : List (Nat × ProposerInstance)) :
    ∀ values : Queue PaxosValue,
      ((trimEntries iid entries values []).1.contents : Multiset PaxosValue) +
          entriesValues
            (entries.filter fun entry => !decide (entry.2.iid ≤ iid)) =
        (values.contents : Multiset PaxosValue) + entriesValues entries := by
  induction entries with
  | nil =>
      intro values
      rfl
  | cons entry rest inductionHypothesis =>
      intro values
      obtain ⟨key, inst⟩ := entry
      by_cases low : inst.iid ≤ iid
      · cases holds : inst.value with
        | none =>
            have remaining := inductionHypothesis values
            simpa [trimEntries, low, holds, instanceFree,
              ProposerInstance.clientValue] using remaining
        | some v =>
            have remaining := inductionHypothesis (values.pushBack v)
            rw [Queue.contents_pushBack, ← Multiset.coe_add] at remaining
            simpa [trimEntries, low, holds, instanceFree,
              ProposerInstance.clientValue, add_assoc] using remaining
      · have remaining := inductionHypothesis values
        have kept : (((key, inst) :: rest).filter
              fun entry => !decide (entry.2.iid ≤ iid)) =
            (key, inst) ::
              rest.filter fun entry => !decide (entry.2.iid ≤ iid) := by
          simp [low]
        rw [trimEntries, if_neg low, kept, entriesValues_cons,
          entriesValues_cons, add_left_comm, remaining, add_left_comm]

section Step

variable {p after : Proposer} {op : ProposerOp} {result : ProposerResult}

/-- The client value that a call hands to the proposer. -/
def proposedBy : ProposerOp → List PaxosValue
  | .propose value => [value]
  | _ => []

theorem Proposer.Passive.proposedBy_eq (passive : p.Passive op) :
    proposedBy op = [] := by
  cases op with
  | propose value => exact False.elim (passive.notPropose value rfl)
  | _ => rfl

/-- The loop over a promise leaves the client value of the instance alone. -/
theorem promiseLoop_value
    {id : Nat} {clock : Nat → Int} {ack : PaxosPromise} {entries : List Nat}
    {inst changed : ProposerInstance} {out sent : Option PaxosPrepare}
    (looped : promiseLoop id clock ack entries inst out =
      some (changed, sent)) :
    changed.value = inst.value := by
  refine promiseLoop_invariant False
    (fun (now : ProposerInstance) _ => now.value = inst.value)
    ?_ entries rfl False.elim looped
  intro ii now out result sent held _ entryOutcome
  exact entryOutcome.frame.2.1.trans held

/-- Taking a value moves it from the queue to the instance. -/
theorem takeValue_values
    {values rest : Queue PaxosValue} {inst valued : ProposerInstance}
    (took : takeValue values inst = (rest, valued)) :
    (rest.contents : Multiset PaxosValue) + valued.clientValue =
      (values.contents : Multiset PaxosValue) + inst.clientValue := by
  unfold takeValue at took
  split at took
  · cases took
    rfl
  · next missing =>
      have popped := values.popFront_spec
      cases shape : values.popFront with
      | mk v remaining =>
          simp only [shape] at took popped
          cases took
          rw [popped, ← Multiset.coe_add]
          simp [ProposerInstance.clientValue, missing, add_comm]

/-- Closing an instance gives its value back or leaves it to be freed. -/
theorem giveBackValue_values
    {values rest : Queue PaxosValue} {inst freed : ProposerInstance}
    (gave : giveBackValue values inst = (rest, freed)) :
    (rest.contents : Multiset PaxosValue) + freed.clientValue =
      (values.contents : Multiset PaxosValue) + inst.clientValue := by
  unfold giveBackValue at gave
  split at gave
  · next promised v _ holds =>
      split at gave
      · cases gave
        rw [Queue.contents_pushBack, ← Multiset.coe_add]
        simp [ProposerInstance.clientValue, holds]
      · cases gave
        rfl
  · cases gave
    rfl

/-- No call drops or copies a client value. -/
theorem ProposerOutcome.accounts
    (outcome : ProposerOutcome p op after result) :
    after.heldValues + (result.retired : Multiset PaxosValue) =
      p.heldValues + (proposedBy op : Multiset PaxosValue) := by
  unfold Proposer.heldValues
  cases outcome with
  | idle passive => rw [passive.proposedBy_eq]
  | noted _ passive => rw [passive.proposedBy_eq]
  | proposed value isPropose =>
      subst isPropose
      simp only [Queue.contents_pushBack, ← Multiset.coe_add, proposedBy]
      simp only [Multiset.coe_nil, add_zero]
      abel
  | prepared now table isPrepare _ inserted =>
      subst isPrepare
      rw [tableValues_insertNew inserted]
      simp [Proposer.freshInstance, ProposerInstance.clientValue, proposedBy]
  | promised clock ack inst changed out isPromise present looped =>
      subst isPromise
      simp only [tableValues_set present _ (promiseLoop_value looped)]
      rfl
  | accepted inst valued values table out isAccept present _ took _
      inserted =>
      subst isAccept
      have moved := takeValue_values took
      have filed : tableValues table =
          tableValues p.acceptInstances + valued.clientValue := by
        have stored := tableValues_insertNew inserted
        exact stored
      simp only [filed, tableValues_erase present, proposedBy,
        Multiset.coe_nil, add_zero]
      calc
        (values.contents : Multiset PaxosValue) +
              tableValues (p.prepareInstances.erase inst.iid) +
              (tableValues p.acceptInstances + valued.clientValue) =
            (values.contents + valued.clientValue) +
              tableValues (p.prepareInstances.erase inst.iid) +
              tableValues p.acceptInstances := by abel
        _ = (p.values.contents + inst.clientValue) +
              tableValues (p.prepareInstances.erase inst.iid) +
              tableValues p.acceptInstances := by rw [moved]
        _ = _ := by abel
  | counted ack inst aid quorum isAccepted present _ _ _ _ =>
      subst isAccepted
      simp only [tableValues_set present { inst with quorum := quorum }
        rfl]
      rfl
  | closed ack inst freed aid quorum values isAccepted present _ _ _ _ gave =>
      subst isAccepted
      have moved : (values.contents : Multiset PaxosValue) +
          freed.clientValue = p.values.contents + inst.clientValue := by
        have given := giveBackValue_values gave
        exact given
      simp only [tableValues_erase present, proposedBy, Multiset.coe_nil,
        add_zero]
      calc
        (values.contents : Multiset PaxosValue) +
              tableValues p.prepareInstances +
              tableValues (p.acceptInstances.erase ack.iid) +
              freed.clientValue =
            (values.contents + freed.clientValue) +
              tableValues p.prepareInstances +
              tableValues (p.acceptInstances.erase ack.iid) := by abel
        _ = (p.values.contents + inst.clientValue) +
              tableValues p.prepareInstances +
              tableValues (p.acceptInstances.erase ack.iid) := by rw [moved]
        _ = _ := by abel
  | preempted now ack inst table isPreempted present _ _ inserted =>
      subst isPreempted
      have filed : tableValues table =
          tableValues p.prepareInstances + inst.clientValue := by
        have stored := tableValues_insertNew inserted
        exact stored
      simp only [filed, tableValues_erase present, proposedBy,
        Multiset.coe_nil, add_zero]
      abel
  | trimmed maxTrimIid iid passive _ =>
      rw [passive.proposedBy_eq]
      have first := trimEntries_values iid p.prepareInstances.entries p.values
      have second := trimEntries_values iid p.acceptInstances.entries
        (trimEntries iid p.prepareInstances.entries p.values []).1
      simp only [Multiset.coe_nil, add_zero]
      calc
        ((p.trimmedValues iid).contents : Multiset PaxosValue) +
              tableValues (trimTable iid p.prepareInstances) +
              tableValues (trimTable iid p.acceptInstances) =
            ((p.trimmedValues iid).contents +
              tableValues (trimTable iid p.acceptInstances)) +
              tableValues (trimTable iid p.prepareInstances) := by abel
        _ = ((trimEntries iid p.prepareInstances.entries p.values
                []).1.contents + tableValues p.acceptInstances) +
              tableValues (trimTable iid p.prepareInstances) := by
            exact congrArg (· + _) second
        _ = ((trimEntries iid p.prepareInstances.entries p.values
                []).1.contents +
              tableValues (trimTable iid p.prepareInstances)) +
              tableValues p.acceptInstances := by abel
        _ = (p.values.contents + tableValues p.prepareInstances) +
              tableValues p.acceptInstances := by
            exact congrArg (· + _) first
  | resentPrepare proposerTimeout iter inst isTimeout present =>
      subst isTimeout
      simp only [tableValues_set present
        { inst with createdAt := iter.timeout } rfl]
      rfl
  | resentAccept proposerTimeout iter inst out isTimeout present _ =>
      subst isTimeout
      simp only [tableValues_set present
        { inst with createdAt := iter.timeout } rfl]
      rfl
  | rehashed prepareInstances acceptInstances isRehash permPrepare
      permAccept =>
      subst isRehash
      simp only [tableValues, entriesValues_perm permPrepare,
        entriesValues_perm permAccept]
      rfl

/-- What freeing a client value says about the call. -/
theorem ProposerOutcome.retired
    (outcome : ProposerOutcome p op after result)
    {value : PaxosValue} (retired : value ∈ result.retired) :
    ∃ ack inst aid quorum, op = .receiveAccepted ack ∧
      p.acceptInstances.get ack.iid = some inst ∧
      inst.value = some value ∧
      (inst.promisedValue = none ∨ inst.promisedValue = some value) ∧
      ack.ballots[0]? = some inst.ballot ∧ ack.aids[0]? = some aid ∧
      quorumAdd inst.quorum aid = some (true, quorum) ∧
      quorumReached quorum = true := by
  cases outcome with
  | closed ack inst freed aid quorum values isAccepted present ballotAt aidAt
      added reached gave =>
      refine ⟨ack, inst, aid, quorum, isAccepted, present, ?_⟩
      have freedValue : freed.value = some value := by
        simpa [instanceFree, Option.mem_toList] using retired
      unfold giveBackValue at gave
      split at gave
      · next promised v promisedAt holds =>
          split at gave
          · cases gave
            cases freedValue
          · next same =>
              cases gave
              rw [paxosValueCmp_iff, ne_eq, not_not] at same
              subst same
              rw [holds] at freedValue
              cases freedValue
              exact ⟨holds, Or.inr promisedAt, ballotAt, aidAt, added, reached⟩
      · next different =>
          cases gave
          refine ⟨freedValue, Or.inl ?_, ballotAt, aidAt, added, reached⟩
          cases promisedAt : inst.promisedValue with
          | none => rfl
          | some promised =>
              exact False.elim (different promised value promisedAt freedValue)
  | _ => cases retired

end Step

def proposedValues (past : List ProposerTransition) : List PaxosValue :=
  past.flatMap fun current => proposedBy current.input

def retiredValues (past : List ProposerTransition) : List PaxosValue :=
  past.flatMap fun current => current.output.retired

/-- An acceptor acknowledged the ballot of an instance in a run. -/
def Acknowledged (past : List ProposerTransition) (iid ballot aid : Nat) :
    Prop :=
  ∃ current ∈ past, ∃ ack, current.input = .receiveAccepted ack ∧
    ack.iid = iid ∧ ack.ballots[0]? = some ballot ∧ ack.aids[0]? = some aid

theorem Acknowledged.append
    {past : List ProposerTransition} {iid ballot aid : Nat}
    (acknowledged : Acknowledged past iid ballot aid)
    (later : List ProposerTransition) :
    Acknowledged (past ++ later) iid ballot aid := by
  obtain ⟨current, member, rest⟩ := acknowledged
  exact ⟨current, List.mem_append_left _ member, rest⟩

/-- The marks of a pending instance are acknowledgements of its ballot, and
have not reached a majority yet. -/
structure PendingCounts (past : List ProposerTransition) (acceptors key : Nat)
    (inst : ProposerInstance) : Prop where
  acceptors_eq : inst.quorum.acceptors = acceptors
  unreached : quorumReached inst.quorum = false
  marks : ∀ aid ∈ inst.quorum.marked,
    Acknowledged past key inst.ballot aid

/-- A cleared quorum has not been reached. -/
theorem quorumReached_quorumClear (q : Quorum) :
    quorumReached (quorumClear q) = false := by
  unfold quorumReached
  rw [decide_eq_false_iff_not, (quorumClear q).quorumEq]
  change ¬ paxosQuorum q.acceptors ≤ 0
  unfold paxosQuorum
  omega

section Run

variable {id acceptors : Nat} {past : List ProposerTransition}
variable {final : Proposer}

theorem proposer_accounts
    (trace : Trace proposerStep (proposerNew id acceptors) past final) :
    (proposedValues past : Multiset PaxosValue) =
      final.heldValues + (retiredValues past : Multiset PaxosValue) := by
  induction trace with
  | nil => rfl
  | @snoc past source target op result trace stepEq inductionHypothesis =>
      have keyed := (proposer_trace_keyed trace).1
      have accounts := (proposerStep_outcome keyed stepEq).accounts
      simp only [proposedValues, retiredValues, List.flatMap_append,
        List.flatMap_cons, List.flatMap_nil, List.append_nil,
        ← Multiset.coe_add] at inductionHypothesis ⊢
      rw [inductionHypothesis, add_right_comm, ← accounts]
      abel

/-- Pending instances count acknowledgements of their ballot in every run. -/
theorem proposer_pendingCounts
    (trace : Trace proposerStep (proposerNew id acceptors) past final) :
    final.Instances
      (fun _ inst => inst.quorum.acceptors = acceptors)
      (PendingCounts past acceptors) := by
  induction trace with
  | nil => exact proposerNew_instances id acceptors _ _
  | @snoc past source target op result trace stepEq inductionHypothesis =>
      obtain ⟨keyed, _, sameAcceptors⟩ := proposer_trace_keyed trace
      have outcome := proposerStep_outcome keyed stepEq
      have early : source.Instances
          (fun _ inst => inst.quorum.acceptors = acceptors)
          (PendingCounts (past ++ [⟨source, op, result, target⟩])
            acceptors) := by
        refine ⟨inductionHypothesis.prepare, ?_⟩
        intro key inst present
        have counts := inductionHypothesis.accept key inst present
        exact ⟨counts.acceptors_eq, counts.unreached,
          fun aid marked => (counts.marks aid marked).append _⟩
      refine outcome.instances early ⟨?_, ?_, ?_, ?_, ?_, ?_, ?_⟩
      · intro now _ _
        exact sameAcceptors
      · intro clock ack ii inst changed sent _ held _ entryOutcome
        exact entryOutcome.frame.2.2.trans held
      · intro inst valued values out _ held _ took _
        have sameQuorum := (takeValue_iid took).2.2.2
        refine ⟨?_, quorumReached_quorumClear _, ?_⟩
        · rw [Quorum.acceptors_quorumClear, sameQuorum]
          exact held
        · intro aid marked
          simp at marked
      · intro ack key inst aid quorum isAccepted counts ballotAt aidAt sameKey
          added missing
        obtain ⟨acceptorsEq, markedEq, _⟩ := Quorum.quorumAdd_spec added
        refine ⟨acceptorsEq.trans counts.acceptors_eq, missing, ?_⟩
        intro other marked
        simp only [markedEq, Finset.mem_insert] at marked
        rcases marked with rfl | old
        · exact ⟨_, List.mem_append_right _ (List.mem_singleton_self _), ack,
            isAccepted, sameKey, ballotAt, aidAt⟩
        · exact counts.marks other old
      · intro now ack inst _ counts _ _
        exact counts.acceptors_eq
      · intro key inst createdAt held
        exact held
      · intro key inst createdAt counts
        exact ⟨counts.acceptors_eq, counts.unreached, counts.marks⟩

/-- The acknowledgement that completes the quorum of a pending instance makes a
majority of acknowledgements of its ballot. -/
theorem PendingCounts.completed
    {before : List ProposerTransition} {current : ProposerTransition}
    {key aid : Nat} {inst : ProposerInstance} {quorum : Quorum}
    (counts : PendingCounts before acceptors key inst)
    {ack : PaxosAccepted} (isAccepted : current.input = .receiveAccepted ack)
    (sameKey : ack.iid = key) (ballotAt : ack.ballots[0]? = some inst.ballot)
    (aidAt : ack.aids[0]? = some aid)
    (added : quorumAdd inst.quorum aid = some (true, quorum))
    (reached : quorumReached quorum = true) :
    IsMajority (Finset.range acceptors) quorum.marked ∧
      ∀ other ∈ quorum.marked,
        Acknowledged (before ++ [current]) key inst.ballot other := by
  obtain ⟨acceptorsEq, markedEq, _⟩ := Quorum.quorumAdd_spec added
  have majority := quorum.reached_iff_isMajority.mp reached
  rw [acceptorsEq, counts.acceptors_eq] at majority
  refine ⟨majority, ?_⟩
  intro other marked
  rw [markedEq, Finset.mem_insert] at marked
  rcases marked with rfl | old
  · exact ⟨current, List.mem_append_right _ (List.mem_singleton_self _), ack,
      isAccepted, sameKey, ballotAt, aidAt⟩
  · exact (counts.marks other old).append _

/-- In every run of a proposer the values proposed so far are, as a multiset,
those in the queue, those assigned to instances and those retired.  A value is
retired only by the acknowledgement that brings its instance to a majority of
acceptors acknowledging the ballot of the instance, and only if no other value
was promised there. -/
theorem client_values_conserved
    (trace : Trace proposerStep (proposerNew id acceptors) past final) :
    ((proposedValues past : Multiset PaxosValue) =
      (final.values.contents : Multiset PaxosValue) +
        tableValues final.prepareInstances +
        tableValues final.acceptInstances +
        (retiredValues past : Multiset PaxosValue)) ∧
    ∀ before current after, past = before ++ current :: after →
      ∀ value ∈ current.output.retired,
        ∃ ack inst, current.input = .receiveAccepted ack ∧
          current.source.acceptInstances.get ack.iid = some inst ∧
          inst.value = some value ∧
          (inst.promisedValue = none ∨ inst.promisedValue = some value) ∧
          quorumReached inst.quorum = false ∧
          ∃ voters : Finset Nat, acceptors / 2 + 1 ≤ voters.card ∧
            ∀ aid ∈ voters,
              Acknowledged (before ++ [current]) ack.iid inst.ballot aid := by
  refine ⟨proposer_accounts trace, ?_⟩
  rintro before current after rfl value retired
  obtain ⟨reached, stepEq⟩ := trace.split
  have keyed := (proposer_trace_keyed reached).1
  have outcome := proposerStep_outcome keyed stepEq
  obtain ⟨ack, inst, aid, quorum, isAccepted, present, holds, promised,
    ballotAt, aidAt, added, complete⟩ := outcome.retired retired
  have counts := (proposer_pendingCounts reached).accept _ _ present
  obtain ⟨majority, acknowledged⟩ :=
    counts.completed isAccepted rfl ballotAt aidAt added complete
  refine ⟨ack, inst, isAccepted, present, holds, promised, counts.unreached,
    quorum.marked, ?_, acknowledged⟩
  have enough := majority.2
  rwa [Finset.card_range] at enough

/-- The promise of an acceptor that has accepted nothing, to proposer 3. -/
def blankPromise (aid : Nat) : PaxosPromise :=
  ⟨3, 1, 1003, 1003, 1, [aid], PaxosValue.empty, [PaxosValue.empty], [1003],
    [1003]⟩

/-- The acknowledgement of an acceptor to proposer 3. -/
def firstAck (aid : Nat) : PaxosAccepted :=
  ⟨3, 1, 1003, 1003, 1, [aid], PaxosValue.empty, some [⟨[7]⟩], [1003], [1003]⟩

/-- With three acceptors, the only value is retired when the second one
acknowledges it. -/
theorem client_values_conserved_retires :
    ∃ past final,
      Trace proposerStep (proposerNew 3 3) past final ∧
      retiredValues past = [⟨[7]⟩] ∧
      (proposedValues past : Multiset PaxosValue) =
        (final.values.contents : Multiset PaxosValue) +
          tableValues final.prepareInstances +
          tableValues final.acceptInstances +
          (retiredValues past : Multiset PaxosValue) := by
  have ran :=
    trace_of_runFrom proposerStep (proposerNew 3 3)
      ([.propose ⟨[7]⟩, .prepare 0,
        .receivePromise (fun _ => 0) (blankPromise 0),
        .receivePromise (fun _ => 0) (blankPromise 2),
        .accept, .receiveAccepted (firstAck 0),
        .receiveAccepted (firstAck 2)]) rfl
  exact ⟨_, _, ran, rfl, (client_values_conserved ran).1⟩

end Run

end LibPaxos
