import LibPaxos.Learner.Closed

/-!
# Learning in any order and with repetitions

When all messages of an instance have the same ballot and the same value, what a
learner has learned depends only on which acceptors it has heard from for which
instance: not on the order of the messages, on how often each one came, or on
when `learner_deliver_next` was called.
-/

namespace LibPaxos

open LibPaxos.Library

def messagesOf (ops : List LearnerOp) : List PaxosAccepted :=
  ops.filterMap LearnerOp.message

/-- The acceptors that a learner has heard from for an instance. -/
def heardFrom (n iid : Nat) (messages : List PaxosAccepted) : Finset Nat :=
  (Finset.range n).filter fun aid =>
    ∃ ack ∈ messages, ack.iid = iid ∧ ack.aid = aid

/-- The run of a learner in catch-up mode on some calls, with
`learner_deliver_next` repeated at the end until it returns 0. -/
def Drains (n : Nat) (ops : List LearnerOp) (past : List LearnerTransition)
    (final : Learner) : Prop :=
  ∃ (calls : Nat) (before : List LearnerTransition)
      (last : LearnerTransition),
    runFrom learnerStep (learnerNew true n)
      (ops ++ List.replicate calls .deliverNext ++ [.deliverNext]) =
        some (past, final) ∧
    past = before ++ [last] ∧ last.output = none

/-- What a learner has delivered and where it stands, in terms of the acceptors
that it has heard from. -/
structure Learned (n : Nat) (messages out : List PaxosAccepted) (l : Learner) :
    Prop where
  numbered : out.map PaxosAccepted.iid = List.range' 1 out.length
  current_eq : l.currentIid = 1 + out.length
  taken : ∀ record ∈ out,
    ∃ ack ∈ messages, ack.iid = record.iid ∧ ack.value = record.value
  delivered : ∀ iid, 1 ≤ iid → iid < l.currentIid →
    n / 2 + 1 ≤ (heardFrom n iid messages).card
  next : ¬ n / 2 + 1 ≤ (heardFrom n l.currentIid messages).card
  highest : ∀ iid, 1 ≤ iid →
    n / 2 + 1 ≤ (heardFrom n iid messages).card → iid ≤ l.highestIidClosed
  attained : l.highestIidClosed = 1 ∨
    n / 2 + 1 ≤ (heardFrom n l.highestIidClosed messages).card

section Majority

variable {n : Nat} {messages : List PaxosAccepted}

theorem mem_of_highestBallot
    {aid ballot : Nat} (highest : highestBallot aid messages = some ballot) :
    ∃ ack ∈ messages, ack.aid = aid := by
  have member := List.max?_mem highest
  rw [List.mem_map] at member
  obtain ⟨ack, found, _⟩ := member
  rw [List.mem_filter, decide_eq_true_eq] at found
  exact ⟨ack, found⟩

theorem highestBallot_of_uniform
    {ballot : Nat} (uniform : ∀ ack ∈ messages, ack.ballot = ballot)
    {ack : PaxosAccepted} (member : ack ∈ messages) :
    highestBallot ack.aid messages = some ballot := by
  cases highest : highestBallot ack.aid messages with
  | none =>
      unfold highestBallot at highest
      rw [List.max?_eq_none_iff, List.map_eq_nil_iff,
        List.filter_eq_nil_iff] at highest
      exact absurd (highest ack member) (by simp)
  | some other =>
      have found := List.max?_mem highest
      rw [List.mem_map] at found
      obtain ⟨vote, inside, sameBallot⟩ := found
      rw [← sameBallot, uniform vote (List.mem_of_mem_filter inside)]

/-- Under one ballot, a majority is reached when a majority of the acceptors was
heard from. -/
theorem reachedMajority_of_uniform
    {ballot : Nat} (uniform : ∀ ack ∈ messages, ack.ballot = ballot) :
    ReachedMajority n messages ↔
      n / 2 + 1 ≤ ((Finset.range n).filter fun aid =>
        ∃ ack ∈ messages, ack.aid = aid).card := by
  constructor
  · intro reached
    obtain ⟨earlier, part, other, many⟩ := reached
    apply many.trans
    apply Finset.card_le_card
    intro aid member
    simp only [highestAt, Finset.mem_filter] at member ⊢
    obtain ⟨ack, inside, sameAid⟩ := mem_of_highestBallot member.2
    exact ⟨member.1, ack, part.subset inside, sameAid⟩
  · intro many
    have inside : ((Finset.range n).filter fun aid =>
        ∃ ack ∈ messages, ack.aid = aid) ⊆ highestAt n messages ballot := by
      intro aid member
      simp only [highestAt, Finset.mem_filter] at member ⊢
      obtain ⟨bound, ack, sent, rfl⟩ := member
      exact ⟨bound, highestBallot_of_uniform uniform sent⟩
    exact reachedMajority_of_highestAt
      (many.trans (Finset.card_le_card inside))

end Majority

section Run

variable {n : Nat} {ops : List LearnerOp} {past : List LearnerTransition}
variable {final : Learner}

theorem receivedFor_eq_filter (iid : Nat) (past : List LearnerTransition) :
    receivedFor iid past =
      (messagesOf (past.map Transition.input)).filter
        fun ack => ack.iid = iid := by
  unfold receivedFor messagesOf
  rw [List.filterMap_map, List.filter_filterMap]
  rfl

theorem messagesOf_deliver (ops : List LearnerOp) (calls : Nat) :
    messagesOf (ops ++ List.replicate calls .deliverNext ++ [.deliverNext]) =
      messagesOf ops := by
  have silent : messagesOf (List.replicate calls .deliverNext) = [] := by
    unfold messagesOf
    rw [List.filterMap_eq_nil_iff]
    intro op member
    rw [List.eq_of_mem_replicate member]
    rfl
  unfold messagesOf at silent ⊢
  rw [List.filterMap_append, List.filterMap_append, silent, List.append_nil]
  exact List.append_nil _

theorem ok_deliver
    (ok : ∀ op ∈ ops, op.Ok n) (calls : Nat) :
    ∀ op ∈ ops ++ List.replicate calls .deliverNext, op.Ok n := by
  intro op member
  rcases List.mem_append.mp member with given | added
  · exact ok op given
  · rw [List.eq_of_mem_replicate added]
    intro ack isMessage
    cases isMessage

theorem ok_inputs
    {start : Learner} {inputs : List LearnerOp}
    (ran : runFrom learnerStep start inputs = some (past, final))
    (ok : ∀ op ∈ inputs, op.Ok n) :
    ∀ current ∈ past, current.input.Ok n := by
  intro current member
  apply ok
  rw [← runFrom_inputs inputs ran]
  exact List.mem_map_of_mem member

theorem exists_mem_of_reachedMajority
    {messages : List PaxosAccepted} (reached : ReachedMajority n messages) :
    ∃ ack, ack ∈ messages := by
  cases messages with
  | nil => exact False.elim (not_reachedMajority_nil n reached)
  | cons ack rest => exact ⟨ack, List.mem_cons_self ..⟩

/-- One more call either returns 0 or moves on by one instance. -/
theorem drains_or_advances
    (ok : ∀ op ∈ ops, op.Ok n) {calls : Nat} {l : Learner}
    (ran : runFrom learnerStep (learnerNew true n)
      (ops ++ List.replicate calls .deliverNext) = some (past, l)) :
    (∃ past final, Drains n ops past final) ∨
      ∃ past' l',
        runFrom learnerStep (learnerNew true n)
          (ops ++ List.replicate (calls + 1) .deliverNext) =
            some (past', l') ∧
        l'.currentIid = l.currentIid + 1 ∧ l.currentIid + 1 < 2 ^ 32 := by
  have earlier := ok_inputs ran (ok_deliver ok calls)
  have inv := learner_trace_inv (trace_of_runFrom _ _ _ ran)
    (ready_of_ok earlier)
  have ready : LearnerOp.deliverNext.Ready n past l :=
    LearnerOp.Ok.ready earlier (by
      intro ack isMessage
      cases isMessage)
  obtain ⟨after, out, stepEq, afterInv, exactly⟩ := inv.deliver ready
  have extended := runFrom_snoc _ ran stepEq
  cases out with
  | none => exact Or.inl ⟨_, after, calls, past, _, extended, rfl, rfl⟩
  | some record =>
      obtain ⟨ack, member⟩ :=
        exists_mem_of_reachedMajority (exactly.isSome_iff.mp rfl)
      have sameIid := (inv.messages _ ack member).2
      have bound : ack.iid < 2 ^ 32 - 1 := by
        unfold receivedFor at member
        rw [List.mem_filterMap] at member
        obtain ⟨current, inside, found⟩ := member
        exact (earlier current inside ack
          (Option.filter_eq_some_iff.mp found).1).2
      have moved := afterInv.current_eq
      rw [delivered_snoc, startFrom_snoc_deliver true 1 past rfl,
        List.length_append, Option.toList_some, List.length_singleton,
        ← Nat.add_assoc, ← inv.current_eq] at moved
      rw [List.append_assoc, ← List.replicate_succ'] at extended
      exact Or.inr ⟨_, after, extended, moved, by omega⟩

/-- The calls at the end come to an end, since no message is about an instance
from `2 ^ 32 - 1` on. -/
theorem exists_drains (ok : ∀ op ∈ ops, op.Ok n) :
    ∃ past final, Drains n ops past final := by
  have search : ∀ gap calls past l,
      runFrom learnerStep (learnerNew true n)
        (ops ++ List.replicate calls .deliverNext) = some (past, l) →
      2 ^ 32 - l.currentIid ≤ gap → ∃ past final, Drains n ops past final := by
    intro gap
    induction gap with
    | zero =>
        intro calls past l ran far
        rcases drains_or_advances ok ran with drained | ⟨_, _, _, _, near⟩
        · exact drained
        · omega
    | succ gap inductionHypothesis =>
        intro calls past l ran far
        rcases drains_or_advances ok ran with
          drained | ⟨past', l', extended, moved, _⟩
        · exact drained
        · exact inductionHypothesis (calls + 1) past' l' extended (by omega)
  obtain ⟨past, l, ran⟩ := learner_runs (ops ++ List.replicate 0 .deliverNext)
    (ok_deliver ok 0)
  exact search _ 0 past l ran (Nat.le_refl _)

/-- A record delivered by a run was taken from a message received. -/
theorem taken_of_delivered
    (trace : Trace learnerStep (learnerNew true n) past final)
    (ok : ∀ current ∈ past, current.input.Ok n)
    {record : PaxosAccepted} (member : record ∈ delivered past) :
    ∃ ack ∈ messagesOf (past.map Transition.input),
      ack.iid = record.iid ∧ ack.value = record.value := by
  unfold delivered at member
  rw [List.mem_filterMap] at member
  obtain ⟨current, inside, returned⟩ := member
  obtain ⟨before, after, shape, _, stepEq⟩ := trace.mem_split inside
  cases isInput : current.input with
  | receiveAccepted ack =>
      rw [isInput, returned] at stepEq
      simp [learnerStep] at stepEq
  | deliverNext =>
      obtain ⟨inv, exactly⟩ :=
        deliver_exact trace (ready_of_ok ok) shape isInput
      obtain ⟨ack, received, rfl⟩ := exactly.received record returned
      rw [receivedFor_eq_filter, List.mem_filter] at received
      refine ⟨ack, ?_, rfl, rfl⟩
      rw [shape, List.map_append]
      unfold messagesOf at received ⊢
      rw [List.filterMap_append]
      exact List.mem_append_left _ received.1

/-- What a drained run has learned. -/
theorem Drains.learned
    (drains : Drains n ops past final) (ok : ∀ op ∈ ops, op.Ok n)
    {ballotOf : Nat → Nat}
    (uniform : ∀ ack ∈ messagesOf ops, ack.ballot = ballotOf ack.iid) :
    Learned n (messagesOf ops) (delivered past) final := by
  obtain ⟨calls, before, last, ran, shape, silent⟩ := drains
  have inputs := runFrom_inputs _ ran
  have trace := trace_of_runFrom _ _ _ ran
  have okPast := ok_inputs ran (by
    intro op member
    rw [List.append_assoc, ← List.replicate_succ'] at member
    exact ok_deliver ok (calls + 1) op member)
  have messages : messagesOf (past.map Transition.input) = messagesOf ops := by
    rw [inputs]
    exact messagesOf_deliver ops calls
  have inv := learner_trace_inv trace (ready_of_ok okPast)
  have closed :=
    (learnerNew_fresh true n).trace_closed trace (ready_of_ok okPast)
  have majority : ∀ iid, ReachedMajority n (receivedFor iid past) ↔
      n / 2 + 1 ≤ (heardFrom n iid (messagesOf ops)).card := by
    intro iid
    have oneBallot : ∀ ack ∈ (messagesOf ops).filter fun ack => ack.iid = iid,
        ack.ballot = ballotOf iid := by
      intro ack member
      rw [List.mem_filter, decide_eq_true_eq] at member
      rw [uniform ack member.1, member.2]
    rw [receivedFor_eq_filter, messages, reachedMajority_of_uniform oneBallot]
    simp [heardFrom, and_assoc]
  have isDeliver : last.input = .deliverNext := by
    rw [shape, List.map_append] at inputs
    exact List.singleton_inj.mp (List.append_inj' inputs rfl).2
  obtain ⟨beforeInv, exactly⟩ :=
    deliver_exact trace (ready_of_ok okPast) shape isDeliver
  have sameDelivered : delivered past = delivered before := by
    rw [shape, delivered_snoc, silent]
    exact List.append_nil _
  have sameIid : final.currentIid = last.source.currentIid := by
    rw [inv.current_eq, beforeInv.current_eq, sameDelivered]
    rfl
  have stuck : ¬ ReachedMajority n (receivedFor final.currentIid past) := by
    intro reached
    rw [shape, receivedFor_snoc_deliver _ before isDeliver, sameIid,
      ← exactly.isSome_iff, silent] at reached
    cases reached
  exact
    { numbered := inv.numbered
      current_eq := inv.current_eq
      taken := by
        intro record member
        rw [← messages]
        exact taken_of_delivered trace okPast member
      delivered := fun iid above below =>
        (majority iid).mp (closed.delivered iid above below)
      next := fun many => stuck ((majority _).mpr many)
      highest := fun iid above many =>
        closed.highest iid above ((majority iid).mpr many)
      attained := closed.attained.imp_right (majority _).mp }

end Run

section Compare

variable {n : Nat} {left right leftOut rightOut : List PaxosAccepted}
variable {leftEnd rightEnd : Learner}

def SamePairs (left right : List PaxosAccepted) : Prop :=
  ∀ iid aid, (∃ ack ∈ left, ack.iid = iid ∧ ack.aid = aid) ↔
    ∃ ack ∈ right, ack.iid = iid ∧ ack.aid = aid

theorem heardFrom_congr (same : SamePairs left right) (iid : Nat) :
    heardFrom n iid left = heardFrom n iid right := by
  unfold heardFrom
  apply Finset.filter_congr
  intro aid _
  exact same iid aid

theorem Learned.current_le
    (leftLearned : Learned n left leftOut leftEnd)
    (rightLearned : Learned n right rightOut rightEnd)
    (same : SamePairs left right) :
    leftEnd.currentIid ≤ rightEnd.currentIid := by
  apply Nat.le_of_not_lt
  intro further
  have above : 1 ≤ rightEnd.currentIid := by
    rw [rightLearned.current_eq]
    omega
  have many := leftLearned.delivered _ above further
  rw [heardFrom_congr same] at many
  exact rightLearned.next many

theorem Learned.highest_le
    (leftLearned : Learned n left leftOut leftEnd)
    (rightLearned : Learned n right rightOut rightEnd)
    (same : SamePairs left right)
    (positive : ∀ ack ∈ right, 1 ≤ ack.iid) :
    leftEnd.highestIidClosed ≤ rightEnd.highestIidClosed := by
  have heard : ∀ iid, n / 2 + 1 ≤ (heardFrom n iid right).card → 1 ≤ iid := by
    intro iid many
    obtain ⟨aid, member⟩ := Finset.card_pos.mp (by omega :
      0 < (heardFrom n iid right).card)
    unfold heardFrom at member
    rw [Finset.mem_filter] at member
    obtain ⟨_, ack, inside, sameIid, _⟩ := member
    exact sameIid ▸ positive ack inside
  rcases leftLearned.attained with first | many
  · rw [first]
    rcases rightLearned.attained with rightFirst | rightMany
    · exact Nat.le_of_eq rightFirst.symm
    · exact heard _ rightMany
  · rw [heardFrom_congr same] at many
    exact rightLearned.highest _ (heard _ many) many

/-- The pairs delivered, when the messages of every instance have the same
value. -/
theorem Learned.pairs_eq
    (learned : Learned n left leftOut leftEnd) {valueOf : Nat → PaxosValue}
    (uniform : ∀ ack ∈ left, ack.value = valueOf ack.iid) :
    (leftOut.map fun record => (record.iid, record.value)) =
      (List.range' 1 leftOut.length).map fun iid => (iid, valueOf iid) := by
  rw [← learned.numbered, List.map_map]
  apply List.map_congr_left
  intro record member
  obtain ⟨ack, inside, sameIid, sameValue⟩ := learned.taken record member
  rw [Function.comp_apply, ← sameValue, uniform ack inside, sameIid]

end Compare

/-- Two learners in catch-up mode that receive messages with the same pairs of
instance and acceptor, all messages of an instance with the same ballot and the
same value, end up having delivered the same, at the same instance and with the
same holes. -/
theorem learning_insensitive
    (n : Nat) (leftOps rightOps : List LearnerOp)
    (leftOk : ∀ op ∈ leftOps, op.Ok n) (rightOk : ∀ op ∈ rightOps, op.Ok n)
    (positive : ∀ ack ∈ messagesOf leftOps ++ messagesOf rightOps, 1 ≤ ack.iid)
    (samePairs : SamePairs (messagesOf leftOps) (messagesOf rightOps))
    (ballotOf : Nat → Nat) (valueOf : Nat → PaxosValue)
    (uniform : ∀ ack ∈ messagesOf leftOps ++ messagesOf rightOps,
      ack.ballot = ballotOf ack.iid ∧ ack.value = valueOf ack.iid) :
    (∃ past final, Drains n leftOps past final) ∧
    (∃ past final, Drains n rightOps past final) ∧
    ∀ leftPast leftEnd rightPast rightEnd,
      Drains n leftOps leftPast leftEnd →
      Drains n rightOps rightPast rightEnd →
      ((delivered leftPast).map fun record => (record.iid, record.value)) =
          (delivered rightPast).map (fun record =>
            (record.iid, record.value)) ∧
        leftEnd.currentIid = rightEnd.currentIid ∧
        learnerHasHoles leftEnd = learnerHasHoles rightEnd := by
  refine ⟨exists_drains leftOk, exists_drains rightOk, ?_⟩
  intro leftPast leftEnd rightPast rightEnd leftDrains rightDrains
  have leftUniform := fun ack member =>
    uniform ack (List.mem_append_left _ member)
  have rightUniform := fun ack member =>
    uniform ack (List.mem_append_right _ member)
  have left := leftDrains.learned leftOk fun ack member =>
    (leftUniform ack member).1
  have right := rightDrains.learned rightOk fun ack member =>
    (rightUniform ack member).1
  have swapped : SamePairs (messagesOf rightOps) (messagesOf leftOps) :=
    fun iid aid => (samePairs iid aid).symm
  have current := Nat.le_antisymm (left.current_le right samePairs)
    (right.current_le left swapped)
  have highest := Nat.le_antisymm
    (left.highest_le right samePairs fun ack member =>
      positive ack (List.mem_append_right _ member))
    (right.highest_le left swapped fun ack member =>
      positive ack (List.mem_append_left _ member))
  have length : (delivered leftPast).length = (delivered rightPast).length := by
    have leftEq := left.current_eq
    have rightEq := right.current_eq
    omega
  refine ⟨?_, current, ?_⟩
  · rw [left.pairs_eq fun ack member => (leftUniform ack member).2,
      right.pairs_eq fun ack member => (rightUniform ack member).2, length]
  · unfold learnerHasHoles
    rw [current, highest]

/-- An accepted of an acceptor for an instance, with ballot 5. -/
def vote (iid aid : Nat) : LearnerOp :=
  .receiveAccepted
    ⟨0, iid, 5, 5, 1, [aid], PaxosValue.empty, some [⟨[7]⟩], [5], [5]⟩

theorem vote_ok {n iid aid : Nat} (known : aid < n)
    (bound : iid < 2 ^ 32 - 1) : (vote iid aid).Ok n := by
  intro ack isMessage
  cases isMessage
  refine ⟨⟨⟨⟨rfl, rfl, rfl⟩, ?_⟩, Nat.one_pos, known⟩, bound⟩
  intro array present
  cases present
  rfl

/-- The votes of two out of three acceptors for instances 1 and 3: in order with
a delivery in between, and shuffled with one of them twice. -/
theorem learning_insensitive_shuffled :
    ∃ leftPast leftEnd rightPast rightEnd,
      Drains 3 [vote 1 0, vote 1 1, .deliverNext, vote 3 0, vote 3 2]
        leftPast leftEnd ∧
      Drains 3 [vote 3 2, vote 1 1, vote 3 2, vote 3 0, vote 1 0]
        rightPast rightEnd ∧
      ((delivered leftPast).map fun record => (record.iid, record.value)) =
          (delivered rightPast).map (fun record =>
            (record.iid, record.value)) ∧
        leftEnd.currentIid = rightEnd.currentIid ∧
        learnerHasHoles leftEnd = learnerHasHoles rightEnd := by
  have learned := learning_insensitive 3
    [vote 1 0, vote 1 1, .deliverNext, vote 3 0, vote 3 2]
    [vote 3 2, vote 1 1, vote 3 2, vote 3 0, vote 1 0]
    (by
      simp only [List.mem_cons, List.not_mem_nil, or_false, forall_eq_or_imp,
        forall_eq]
      refine ⟨vote_ok ?_ ?_, vote_ok ?_ ?_, ?_, vote_ok ?_ ?_, vote_ok ?_ ?_⟩
      rotate_left 4
      · intro ack isMessage
        cases isMessage
      all_goals decide)
    (by
      simp only [List.mem_cons, List.not_mem_nil, or_false, forall_eq_or_imp,
        forall_eq]
      refine ⟨vote_ok ?_ ?_, vote_ok ?_ ?_, vote_ok ?_ ?_, vote_ok ?_ ?_,
        vote_ok ?_ ?_⟩
      all_goals decide)
    (by decide)
    (by
      intro iid aid
      simp [messagesOf, vote, LearnerOp.message, PaxosAccepted.aid]
      omega)
    (fun _ => 5) (fun _ => ⟨[7]⟩) (by decide)
  obtain ⟨⟨leftPast, leftEnd, leftDrains⟩, ⟨rightPast, rightEnd, rightDrains⟩,
    same⟩ := learned
  exact ⟨leftPast, leftEnd, rightPast, rightEnd, leftDrains, rightDrains,
    same _ _ _ _ leftDrains rightDrains⟩

end LibPaxos
