import LibPaxos.Types
import LibPaxos.Library.Majority
import Mathlib.Data.Finset.Range
import Mathlib.Data.Finset.Filter
import Mathlib.Data.List.Count

/-!
# Quorums

`quorum.c` marks acceptor ids in an array and counts the marks.  The structure
carries what `quorum_init` establishes: the array has one slot per acceptor,
the threshold is `paxos_quorum`, and the counter is the number of marked slots.

The source indexes the array without a bounds check.  `quorumAdd` has no result
for an id outside the array, where the C program writes outside its memory.
-/

namespace LibPaxos

open LibPaxos.Library

structure Quorum where
  count : Nat
  quorum : Nat
  acceptors : Nat
  acceptorIds : List Bool
  sizeEq : acceptorIds.length = acceptors
  quorumEq : quorum = paxosQuorum acceptors
  countEq : count = acceptorIds.count true
  deriving DecidableEq

def quorumClear (q : Quorum) : Quorum where
  count := 0
  quorum := q.quorum
  acceptors := q.acceptors
  acceptorIds := List.replicate q.acceptors false
  sizeEq := List.length_replicate
  quorumEq := q.quorumEq
  countEq := by simp [List.count_replicate]

def quorumInit (acceptors : Nat) : Quorum where
  count := 0
  quorum := paxosQuorum acceptors
  acceptors := acceptors
  acceptorIds := List.replicate acceptors false
  sizeEq := List.length_replicate
  quorumEq := rfl
  countEq := by simp [List.count_replicate]

/-- Marking an unmarked slot adds one to the number of marks. -/
theorem count_true_set
    {marks : List Bool} {id : Nat} (unmarked : marks[id]? = some false) :
    (marks.set id true).count true = marks.count true + 1 := by
  induction marks generalizing id with
  | nil => simp at unmarked
  | cons mark rest inductionHypothesis =>
      cases id with
      | zero =>
          simp only [List.getElem?_cons_zero, Option.some.injEq] at unmarked
          subst unmarked
          simp
      | succ id =>
          simp only [List.getElem?_cons_succ] at unmarked
          simp only [List.set_cons_succ, List.count_cons,
            inductionHypothesis unmarked]
          omega

/-- `quorum_add`: whether the id was new, and the quorum afterwards. -/
def quorumAdd (q : Quorum) (id : Nat) : Option (Bool × Quorum) :=
  match mark : q.acceptorIds[id]? with
  | none => none
  | some true => some (false, q)
  | some false =>
      some (true,
        { count := q.count + 1
          quorum := q.quorum
          acceptors := q.acceptors
          acceptorIds := q.acceptorIds.set id true
          sizeEq := by rw [List.length_set, q.sizeEq]
          quorumEq := q.quorumEq
          countEq := by rw [count_true_set mark, q.countEq] })

def quorumReached (q : Quorum) : Bool :=
  decide (q.quorum ≤ q.count)

namespace Quorum

def marked (q : Quorum) : Finset Nat :=
  (Finset.range q.acceptors).filter fun id => q.acceptorIds[id]? = some true

theorem mem_marked {q : Quorum} {id : Nat} :
    id ∈ q.marked ↔ q.acceptorIds[id]? = some true := by
  unfold marked
  rw [Finset.mem_filter, Finset.mem_range]
  constructor
  · exact fun member => member.2
  · intro mark
    refine ⟨?_, mark⟩
    obtain ⟨bound, _⟩ := List.getElem?_eq_some_iff.mp mark
    rwa [q.sizeEq] at bound

/-- A quorum is determined by its marked ids. -/
theorem ext_marked {left right : Quorum}
    (sameSize : left.acceptors = right.acceptors)
    (sameMarks : left.marked = right.marked) :
    left = right := by
  have sameIds : left.acceptorIds = right.acceptorIds := by
    apply List.ext_getElem
    · rw [left.sizeEq, right.sizeEq, sameSize]
    · intro id leftBound rightBound
      have same := Finset.ext_iff.mp sameMarks id
      rw [mem_marked, mem_marked, List.getElem?_eq_getElem leftBound,
        List.getElem?_eq_getElem rightBound, Option.some.injEq,
        Option.some.injEq] at same
      exact Bool.eq_iff_iff.mpr same
  have sameCount : left.count = right.count := by
    rw [left.countEq, right.countEq, sameIds]
  have sameQuorum : left.quorum = right.quorum := by
    rw [left.quorumEq, right.quorumEq, sameSize]
  cases left
  cases right
  simp only at sameSize sameIds sameCount sameQuorum
  subst sameSize sameIds sameCount sameQuorum
  rfl

theorem marked_subset (q : Quorum) :
    q.marked ⊆ Finset.range q.acceptors :=
  Finset.filter_subset _ _

/-- The counter counts the distinct marked ids. -/
theorem count_eq_card_marked (q : Quorum) : q.count = q.marked.card := by
  have counted := card_indices q.acceptorIds id
  rw [q.sizeEq] at counted
  rw [q.countEq, List.count, ← List.countP_congr, ← counted]
  · unfold marked
    congr 1
    apply Finset.filter_congr
    intro index _
    cases q.acceptorIds[index]? with
    | none => simp
    | some mark => simp
  · intro mark _
    simp

/-- A reached quorum is a majority of the acceptor ids. -/
theorem reached_iff_isMajority (q : Quorum) :
    quorumReached q = true ↔
      IsMajority (Finset.range q.acceptors) q.marked := by
  unfold quorumReached IsMajority
  rw [decide_eq_true_eq, q.quorumEq, q.count_eq_card_marked,
    Finset.card_range]
  exact ⟨fun enough => ⟨q.marked_subset, enough⟩, fun both => both.2⟩

@[simp]
theorem marked_quorumClear (q : Quorum) : (quorumClear q).marked = ∅ := by
  apply Finset.eq_empty_of_forall_notMem
  intro id member
  rw [mem_marked] at member
  simp [quorumClear, List.getElem?_replicate] at member

@[simp]
theorem marked_quorumInit (acceptors : Nat) :
    (quorumInit acceptors).marked = ∅ := by
  apply Finset.eq_empty_of_forall_notMem
  intro id member
  rw [mem_marked] at member
  simp [quorumInit, List.getElem?_replicate] at member

@[simp]
theorem acceptors_quorumClear (q : Quorum) :
    (quorumClear q).acceptors = q.acceptors :=
  rfl

/-- An id in range can be added. -/
theorem exists_quorumAdd {q : Quorum} {id : Nat} (bound : id < q.acceptors) :
    ∃ fresh result, quorumAdd q id = some (fresh, result) := by
  rw [← q.sizeEq] at bound
  have mark := List.getElem?_eq_getElem bound
  unfold quorumAdd
  split
  · next missing =>
      rw [mark] at missing
      cases missing
  · exact ⟨false, q, rfl⟩
  · exact ⟨true, _, rfl⟩

/-- What an addition does: the id is in range and becomes marked, and the
result tells whether it was unmarked before. -/
theorem quorumAdd_spec
    {q result : Quorum} {id : Nat} {fresh : Bool}
    (added : quorumAdd q id = some (fresh, result)) :
    result.acceptors = q.acceptors ∧
      result.marked = insert id q.marked ∧
      (fresh = true ↔ id ∉ q.marked) ∧
      id < q.acceptors ∧
      (fresh = false → result = q) := by
  unfold quorumAdd at added
  split at added
  · cases added
  · rename_i mark
    cases added
    have member : id ∈ q.marked := mem_marked.mpr mark
    have bound := Finset.mem_range.mp (q.marked_subset member)
    exact ⟨rfl, (Finset.insert_eq_self.mpr member).symm,
      by simp [member], bound, fun _ => rfl⟩
  · rename_i mark
    cases added
    have absent : id ∉ q.marked := by
      rw [mem_marked, mark]
      simp
    obtain ⟨bound, _⟩ := List.getElem?_eq_some_iff.mp mark
    refine ⟨rfl, ?_, by simp [absent], q.sizeEq ▸ bound, by simp⟩
    ext other
    rw [Finset.mem_insert, mem_marked, mem_marked]
    by_cases same : other = id
    · subst same
      simp [bound]
    · simp [List.getElem?_set_ne (Ne.symm same), same]

end Quorum

/-! ### Runs -/

inductive QuorumOp where
  | add (id : Nat)
  | clear

def quorumRun : Quorum → List QuorumOp → Option Quorum
  | q, [] => some q
  | q, .add id :: rest =>
      match quorumAdd q id with
      | none => none
      | some (_, q) => quorumRun q rest
  | q, .clear :: rest => quorumRun (quorumClear q) rest

/-- The ids after one more call: a clear forgets them. -/
def addedAfter (ids : Finset Nat) : QuorumOp → Finset Nat
  | .add id => insert id ids
  | .clear => ∅

/-- The ids added since the last clear. -/
def addedIds (ops : List QuorumOp) : Finset Nat :=
  ops.foldl addedAfter ∅

def IdsBelow (n : Nat) (ops : List QuorumOp) : Prop :=
  ∀ id, .add id ∈ ops → id < n

theorem quorumRun_marked {n : Nat} (ops : List QuorumOp) :
    ∀ {q : Quorum}, q.acceptors = n → IdsBelow n ops →
      ∃ after, quorumRun q ops = some after ∧ after.acceptors = n ∧
        after.marked = ops.foldl addedAfter q.marked := by
  induction ops with
  | nil =>
      intro q sized _
      exact ⟨q, rfl, sized, rfl⟩
  | cons op rest inductionHypothesis =>
      intro q sized below
      have belowRest : IdsBelow n rest := by
        intro id member
        exact below id (List.mem_cons_of_mem op member)
      cases op with
      | clear =>
          obtain ⟨after, ran, afterSized, marked⟩ :=
            inductionHypothesis (q := quorumClear q) sized belowRest
          refine ⟨after, ran, afterSized, ?_⟩
          rw [marked, Quorum.marked_quorumClear]
          rfl
      | add id =>
          have bound : id < q.acceptors := by
            rw [sized]
            exact below id List.mem_cons_self
          obtain ⟨fresh, added, isAdded⟩ := Quorum.exists_quorumAdd bound
          obtain ⟨sameSize, inserted, _⟩ := Quorum.quorumAdd_spec isAdded
          obtain ⟨after, ran, afterSized, marked⟩ :=
            inductionHypothesis (sameSize.trans sized) belowRest
          refine ⟨after, ?_, afterSized, ?_⟩
          · simp only [quorumRun, isAdded]
            exact ran
          · rw [marked, inserted]
            rfl

/-- After every sequence of calls on a new quorum the marked ids are those added
since the last clear. -/
theorem quorumRun_init {n : Nat} {ops : List QuorumOp}
    (below : IdsBelow n ops) :
    ∃ q, quorumRun (quorumInit n) ops = some q ∧ q.acceptors = n ∧
      q.marked = addedIds ops := by
  obtain ⟨q, ran, sized, marked⟩ :=
    quorumRun_marked (q := quorumInit n) ops rfl below
  rw [Quorum.marked_quorumInit] at marked
  exact ⟨q, ran, sized, marked⟩

/-- A quorum counts the distinct ids added since the last clear, an addition
says whether its id is new among them, and a quorum is reached when they are
more than half of the acceptors.  So two reached quorums share an id. -/
theorem quorums_count_and_intersect (n : Nat) :
    (∀ ops, IdsBelow n ops →
      ∃ q, quorumRun (quorumInit n) ops = some q ∧
        q.count = (addedIds ops).card ∧
        (quorumReached q = true ↔ n < 2 * (addedIds ops).card) ∧
        ∀ id, id < n →
          ∃ fresh after, quorumAdd q id = some (fresh, after) ∧
            (fresh = true ↔ id ∉ addedIds ops)) ∧
    ∀ leftOps rightOps left right, IdsBelow n leftOps → IdsBelow n rightOps →
      quorumRun (quorumInit n) leftOps = some left →
      quorumRun (quorumInit n) rightOps = some right →
      quorumReached left = true → quorumReached right = true →
      ∃ id, id < n ∧ id ∈ addedIds leftOps ∧ id ∈ addedIds rightOps := by
  constructor
  · intro ops below
    obtain ⟨q, ran, sized, marked⟩ := quorumRun_init below
    refine ⟨q, ran, ?_, ?_, ?_⟩
    · rw [← marked]
      exact q.count_eq_card_marked
    · rw [quorumReached, decide_eq_true_eq, q.quorumEq,
        q.count_eq_card_marked, sized, marked, paxosQuorum]
      omega
    · intro id bound
      rw [← sized] at bound
      obtain ⟨fresh, after, added⟩ := Quorum.exists_quorumAdd bound
      refine ⟨fresh, after, added, ?_⟩
      rw [← marked]
      exact (Quorum.quorumAdd_spec added).2.2.1
  · intro leftOps rightOps left right leftBelow rightBelow leftRan rightRan
      leftReached rightReached
    obtain ⟨first, firstRan, leftSized, leftMarked⟩ := quorumRun_init leftBelow
    obtain ⟨second, secondRan, rightSized, rightMarked⟩ :=
      quorumRun_init rightBelow
    rw [leftRan] at firstRan
    rw [rightRan] at secondRan
    cases firstRan
    cases secondRan
    have leftMajority := left.reached_iff_isMajority.mp leftReached
    have rightMajority := right.reached_iff_isMajority.mp rightReached
    rw [leftSized, leftMarked] at leftMajority
    rw [rightSized, rightMarked] at rightMajority
    obtain ⟨id, inLeft, inRight⟩ :=
      leftMajority.exists_common rightMajority
    exact ⟨id, Finset.mem_range.mp (leftMajority.1 inLeft), inLeft, inRight⟩

/-- Of three acceptors two answer, one of them twice and once before a
clear. -/
theorem quorums_count_and_intersect_of_three :
    ∃ q, quorumRun (quorumInit 3) [.add 2, .clear, .add 0, .add 0, .add 1] =
        some q ∧ q.count = 2 ∧ quorumReached q = true := by
  have below : IdsBelow 3 [.add 2, .clear, .add 0, .add 0, .add 1] := by
    intro id member
    simp only [List.mem_cons, QuorumOp.add.injEq, reduceCtorEq, false_or,
      List.not_mem_nil, or_false] at member
    omega
  obtain ⟨q, ran, count, reached, _⟩ :=
    (quorums_count_and_intersect 3).1 _ below
  exact ⟨q, ran, count, reached.mpr (by decide)⟩

end LibPaxos
