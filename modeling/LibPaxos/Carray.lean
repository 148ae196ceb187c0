import Mathlib.Data.List.Basic
import Mathlib.Data.List.Induction
import Mathlib.Data.List.Infix
import Mathlib.Data.List.Range
import Mathlib.Data.Nat.ModEq

/-!
# The ring buffer

`carray.c`: a growing ring buffer of pointers.  A slot that was never written
is `none`; the program never reads such a slot as long as the buffer is well
formed, which every operation preserves.  The contents are the occupied slots
in queue order, and the operations act on them as on a first-in first-out
queue.
-/

namespace LibPaxos

structure Carray (α : Type) where
  head : Nat
  tail : Nat
  size : Nat
  count : Nat
  array : List (Option α)

variable {α : Type}

def carrayNew (size : Nat) : Carray α :=
  ⟨0, 0, size, 0, List.replicate size none⟩

def carrayEmpty (a : Carray α) : Bool :=
  decide (a.count = 0)

def carrayFull (a : Carray α) : Bool :=
  decide (a.count = a.size)

def carrayAt (a : Carray α) (i : Nat) : Option α :=
  (a.array[(a.head + i) % a.size]?).join

/-- The part of `carray_push_back` after the test for a full buffer. -/
def carrayStore (a : Carray α) (p : Option α) : Carray α :=
  { a with
    array := a.array.set a.tail p
    tail := (a.tail + 1) % a.size
    count := a.count + 1 }

/-- The loop of `carray_grow` after `copied` rounds.  The source calls
`carray_push_back` on the copy, which has twice the size and is never full
there. -/
def carrayCopy (a : Carray α) : Nat → Carray α
  | 0 => carrayNew (a.size * 2)
  | copied + 1 => carrayStore (carrayCopy a copied) (carrayAt a copied)

def carrayGrow (a : Carray α) : Carray α :=
  { a with
    head := 0
    tail := (carrayCopy a a.count).tail
    size := (carrayCopy a a.count).size
    array := (carrayCopy a a.count).array }

def carrayPushBack (a : Carray α) (p : α) : Carray α :=
  carrayStore (if carrayFull a then carrayGrow a else a) (some p)

/-- `carray_pop_front`: the popped element, or `none` for the null pointer. -/
def carrayPopFront (a : Carray α) : Option α × Carray α :=
  if carrayEmpty a then
    (none, a)
  else
    ((a.array[a.head]?).join,
      { a with head := (a.head + 1) % a.size, count := a.count - 1 })

namespace Carray

/-- Positions inside the array, no more elements than slots, and the tail
right after the last element. -/
structure Shape (a : Carray α) : Prop where
  positive : 0 < a.size
  length_eq : a.array.length = a.size
  head_lt : a.head < a.size
  count_le : a.count ≤ a.size
  tail_eq : a.tail = (a.head + a.count) % a.size

/-- The buffer holds exactly the given elements, oldest first. -/
structure Holds (a : Carray α) (contents : List α) : Prop extends Shape a where
  length_contents : contents.length = a.count
  slot : ∀ i, i < a.count → carrayAt a i = contents[i]?

theorem carrayNew_holds {size : Nat} (positive : 0 < size) :
    (carrayNew size : Carray α).Holds [] where
  positive := positive
  length_eq := List.length_replicate
  head_lt := positive
  count_le := Nat.zero_le _
  tail_eq := (Nat.zero_mod _).symm
  length_contents := rfl
  slot := fun _ bound => absurd bound (Nat.not_lt_zero _)

/-- Two offsets below the size address different slots. -/
private theorem slot_ne
    {head size left right : Nat}
    (leftLt : left < size) (rightLt : right < size)
    (different : left ≠ right) :
    (head + left) % size ≠ (head + right) % size := by
  intro equal
  have congruent : left ≡ right [MOD size] :=
    Nat.ModEq.add_left_cancel' head equal
  exact different (congruent.eq_of_lt_of_lt leftLt rightLt)

/-- Storing into a buffer that is not full appends to the contents. -/
theorem Holds.store
    {a : Carray α} {contents : List α} (holds : a.Holds contents)
    (room : a.count < a.size) (p : α) :
    (carrayStore a (some p)).Holds (contents ++ [p]) where
  positive := holds.positive
  length_eq := by
    simp only [carrayStore, List.length_set]
    exact holds.length_eq
  head_lt := holds.head_lt
  count_le := room
  tail_eq := by
    simp only [carrayStore, holds.tail_eq, Nat.mod_add_mod, Nat.add_assoc]
  length_contents := by
    simp [carrayStore, holds.length_contents]
  slot := by
    intro i bound
    have tailLt : a.tail < a.array.length := by
      rw [holds.tail_eq, holds.length_eq]
      exact Nat.mod_lt _ holds.positive
    simp only [carrayStore] at bound
    simp only [carrayAt, carrayStore]
    by_cases last : i = a.count
    · subst last
      rw [← holds.tail_eq, List.getElem?_set_self tailLt,
        ← holds.length_contents, List.getElem?_concat_length]
      rfl
    · have older : i < a.count := by omega
      have otherSlot : a.tail ≠ (a.head + i) % a.size := by
        rw [holds.tail_eq]
        exact slot_ne room (by omega) (by omega)
      rw [List.getElem?_set_ne otherSlot,
        List.getElem?_append_left (by rw [holds.length_contents]; exact older)]
      exact holds.slot i older

@[simp]
theorem size_carrayCopy (a : Carray α) (copied : Nat) :
    (carrayCopy a copied).size = a.size * 2 := by
  induction copied with
  | zero => rfl
  | succ copied inductionHypothesis => exact inductionHypothesis

@[simp]
theorem head_carrayCopy (a : Carray α) (copied : Nat) :
    (carrayCopy a copied).head = 0 := by
  induction copied with
  | zero => rfl
  | succ copied inductionHypothesis => exact inductionHypothesis

@[simp]
theorem count_carrayCopy (a : Carray α) (copied : Nat) :
    (carrayCopy a copied).count = copied := by
  induction copied with
  | zero => rfl
  | succ copied inductionHypothesis =>
      exact congrArg Nat.succ inductionHypothesis

/-- The copy loop of `carray_grow` rebuilds the contents from the start of the
larger array. -/
theorem Holds.copy
    {a : Carray α} {contents : List α} (holds : a.Holds contents)
    {copied : Nat} (bound : copied ≤ a.count) :
    (carrayCopy a copied).Holds (contents.take copied) := by
  have positive := holds.positive
  induction copied with
  | zero => exact carrayNew_holds (by omega)
  | succ copied inductionHypothesis =>
      have countLe := holds.count_le
      have inContents : copied < contents.length := by
        rw [holds.length_contents]
        omega
      have nextEq :
          carrayAt a copied = some (contents.get ⟨copied, inContents⟩) := by
        rw [holds.slot copied (by omega)]
        exact List.getElem?_eq_getElem inContents
      have room : (carrayCopy a copied).count < (carrayCopy a copied).size := by
        rw [count_carrayCopy, size_carrayCopy]
        omega
      have stored :=
        (inductionHypothesis (by omega)).store room
          (contents.get ⟨copied, inContents⟩)
      rw [← nextEq] at stored
      rw [List.take_add_one, List.getElem?_eq_getElem inContents]
      exact stored

/-- Growing keeps the contents and makes room. -/
theorem Holds.grow
    {a : Carray α} {contents : List α} (holds : a.Holds contents) :
    (carrayGrow a).Holds contents ∧
      (carrayGrow a).count < (carrayGrow a).size := by
  have copied := holds.copy (Nat.le_refl a.count)
  have whole : contents.take a.count = contents := by
    rw [← holds.length_contents]
    exact List.take_length
  rw [whole] at copied
  have same : carrayGrow a = carrayCopy a a.count := by
    cases copyShape : carrayCopy a a.count with
    | mk head tail size count array =>
        have headEq := head_carrayCopy a a.count
        have countEq := count_carrayCopy a a.count
        rw [copyShape] at headEq countEq
        simp only at headEq countEq
        simp [carrayGrow, copyShape, headEq, countEq]
  have positive := holds.positive
  have countLe := holds.count_le
  rw [same]
  refine ⟨copied, ?_⟩
  rw [count_carrayCopy, size_carrayCopy]
  omega

/-- `carray_push_back` appends to the contents. -/
theorem Holds.pushBack
    {a : Carray α} {contents : List α} (holds : a.Holds contents) (p : α) :
    (carrayPushBack a p).Holds (contents ++ [p]) := by
  unfold carrayPushBack
  by_cases full : a.count = a.size
  · have isFull : carrayFull a = true := by simp [carrayFull, full]
    rw [if_pos isFull]
    exact holds.grow.1.store holds.grow.2 p
  · have notFull : ¬ carrayFull a = true := by simp [carrayFull, full]
    rw [if_neg notFull]
    exact holds.store (lt_of_le_of_ne holds.count_le full) p

/-- `carray_pop_front` on an empty buffer returns null and changes nothing. -/
theorem Holds.popFront_nil
    {a : Carray α} (holds : a.Holds []) :
    carrayPopFront a = (none, a) := by
  have isEmpty : carrayEmpty a = true := by
    simp [carrayEmpty, ← holds.length_contents]
  simp [carrayPopFront, isEmpty]

/-- `carray_pop_front` returns the oldest element and keeps the others. -/
theorem Holds.popFront_cons
    {a : Carray α} {oldest : α} {rest : List α}
    (holds : a.Holds (oldest :: rest)) :
    (carrayPopFront a).1 = some oldest ∧
      (carrayPopFront a).2.Holds rest := by
  have countEq : a.count = rest.length + 1 := holds.length_contents.symm
  have headLt := holds.head_lt
  have countLe := holds.count_le
  have notEmpty : ¬ carrayEmpty a = true := by
    simp [carrayEmpty, countEq]
  unfold carrayPopFront
  rw [if_neg notEmpty]
  refine ⟨?_, ?_⟩
  · have oldestSlot := holds.slot 0 (by omega)
    simpa [carrayAt, Nat.mod_eq_of_lt headLt] using oldestSlot
  · refine ⟨⟨holds.positive, holds.length_eq,
      Nat.mod_lt _ holds.positive, by simp only; omega, ?_⟩, by simp [countEq], ?_⟩
    · have shifted : a.head + 1 + (a.count - 1) = a.head + a.count := by omega
      simp only [Nat.mod_add_mod, shifted]
      exact holds.tail_eq
    · intro i bound
      simp only at bound
      have nextSlot := holds.slot (i + 1) (by omega)
      have shifted : a.head + 1 + i = a.head + (i + 1) := by omega
      simp only [carrayAt, Nat.mod_add_mod, shifted]
      simpa [carrayAt] using nextSlot

/-- The occupied slots in queue order. -/
def contents (a : Carray α) : List α :=
  (List.range a.count).filterMap (carrayAt a)

/-- The elements a buffer holds are its occupied slots. -/
theorem Holds.contents_eq
    {a : Carray α} {elements : List α} (holds : a.Holds elements) :
    a.contents = elements := by
  unfold contents
  have slots :
      (List.range a.count).filterMap (carrayAt a) =
        (List.range elements.length).filterMap (fun i => elements[i]?) := by
    rw [holds.length_contents]
    apply List.filterMap_congr
    intro i member
    exact holds.slot i (List.mem_range.mp member)
  rw [slots]
  clear slots holds
  induction elements using List.reverseRecOn with
  | nil => rfl
  | append_singleton front last inductionHypothesis =>
      rw [List.length_append, List.length_singleton, List.range_succ,
        List.filterMap_append]
      have sameFront :
          (List.range front.length).filterMap
              (fun i => (front ++ [last])[i]?) =
            (List.range front.length).filterMap (fun i => front[i]?) := by
        apply List.filterMap_congr
        intro i member
        exact List.getElem?_append_left (List.mem_range.mp member)
      rw [sameFront, inductionHypothesis]
      simp

end Carray

/-- A ring buffer that is well formed by construction. -/
def Queue (α : Type) : Type :=
  { a : Carray α // a.Holds a.contents }

namespace Queue

/-- The queued elements, oldest first. -/
def contents (queue : Queue α) : List α :=
  queue.val.contents

/-- `carray_new` with a positive size. -/
def ofSize (size : Nat) (positive : 0 < size) : Queue α :=
  ⟨carrayNew size, Carray.carrayNew_holds positive⟩

def pushBack (queue : Queue α) (p : α) : Queue α :=
  ⟨carrayPushBack queue.val p, by
    have pushed := queue.property.pushBack p
    rwa [pushed.contents_eq]⟩

/-- Popping leaves a well-formed buffer. -/
theorem popFront_holds (queue : Queue α) :
    (carrayPopFront queue.val).2.Holds (carrayPopFront queue.val).2.contents := by
  have holds := queue.property
  cases shape : queue.val.contents with
  | nil =>
      rw [shape] at holds
      rw [holds.popFront_nil]
      exact queue.property
  | cons oldest rest =>
      rw [shape] at holds
      have popped := holds.popFront_cons.2
      rwa [popped.contents_eq]

def popFront (queue : Queue α) : Option α × Queue α :=
  ((carrayPopFront queue.val).1,
    ⟨(carrayPopFront queue.val).2, queue.popFront_holds⟩)

@[simp]
theorem contents_pushBack (queue : Queue α) (p : α) :
    (queue.pushBack p).contents = queue.contents ++ [p] :=
  (queue.property.pushBack p).contents_eq

/-- Popping returns the oldest element, if any, and keeps the others. -/
theorem popFront_spec (queue : Queue α) :
    queue.contents =
      queue.popFront.1.toList ++ queue.popFront.2.contents := by
  have holds := queue.property
  cases shape : queue.val.contents with
  | nil =>
      rw [shape] at holds
      simp only [contents, popFront, holds.popFront_nil, shape]
      rfl
  | cons oldest rest =>
      rw [shape] at holds
      obtain ⟨first, others⟩ := holds.popFront_cons
      simp only [contents, popFront, first, others.contents_eq, shape]
      rfl

/-- The null pointer is returned exactly on an empty queue, which stays as it
is. -/
theorem popFront_none
    {queue : Queue α} (missing : queue.popFront.1 = none) :
    queue.popFront.2 = queue := by
  have holds := queue.property
  cases shape : queue.val.contents with
  | nil =>
      rw [shape] at holds
      apply Subtype.ext
      simp only [popFront, holds.popFront_nil]
  | cons oldest rest =>
      rw [shape] at holds
      have first := holds.popFront_cons.1
      rw [popFront] at missing
      rw [missing] at first
      cases first

/-- Popping returns the first of the queued elements. -/
theorem popFront_fst (queue : Queue α) :
    queue.popFront.1 = queue.contents.head? := by
  have holds := queue.property
  unfold contents
  cases shape : queue.val.contents with
  | nil =>
      rw [shape] at holds
      simp only [popFront, holds.popFront_nil]
      rfl
  | cons oldest rest =>
      rw [shape] at holds
      exact holds.popFront_cons.1

/-- Popping leaves the queued elements after the first. -/
theorem contents_popFront (queue : Queue α) :
    queue.popFront.2.contents = queue.contents.tail := by
  have whole := queue.popFront_spec
  rw [popFront_fst] at whole
  cases shape : queue.contents with
  | nil =>
      rw [shape] at whole
      exact whole.symm
  | cons oldest rest =>
      rw [shape] at whole
      exact (List.cons.inj whole).2.symm

end Queue

/-! ### Runs -/

/-- `carray_foreach`: what the callback gets, in order. -/
def carrayForeach (a : Carray α) : List (Option α) :=
  (List.range a.count).map (carrayAt a)

inductive CarrayOp (α : Type) where
  | pushBack (p : α)
  | popFront

/-- Calls one after the other: what the pops return, and the buffer
afterwards. -/
def carrayRun : Carray α → List (CarrayOp α) → List (Option α) × Carray α
  | a, [] => ([], a)
  | a, .pushBack p :: rest => carrayRun (carrayPushBack a p) rest
  | a, .popFront :: rest =>
      let (popped, a) := carrayPopFront a
      let (later, a) := carrayRun a rest
      (popped :: later, a)

/-- The same calls on an unbounded queue. -/
def fifoRun : List α → List (CarrayOp α) → List (Option α) × List α
  | queue, [] => ([], queue)
  | queue, .pushBack p :: rest => fifoRun (queue ++ [p]) rest
  | queue, .popFront :: rest =>
      let (later, left) := fifoRun queue.tail rest
      (queue.head? :: later, left)

namespace Carray

/-- Whatever is called next, every index is inside its array, no `int` passes
its greatest value, and the copy that `carray_grow` fills never grows
itself. -/
structure InBounds (a : Carray α) : Prop where
  head : a.head < a.array.length
  tail : a.tail < a.array.length ∧ a.tail + 1 < 2 ^ 31
  count : a.count + 1 < 2 ^ 31
  slot : ∀ i, i < a.count →
    (a.head + i) % a.size < a.array.length ∧ a.head + i < 2 ^ 31
  double : a.size * 2 < 2 ^ 31
  copy : ∀ copied, copied < a.count →
    (carrayCopy a copied).tail < (carrayCopy a copied).array.length ∧
      (carrayCopy a copied).tail + 1 < 2 ^ 31 ∧
      carrayFull (carrayCopy a copied) = false

theorem Shape.tail_lt {a : Carray α} (shape : a.Shape) :
    a.tail < a.array.length := by
  rw [shape.tail_eq, shape.length_eq]
  exact Nat.mod_lt _ shape.positive

theorem Holds.inBounds
    {a : Carray α} {contents : List α} (holds : a.Holds contents)
    (capacity : a.size < 2 ^ 30) :
    a.InBounds := by
  have lengthEq := holds.length_eq
  have headLt := holds.head_lt
  have countLe := holds.count_le
  have tailLt := holds.tail_lt
  refine ⟨by omega, ⟨tailLt, by omega⟩, by omega, ?_, by omega, ?_⟩
  · intro i bound
    refine ⟨?_, by omega⟩
    rw [lengthEq]
    exact Nat.mod_lt _ holds.positive
  · intro copied bound
    have copy := holds.copy (Nat.le_of_lt bound)
    have copyTail := copy.tail_lt
    have copyLength := copy.length_eq
    rw [size_carrayCopy] at copyLength
    refine ⟨copyTail, by omega, ?_⟩
    rw [carrayFull, count_carrayCopy, size_carrayCopy, decide_eq_false_iff_not]
    omega

theorem Holds.foreach_eq
    {a : Carray α} {contents : List α} (holds : a.Holds contents) :
    carrayForeach a = contents.map some := by
  apply List.ext_getElem
  · simp only [carrayForeach, List.length_map, List.length_range,
      holds.length_contents]
  · intro i bound otherBound
    have inContents : i < contents.length := by
      rwa [List.length_map] at otherBound
    simp only [carrayForeach, List.getElem_map, List.getElem_range]
    rw [holds.slot i (holds.length_contents ▸ inContents)]
    exact List.getElem?_eq_getElem inContents

theorem Holds.empty_iff
    {a : Carray α} {contents : List α} (holds : a.Holds contents) :
    carrayEmpty a = true ↔ contents = [] := by
  rw [carrayEmpty, decide_eq_true_eq, ← holds.length_contents,
    List.length_eq_zero_iff]

/-- One pop. -/
theorem Holds.popFront
    {a : Carray α} {contents : List α} (holds : a.Holds contents) :
    (carrayPopFront a).1 = contents.head? ∧
      (carrayPopFront a).2.Holds contents.tail := by
  cases contents with
  | nil =>
      rw [holds.popFront_nil]
      exact ⟨rfl, holds⟩
  | cons oldest rest => exact holds.popFront_cons

/-- Calls on a buffer and on the queue that it holds return the same, and the
buffer still holds the queue. -/
theorem Holds.run (ops : List (CarrayOp α)) :
    ∀ {a : Carray α} {contents : List α}, a.Holds contents →
      (carrayRun a ops).1 = (fifoRun contents ops).1 ∧
        (carrayRun a ops).2.Holds (fifoRun contents ops).2 := by
  induction ops with
  | nil =>
      intro a contents holds
      exact ⟨rfl, holds⟩
  | cons op rest inductionHypothesis =>
      intro a contents holds
      cases op with
      | pushBack p => exact inductionHypothesis (holds.pushBack p)
      | popFront =>
          obtain ⟨first, others⟩ := holds.popFront
          obtain ⟨later, left⟩ := inductionHypothesis others
          refine ⟨?_, left⟩
          simp only [carrayRun, fifoRun, first, later]

end Carray

/-- Over every sequence of calls a ring buffer is a first-in first-out queue:
the pops return what the queue returns, `carray_empty` and `carray_foreach` see
what it still holds, growing does not change that, and as long as the capacity
is below `2 ^ 30` no index leaves an array and no `int` overflows. -/
theorem carray_is_fifo
    {size : Nat} (positive : 1 ≤ size) (ops : List (CarrayOp α))
    (capacity : ∀ earlier, earlier <+: ops →
      (carrayRun (carrayNew size : Carray α) earlier).2.size < 2 ^ 30) :
    (carrayRun (carrayNew size) ops).1 = (fifoRun [] ops).1 ∧
      ∀ earlier, earlier <+: ops →
        (carrayForeach (carrayRun (carrayNew size) earlier).2 =
            (fifoRun [] earlier).2.map some) ∧
          (carrayEmpty (carrayRun (carrayNew size) earlier).2 = true ↔
            (fifoRun [] earlier).2 = []) ∧
          carrayForeach (carrayGrow (carrayRun (carrayNew size) earlier).2) =
            (fifoRun [] earlier).2.map some ∧
          (carrayRun (carrayNew size) earlier).2.InBounds := by
  have started : (carrayNew size : Carray α).Holds [] :=
    Carray.carrayNew_holds positive
  refine ⟨(Carray.Holds.run ops started).1, ?_⟩
  intro earlier before
  have holds := (Carray.Holds.run earlier started).2
  exact ⟨holds.foreach_eq, holds.empty_iff, holds.grow.1.foreach_eq,
    holds.inBounds (capacity earlier before)⟩

def oneSlotOps : List (CarrayOp Nat) :=
  [.pushBack 1, .pushBack 2, .popFront, .pushBack 3, .pushBack 4, .popFront,
    .popFront, .popFront, .popFront]

/-- A buffer of one slot grows twice, the second time with its elements wrapped
around. -/
theorem carray_is_fifo_wrapped :
    (carrayRun (carrayNew 1) oneSlotOps).1 =
      [some 1, some 2, some 3, some 4, none] := by
  have small : ∀ earlier ∈ oneSlotOps.inits,
      (carrayRun (carrayNew 1 : Carray Nat) earlier).2.size < 2 ^ 30 := by
    decide
  refine (carray_is_fifo (Nat.le_refl 1) oneSlotOps ?_).1
  intro earlier before
  exact small earlier ((List.mem_inits earlier oneSlotOps).mpr before)

end LibPaxos
