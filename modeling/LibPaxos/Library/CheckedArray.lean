import Mathlib.Data.List.Basic

/-!
# Arrays with checked accesses

The loops that a program runs over an array, written with the index of every
access.  An access outside the array gives `none`; reading is `xs[i]?`.  Over
the whole array the loops do what the list functions do.
-/

namespace LibPaxos.Library

namespace CheckedArray

variable {α : Type}

def write (array : List α) (i : Nat) (value : α) : Option (List α) :=
  if i < array.length then some (array.set i value) else none

/-- Write a value at `count` places from index `i` on. -/
def fill (value : α) : Nat → Nat → List α → Option (List α)
  | 0, _, array => some array
  | count + 1, i, array =>
      (write array i value).bind (fill value count (i + 1))

/-- Move `count` values down by one place, to the places from index `i` on. -/
def shiftDown : Nat → Nat → List α → Option (List α)
  | 0, _, array => some array
  | count + 1, i, array =>
      array[i + 1]?.bind fun next =>
        (write array i next).bind (shiftDown count (i + 1))

/-- Look for a value in `count` places from index `i` on. -/
def contains [DecidableEq α] (value : α) :
    Nat → Nat → List α → Option Bool
  | 0, _, _ => some false
  | count + 1, i, array =>
      array[i]?.bind fun found =>
        if found = value then some true else contains value count (i + 1) array

/-- Run a body for `count` indices from `i` on. -/
def forEach {σ : Type} (body : σ → Nat → Option σ) :
    Nat → Nat → σ → Option σ
  | 0, _, state => some state
  | count + 1, i, state =>
      (body state i).bind (forEach body count (i + 1))

@[simp]
theorem getElem?_append_length (before : List α) (value : α)
    (rest : List α) :
    (before ++ value :: rest)[before.length]? = some value := by
  simp

theorem write_append_length (before : List α) (old value : α)
    (rest : List α) :
    write (before ++ old :: rest) before.length value =
      some (before ++ value :: rest) := by
  simp [write]

theorem fill_append (value : α) (rest : List α) :
    ∀ before : List α,
      fill value rest.length before.length (before ++ rest) =
        some (before ++ List.replicate rest.length value) := by
  induction rest with
  | nil =>
      intro before
      rfl
  | cons old rest inductionHypothesis =>
      intro before
      have next := inductionHypothesis (before ++ [value])
      rw [List.length_append, List.length_singleton, List.append_assoc,
        List.singleton_append] at next
      rw [List.length_cons, fill, write_append_length, Option.bind_some, next,
        List.append_assoc, List.singleton_append, List.replicate_succ]

theorem fill_all (value : α) (array : List α) :
    fill value array.length 0 array =
      some (List.replicate array.length value) :=
  fill_append value array []

theorem shiftDown_append (rest : List α) :
    ∀ (before : List α) (first : α),
      shiftDown rest.length before.length (before ++ first :: rest) =
        some (before ++ rest ++ [rest.getLastD first]) := by
  induction rest with
  | nil =>
      intro before first
      rw [List.append_nil]
      rfl
  | cons next rest inductionHypothesis =>
      intro before first
      have step := inductionHypothesis (before ++ [next]) next
      rw [List.length_append, List.length_singleton, List.append_assoc,
        List.singleton_append] at step
      have read : (before ++ first :: next :: rest)[before.length + 1]? =
          some next := by
        simp
      rw [List.length_cons, shiftDown, read, Option.bind_some,
        write_append_length, Option.bind_some, step, List.getLastD_cons]
      simp

/-- Move everything down by one place and write a value at the last one. -/
theorem shiftDown_write (first : α) (rest : List α) (value : α) :
    (shiftDown rest.length 0 (first :: rest)).bind
        (fun array => write array rest.length value) =
      some (rest ++ [value]) := by
  have shifted := shiftDown_append rest [] first
  rw [List.length_nil, List.nil_append, List.nil_append] at shifted
  rw [shifted, Option.bind_some, write_append_length]

theorem contains_append [DecidableEq α] (value : α) (rest : List α) :
    ∀ before : List α,
      contains value rest.length before.length (before ++ rest) =
        some (decide (value ∈ rest)) := by
  induction rest with
  | nil =>
      intro before
      rfl
  | cons found rest inductionHypothesis =>
      intro before
      have next := inductionHypothesis (before ++ [found])
      rw [List.length_append, List.length_singleton, List.append_assoc,
        List.singleton_append] at next
      rw [List.length_cons, contains, getElem?_append_length,
        Option.bind_some]
      by_cases same : found = value
      · simp [same]
      · rw [if_neg same, next]
        simp [Ne.symm same]

theorem contains_all [DecidableEq α] (value : α) (array : List α) :
    contains value array.length 0 array = some (decide (value ∈ array)) :=
  contains_append value array []

/-- A loop over the indices of an array is a fold of the array, when the body
does what the step does with the value at the index. -/
theorem forEach_append {β σ : Type} {array : List β}
    {body : σ → Nat → Option σ} {step : σ → β → σ} {keeps : σ → Prop}
    (kept : ∀ state entry, entry ∈ array → keeps state →
      keeps (step state entry))
    (agree : ∀ state i entry, array[i]? = some entry → keeps state →
      body state i = some (step state entry))
    (rest : List β) :
    ∀ (before : List β) (state : σ), array = before ++ rest → keeps state →
      forEach body rest.length before.length state =
        some (rest.foldl step state) := by
  induction rest with
  | nil =>
      intro before state _ _
      rfl
  | cons entry rest inductionHypothesis =>
      intro before state split holds
      have found : array[before.length]? = some entry := by
        rw [split]
        exact getElem?_append_length before entry rest
      have next := inductionHypothesis (before ++ [entry])
        (step state entry) (by rw [split]; simp)
        (kept state entry (List.mem_of_getElem? found) holds)
      rw [List.length_append, List.length_singleton] at next
      rw [List.length_cons, forEach, agree state _ entry found holds,
        Option.bind_some, next, List.foldl_cons]

theorem forEach_all {β σ : Type} {array : List β}
    {body : σ → Nat → Option σ} {step : σ → β → σ} {keeps : σ → Prop}
    (kept : ∀ state entry, entry ∈ array → keeps state →
      keeps (step state entry))
    (agree : ∀ state i entry, array[i]? = some entry → keeps state →
      body state i = some (step state entry))
    (state : σ) (holds : keeps state) :
    forEach body array.length 0 state = some (array.foldl step state) :=
  forEach_append kept agree array [] state rfl holds

/-- A loop whose body takes what holds before an index to what holds before the
next one has a result. -/
theorem forEach_invariant {σ : Type} {body : σ → Nat → Option σ}
    {before : Nat → σ → Prop} {total : Nat}
    (step : ∀ i state, i < total → before i state →
      ∃ after, body state i = some after ∧ before (i + 1) after)
    (count : Nat) :
    ∀ (i : Nat) (state : σ), i + count = total → before i state →
      ∃ final, forEach body count i state = some final ∧
        before total final := by
  induction count with
  | zero =>
      intro i state reached holds
      rw [Nat.add_zero] at reached
      rw [reached] at holds
      exact ⟨state, rfl, holds⟩
  | succ count inductionHypothesis =>
      intro i state reached holds
      obtain ⟨after, ran, next⟩ := step i state (by omega) holds
      rw [forEach, ran, Option.bind_some]
      exact inductionHypothesis (i + 1) after (by omega) next

end CheckedArray

end LibPaxos.Library
