import LibPaxos.Library.Table
import Mathlib.Logic.Function.Basic

/-!
# Open addressing

A table of buckets in which every key has a path: the buckets that a search for
the key looks at, in order.  A bucket is vacant, or holds an entry, or was left
by a removed one.  A search may stop at the first vacant bucket of the path, as
long as no entry lies beyond a vacant bucket of its own path.

The second half moves the entries of a table to another table that lies in the
same memory, where an entry is put into a bucket before the entry of the old
table that is still there has been moved.
-/

namespace LibPaxos.Library

universe u v

inductive Slot (κ : Type u) (α : Type v) where
  | vacant
  | deleted
  | live (key : κ) (value : α)

namespace Slot

variable {κ : Type u} {α : Type v}

def entry : Slot κ α → Option (κ × α)
  | vacant => none
  | deleted => none
  | live key value => some (key, value)

/-- A mark on every bucket that is not vacant. -/
def mark : Slot κ α → Option Unit
  | vacant => none
  | deleted => some ()
  | live _ _ => some ()

theorem entry_eq_some_iff {slot : Slot κ α} {key : κ} {value : α} :
    slot.entry = some (key, value) ↔ slot = live key value := by
  cases slot <;> simp [entry]

theorem mark_eq_none_iff {slot : Slot κ α} :
    slot.mark = none ↔ slot = vacant := by
  cases slot <;> simp [mark]

end Slot

namespace Buckets

section Collect

variable {β : Type u}

/-- What is found in the buckets below a bound, in their order. -/
def collect (n : Nat) (found : Nat → Option β) : List β :=
  (List.range n).filterMap found

theorem mem_collect_iff {n : Nat} {found : Nat → Option β} {item : β} :
    item ∈ collect n found ↔ ∃ i, i < n ∧ found i = some item := by
  simp [collect, List.mem_filterMap]

theorem collect_succ (n : Nat) (found : Nat → Option β) :
    collect (n + 1) found = collect n found ++ (found n).toList := by
  rw [collect, List.range_succ, List.filterMap_append]
  cases isFound : found n with
  | none => simp [collect, isFound]
  | some item => simp [collect, isFound]

theorem length_collect_le (n : Nat) (found : Nat → Option β) :
    (collect n found).length ≤ n := by
  have short := List.length_filterMap_le found (List.range n)
  rwa [List.length_range] at short

/-- A change at one bucket changes the list at one place. -/
theorem collect_split {n i : Nat} (bound : i < n) (found : Nat → Option β) :
    ∃ before after, ∀ other : Nat → Option β,
      (∀ j, j ≠ i → other j = found j) →
        collect n other = before ++ (other i).toList ++ after := by
  obtain ⟨front, rest, split⟩ :=
    List.mem_iff_append.mp (List.mem_range.mpr bound)
  have distinct := List.nodup_range (n := n)
  rw [split, List.nodup_middle, List.nodup_cons, List.mem_append,
    not_or] at distinct
  refine ⟨front.filterMap found, rest.filterMap found, ?_⟩
  intro other unchanged
  have same : ∀ part : List Nat, i ∉ part →
      part.filterMap other = part.filterMap found := by
    intro part absent
    apply List.filterMap_congr
    intro j member
    apply unchanged
    rintro rfl
    exact absent member
  rw [collect, split, List.filterMap_append, List.filterMap_cons,
    same front distinct.1.1, same rest distinct.1.2, List.append_assoc]
  cases other i with
  | none => rfl
  | some item => rfl

/-- With fewer items than buckets there is a bucket where nothing is found. -/
theorem exists_none_of_length_lt {n : Nat} {found : Nat → Option β}
    (short : (collect n found).length < n) :
    ∃ i, i < n ∧ found i = none := by
  by_contra all
  have full : (collect n found).length = (List.range n).length := by
    rw [collect, List.length_filterMap_eq_countP, List.countP_eq_length]
    intro i member
    rw [Option.isSome_iff_ne_none]
    intro missing
    exact all ⟨i, List.mem_range.mp member, missing⟩
  rw [List.length_range] at full
  omega

end Collect

variable {κ : Type u} {α : Type v}

def entries (n : Nat) (slots : Nat → Slot κ α) : List (κ × α) :=
  collect n fun i => (slots i).entry

def usedCount (n : Nat) (slots : Nat → Slot κ α) : Nat :=
  (collect n fun i => (slots i).mark).length

theorem mem_entries_iff {n : Nat} {slots : Nat → Slot κ α} {key : κ}
    {value : α} :
    (key, value) ∈ entries n slots ↔ ∃ i, i < n ∧ slots i = .live key value := by
  unfold entries
  simp only [mem_collect_iff, Slot.entry_eq_some_iff]

theorem entries_vacant (n : Nat) :
    entries n (fun _ => (.vacant : Slot κ α)) = [] := by
  simp [entries, collect, Slot.entry]

/-- Only the entry of the changed bucket is exchanged. -/
theorem entries_split {n i : Nat} (bound : i < n) (slots : Nat → Slot κ α) :
    ∃ before after,
      entries n slots = before ++ (slots i).entry.toList ++ after ∧
      ∀ slot, entries n (Function.update slots i slot) =
        before ++ slot.entry.toList ++ after := by
  obtain ⟨before, after, shape⟩ :=
    collect_split bound fun j => (slots j).entry
  refine ⟨before, after, shape _ fun _ _ => rfl, ?_⟩
  intro slot
  have changed := shape (fun j => (Function.update slots i slot j).entry) (by
    intro j different
    rw [Function.update_of_ne different])
  rw [Function.update_self] at changed
  exact changed

theorem length_entries_update {n i : Nat} (bound : i < n)
    (slots : Nat → Slot κ α) (slot : Slot κ α) :
    (entries n (Function.update slots i slot)).length +
        (slots i).entry.toList.length =
      (entries n slots).length + slot.entry.toList.length := by
  obtain ⟨before, after, shape, changed⟩ := entries_split bound slots
  rw [shape, changed]
  simp only [List.length_append]
  omega

theorem usedCount_update {n i : Nat} (bound : i < n)
    (slots : Nat → Slot κ α) (slot : Slot κ α) :
    usedCount n (Function.update slots i slot) +
        (slots i).mark.toList.length =
      usedCount n slots + slot.mark.toList.length := by
  obtain ⟨before, after, shape⟩ :=
    collect_split bound fun j => (slots j).mark
  have old := shape _ fun _ _ => rfl
  have changed := shape (fun j => (Function.update slots i slot j).mark) (by
    intro j different
    rw [Function.update_of_ne different])
  rw [Function.update_self] at changed
  rw [usedCount, usedCount, old, changed]
  simp only [List.length_append]
  omega

/-- Without deleted buckets every used bucket has an entry. -/
theorem usedCount_eq_length_entries {slots : Nat → Slot κ α}
    (fresh : ∀ i, slots i ≠ .deleted) (n : Nat) :
    usedCount n slots = (entries n slots).length := by
  unfold usedCount entries collect
  rw [List.length_filterMap_eq_countP, List.length_filterMap_eq_countP]
  apply List.countP_congr
  intro i _
  cases slot : slots i with
  | vacant => exact Iff.rfl
  | deleted => exact False.elim (fresh i slot)
  | live key value => exact iff_of_true rfl rfl

/-! ### Searching -/

/-- Every key has at most one entry, and a search along its path reaches the
entry before it comes to a vacant bucket. -/
structure Lawful (path : κ → Nat → Nat) (n : Nat)
    (slots : Nat → Slot κ α) : Prop where
  distinct : ∀ i j key value other, i < n → j < n →
    slots i = .live key value → slots j = .live key other → i = j
  reached : ∀ i key value, i < n → slots i = .live key value →
    ∃ step, path key step = i ∧
      ∀ earlier, earlier < step → slots (path key earlier) ≠ .vacant

/-- A search for a key stops at a bucket that is vacant or holds the key. -/
def Stops (slots : Nat → Slot κ α) (key : κ) (i : Nat) : Prop :=
  slots i = .vacant ∨ ∃ value, slots i = .live key value

/-- The first step of a search at which something holds. -/
structure First (holds : Nat → Prop) (step : Nat) : Prop where
  here : holds step
  earlier : ∀ before, before < step → ¬ holds before

theorem exists_first (holds : Nat → Prop) {step : Nat} (here : holds step) :
    ∃ first, first ≤ step ∧ First holds first := by
  induction step using Nat.strongRecOn with
  | ind step inductionHypothesis =>
      by_cases sooner : ∃ before, before < step ∧ holds before
      · obtain ⟨before, less, found⟩ := sooner
        obtain ⟨first, atMost, isFirst⟩ := inductionHypothesis before less found
        exact ⟨first, by omega, isFirst⟩
      · refine ⟨step, Nat.le_refl step, here, ?_⟩
        intro before less found
        exact sooner ⟨before, less, found⟩

section Lawful

variable {path : κ → Nat → Nat} {n : Nat} {slots : Nat → Slot κ α}

theorem lawful_vacant (path : κ → Nat → Nat) (n : Nat) :
    Lawful path n (fun _ => (.vacant : Slot κ α)) := by
  constructor
  · intro i j key value other _ _ isLive
    cases isLive
  · intro i key value _ isLive
    cases isLive

/-- The keys of the entries are distinct. -/
theorem Lawful.nodup (lawful : Lawful path n slots) :
    ((entries n slots).map Prod.fst).Nodup := by
  unfold entries collect List.Nodup
  rw [List.pairwise_map, List.pairwise_filterMap]
  apply List.Pairwise.imp_of_mem _ List.nodup_range
  intro i j inside otherInside different first found second otherFound sameKey
  rw [List.mem_range] at inside otherInside
  obtain ⟨key, value⟩ := first
  obtain ⟨otherKey, other⟩ := second
  rw [Slot.entry_eq_some_iff] at found otherFound
  have equal : key = otherKey := sameKey
  rw [← equal] at otherFound
  exact different
    (lawful.distinct i j key value other inside otherInside found otherFound)

/-- The entries as a table. -/
def Lawful.table (lawful : Lawful path n slots) : Table κ α :=
  ⟨entries n slots, lawful.nodup⟩

/-- A search that first stops at a step has found the bucket of its key, if
there is one. -/
theorem Lawful.eq_of_first
    (lawful : Lawful path n slots) {key : κ} {step i : Nat} {value : α}
    (inside : path key step < n)
    (first : First (fun step => Stops slots key (path key step)) step)
    (bound : i < n) (isLive : slots i = .live key value) :
    path key step = i := by
  obtain ⟨arrival, arrives, unvacant⟩ :=
    lawful.reached i key value bound isLive
  rcases Nat.lt_trichotomy step arrival with before | same | after
  · rcases first.here with vacant | ⟨other, otherLive⟩
    · exact False.elim (unvacant step before vacant)
    · exact lawful.distinct _ i key other value inside bound otherLive isLive
  · rw [same]
    exact arrives
  · have stopped : Stops slots key (path key arrival) := by
      rw [arrives]
      exact Or.inr ⟨value, isLive⟩
    exact False.elim (first.earlier arrival after stopped)

/-- A search stops, since the table has a vacant bucket on the path. -/
theorem exists_first_stop
    {key : κ} (covers : ∀ i, i < n → ∃ step, step < n ∧ path key step = i)
    (room : usedCount n slots < n) :
    ∃ step, step < n ∧
      First (fun step => Stops slots key (path key step)) step := by
  obtain ⟨i, bound, unmarked⟩ := exists_none_of_length_lt room
  obtain ⟨step, stepBound, arrives⟩ := covers i bound
  have stops : Stops slots key (path key step) := by
    rw [arrives]
    exact Or.inl (Slot.mark_eq_none_iff.mp unmarked)
  obtain ⟨first, atMost, isFirst⟩ :=
    exists_first (fun step => Stops slots key (path key step)) stops
  exact ⟨first, by omega, isFirst⟩

/-! ### Changing a bucket -/

theorem update_ne_vacant {i j : Nat} {slot : Slot κ α}
    (used : slot ≠ .vacant) (before : slots j ≠ .vacant) :
    Function.update slots i slot j ≠ .vacant := by
  by_cases same : j = i
  · rw [same, Function.update_self]
    exact used
  · rw [Function.update_of_ne same]
    exact before

/-- A new key goes to a bucket of its path before which none is vacant. -/
theorem Lawful.insert
    (lawful : Lawful path n slots) {key : κ} {value : α} {step : Nat}
    (absent : ∀ i value, i < n → slots i ≠ .live key value)
    (unvacant : ∀ earlier, earlier < step →
      slots (path key earlier) ≠ .vacant)
    (unreached : ∀ earlier, earlier < step → path key earlier ≠ path key step) :
    Lawful path n
      (Function.update slots (path key step) (.live key value)) := by
  constructor
  · intro i j found first second iBound jBound iLive jLive
    by_cases iSame : i = path key step
    · by_cases jSame : j = path key step
      · rw [iSame, jSame]
      · rw [iSame, Function.update_self] at iLive
        rw [Function.update_of_ne jSame] at jLive
        cases iLive
        exact False.elim (absent j second jBound jLive)
    · rw [Function.update_of_ne iSame] at iLive
      by_cases jSame : j = path key step
      · rw [jSame, Function.update_self] at jLive
        cases jLive
        exact False.elim (absent i first iBound iLive)
      · rw [Function.update_of_ne jSame] at jLive
        exact lawful.distinct i j found first second iBound jBound iLive jLive
  · intro i found other bound isLive
    by_cases same : i = path key step
    · rw [same, Function.update_self] at isLive
      cases isLive
      refine ⟨step, same.symm, ?_⟩
      intro earlier less
      rw [Function.update_of_ne (unreached earlier less)]
      exact unvacant earlier less
    · rw [Function.update_of_ne same] at isLive
      obtain ⟨arrival, arrives, used⟩ :=
        lawful.reached i found other bound isLive
      refine ⟨arrival, arrives, ?_⟩
      intro earlier less
      exact update_ne_vacant (by intro impossible; cases impossible)
        (used earlier less)

/-- A used bucket may lose its entry, or get another value under its key. -/
theorem Lawful.replace
    (lawful : Lawful path n slots) {i : Nat} {slot : Slot κ α}
    (used : slot ≠ .vacant)
    (sameKey : ∀ key value, slot = .live key value →
      ∃ old, slots i = .live key old) :
    Lawful path n (Function.update slots i slot) := by
  have before : ∀ j key value,
      Function.update slots i slot j = .live key value →
        ∃ old, slots j = .live key old := by
    intro j key value isLive
    by_cases same : j = i
    · rw [same, Function.update_self] at isLive
      rw [same]
      exact sameKey key value isLive
    · rw [Function.update_of_ne same] at isLive
      exact ⟨value, isLive⟩
  constructor
  · intro j k key value other jBound kBound jLive kLive
    obtain ⟨jOld, jBefore⟩ := before j key value jLive
    obtain ⟨kOld, kBefore⟩ := before k key other kLive
    exact lawful.distinct j k key jOld kOld jBound kBound jBefore kBefore
  · intro j key value bound isLive
    obtain ⟨old, isOld⟩ := before j key value isLive
    obtain ⟨arrival, arrives, unvacant⟩ :=
      lawful.reached j key old bound isOld
    refine ⟨arrival, arrives, ?_⟩
    intro earlier less
    exact update_ne_vacant used (unvacant earlier less)

end Lawful

/-! ### Moving the entries in place -/

/-- Two tables in the same memory: the entries of the old table that have not
been moved, those of the new table and those that are carried are together the
original ones.  A used bucket of the new table holds no entry of the old one. -/
structure Moving (path : κ → Nat → Nat) (oldCount newCount : Nat)
    (original : List (κ × α)) (old new : Nat → Slot κ α)
    (carried : List (κ × α)) : Prop where
  lawful : Lawful path newCount new
  fresh : ∀ i, new i ≠ .deleted
  apart : ∀ i, i < oldCount → new i ≠ .vacant → (old i).entry = none
  same : (entries oldCount old ++ entries newCount new ++ carried).Perm original

namespace Moving

variable {path : κ → Nat → Nat} {oldCount newCount : Nat}
  {original : List (κ × α)} {old new : Nat → Slot κ α}
  {carried : List (κ × α)}

/-- Nothing has been moved yet. -/
theorem start (path : κ → Nat → Nat) (oldCount newCount : Nat)
    (old : Nat → Slot κ α) :
    Moving path oldCount newCount (entries oldCount old) old
      (fun _ => .vacant) [] where
  lawful := lawful_vacant path newCount
  fresh := by
    intro i impossible
    cases impossible
  apart := by
    intro i _ used
    exact False.elim (used rfl)
  same := by
    rw [entries_vacant, List.append_nil, List.append_nil]

/-- An entry of the old table is taken out of its bucket. -/
theorem take
    (moving : Moving path oldCount newCount original old new carried)
    {i : Nat} {key : κ} {value : α} (bound : i < oldCount)
    (isLive : old i = .live key value) :
    Moving path oldCount newCount original
        (Function.update old i .deleted) new (carried ++ [(key, value)]) ∧
      (entries oldCount (Function.update old i .deleted)).length + 1 =
        (entries oldCount old).length := by
  obtain ⟨before, after, shape, changed⟩ := entries_split bound old
  rw [isLive] at shape
  have emptied := changed .deleted
  simp only [Slot.entry, Option.toList_some, Option.toList_none,
    List.append_nil] at shape emptied
  constructor
  · constructor
    · exact moving.lawful
    · exact moving.fresh
    · intro j jBound used
      by_cases same : j = i
      · rw [same, Function.update_self]
        rfl
      · rw [Function.update_of_ne same]
        exact moving.apart j jBound used
    · apply List.Perm.trans _ moving.same
      rw [emptied, shape]
      simp only [List.append_assoc]
      apply List.Perm.append_left
      rw [← List.append_assoc, ← List.append_assoc, ← List.append_assoc]
      exact List.perm_append_comm.trans (by simp)
  · rw [emptied, shape]
    simp only [List.length_append, List.length_cons, List.length_nil]
    omega

/-- The carried entries are distinct from those of the new table. -/
theorem absent
    (moving : Moving path oldCount newCount original old new carried)
    (distinct : (original.map Prod.fst).Nodup) {key : κ} {value : α}
    (isCarried : (key, value) ∈ carried) :
    ∀ i other, i < newCount → new i ≠ .live key other := by
  intro i other bound isLive
  have placed : (key, other) ∈ entries newCount new :=
    mem_entries_iff.mpr ⟨i, bound, isLive⟩
  have all := (moving.same.map Prod.fst).nodup_iff.mpr distinct
  rw [List.map_append, List.nodup_append] at all
  refine all.2.2 key ?_ key ?_ rfl
  · rw [List.map_append, List.mem_append]
    exact Or.inr (List.mem_map.mpr ⟨_, placed, rfl⟩)
  · exact List.mem_map.mpr ⟨_, isCarried, rfl⟩

/-- There is a vacant bucket on the path of a carried key. -/
theorem exists_first_vacant
    (moving : Moving path oldCount newCount original old new carried)
    (room : original.length < newCount) {key : κ}
    (covers : ∀ i, i < newCount → ∃ step, step < newCount ∧
      path key step = i) :
    ∃ step, step < newCount ∧
      First (fun step => new (path key step) = .vacant) step := by
  have total := moving.same.length_eq
  simp only [List.length_append] at total
  have short : (entries newCount new).length < newCount := by omega
  obtain ⟨i, bound, noEntry⟩ := exists_none_of_length_lt short
  obtain ⟨step, stepBound, arrives⟩ := covers i bound
  have vacant : new (path key step) = .vacant := by
    rw [arrives]
    cases isSlot : new i with
    | vacant => rfl
    | deleted => exact False.elim (moving.fresh i isSlot)
    | live found other =>
        simp only [isSlot, Slot.entry, reduceCtorEq] at noEntry
  obtain ⟨first, atMost, isFirst⟩ :=
    exists_first (fun step => new (path key step) = .vacant) vacant
  exact ⟨first, by omega, isFirst⟩

/-- A carried entry is put into the first vacant bucket of its path, which holds
no entry of the old table. -/
theorem place
    {key : κ} {value : α} {rest : List (κ × α)} {step : Nat}
    (moving : Moving path oldCount newCount original old new
      ((key, value) :: rest))
    (distinct : (original.map Prod.fst).Nodup)
    (inside : path key step < newCount)
    (first : First (fun step => new (path key step) = .vacant) step)
    (free : path key step < oldCount → (old (path key step)).entry = none) :
    Moving path oldCount newCount original old
      (Function.update new (path key step) (.live key value)) rest where
  lawful := by
    apply moving.lawful.insert
    · exact fun i other bound =>
        moving.absent distinct List.mem_cons_self i other bound
    · exact first.earlier
    · intro earlier less sameBucket
      apply first.earlier earlier less
      rw [sameBucket]
      exact first.here
  fresh := by
    intro i
    by_cases same : i = path key step
    · rw [same, Function.update_self]
      intro impossible
      cases impossible
    · rw [Function.update_of_ne same]
      exact moving.fresh i
  apart := by
    intro i bound used
    by_cases same : i = path key step
    · rw [same] at bound ⊢
      exact free bound
    · rw [Function.update_of_ne same] at used
      exact moving.apart i bound used
  same := by
    obtain ⟨before, after, shape, changed⟩ := entries_split inside new
    rw [first.here] at shape
    have filled := changed (.live key value)
    simp only [Slot.entry, Option.toList_some, Option.toList_none,
      List.append_nil] at shape filled
    apply List.Perm.trans _ moving.same
    rw [filled, shape]
    simp only [List.append_assoc]
    apply List.Perm.append_left
    apply List.Perm.append_left
    simpa using List.perm_middle.symm

end Moving

end Buckets

end LibPaxos.Library
