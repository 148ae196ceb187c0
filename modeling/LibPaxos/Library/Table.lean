import Mathlib.Data.List.Nodup
import Mathlib.Data.List.Perm.Basic

/-!
# Keyed tables with an iteration order

A table holds at most one value for each key.  Its entries are listed in the
order in which an iteration over the table visits them; a permutation of the
entries is all that the internal layout of a hash table can change.
-/

namespace LibPaxos.Library

universe u v

/-- A finite table in iteration order, with pairwise distinct keys. -/
structure Table (κ : Type u) (α : Type v) where
  entries : List (κ × α)
  keysNodup : (entries.map Prod.fst).Nodup

namespace Table

variable {κ : Type u} {α : Type v}

def empty : Table κ α :=
  ⟨[], List.nodup_nil⟩

def size (table : Table κ α) : Nat :=
  table.entries.length

def filter (table : Table κ α) (keep : κ × α → Bool) : Table κ α :=
  ⟨table.entries.filter keep,
    (List.filter_sublist.map Prod.fst).nodup table.keysNodup⟩

def mapValues (table : Table κ α) (change : α → α) : Table κ α :=
  ⟨table.entries.map fun entry => (entry.1, change entry.2), by
    rw [List.map_map]
    exact table.keysNodup⟩

variable [DecidableEq κ]

def get (table : Table κ α) (key : κ) : Option α :=
  (table.entries.find? fun entry => decide (entry.1 = key)).map Prod.snd

def erase (table : Table κ α) (key : κ) : Table κ α :=
  table.filter fun entry => decide (entry.1 ≠ key)

/-- Overwrite the value stored under a key that is present. -/
def set (table : Table κ α) (key : κ) (value : α) : Table κ α :=
  ⟨table.entries.map fun entry =>
      if entry.1 = key then (entry.1, value) else entry, by
    have sameKeys :
        (table.entries.map fun entry =>
            if entry.1 = key then (entry.1, value) else entry).map Prod.fst =
          table.entries.map Prod.fst := by
      rw [List.map_map]
      apply List.map_congr_left
      intro entry _
      by_cases same : entry.1 = key <;> simp [same]
    rw [sameKeys]
    exact table.keysNodup⟩

/-- Add an entry for a key that is not present. -/
def insertNew (table : Table κ α) (key : κ) (value : α) :
    Option (Table κ α) :=
  if fresh : key ∈ table.entries.map Prod.fst then
    none
  else
    some ⟨table.entries ++ [(key, value)], by
      rw [List.map_append, List.nodup_append]
      refine ⟨table.keysNodup, by simp, ?_⟩
      intro old oldMember new newMember equal
      simp only [List.map_cons, List.map_nil, List.mem_singleton] at newMember
      subst newMember equal
      exact fresh oldMember⟩

omit [DecidableEq κ] in
theorem ext_entries {left right : Table κ α}
    (same : left.entries = right.entries) :
    left = right := by
  cases left
  cases right
  simp only at same
  subst same
  rfl

theorem get_eq_some_iff
    {table : Table κ α} {key : κ} {value : α} :
    table.get key = some value ↔ (key, value) ∈ table.entries := by
  constructor
  · intro found
    unfold get at found
    rw [Option.map_eq_some_iff] at found
    obtain ⟨entry, search, valueEq⟩ := found
    have keyEq : entry.1 = key := by
      simpa using List.find?_some search
    have member := List.mem_of_find?_eq_some search
    subst keyEq valueEq
    exact member
  · intro member
    unfold get
    cases search :
        table.entries.find? (fun entry => decide (entry.1 = key)) with
    | none =>
        have absent := List.find?_eq_none.mp search (key, value) member
        simp at absent
    | some entry =>
        have keyEq : entry.1 = key := by
          simpa using List.find?_some search
        have sameEntry : entry = (key, value) :=
          List.inj_on_of_nodup_map table.keysNodup
            (List.mem_of_find?_eq_some search) member keyEq
        rw [sameEntry]
        rfl

theorem get_eq_none_iff
    {table : Table κ α} {key : κ} :
    table.get key = none ↔ key ∉ table.entries.map Prod.fst := by
  constructor
  · intro missing present
    obtain ⟨entry, member, keyEq⟩ := List.mem_map.mp present
    have found : table.get key = some entry.2 := by
      rw [get_eq_some_iff, ← keyEq]
      exact member
    rw [missing] at found
    cases found
  · intro absent
    cases found : table.get key with
    | none => rfl
    | some value =>
        have member := get_eq_some_iff.mp found
        exact False.elim (absent (List.mem_map.mpr ⟨_, member, rfl⟩))

@[simp]
theorem get_erase_self (table : Table κ α) (key : κ) :
    (table.erase key).get key = none := by
  rw [get_eq_none_iff]
  simp [erase, filter]

theorem get_filter
    {table : Table κ α} {keep : κ × α → Bool} {key : κ} {value : α} :
    (table.filter keep).get key = some value ↔
      table.get key = some value ∧ keep (key, value) = true := by
  rw [get_eq_some_iff, get_eq_some_iff]
  exact List.mem_filter

theorem get_set_self
    {table : Table κ α} {key : κ} {old : α} (value : α)
    (present : table.get key = some old) :
    (table.set key value).get key = some value := by
  rw [get_eq_some_iff] at present ⊢
  exact List.mem_map.mpr ⟨(key, old), present, by simp⟩

theorem get_set_of_ne
    (table : Table κ α) {key other : κ} (value : α)
    (different : other ≠ key) :
    (table.set key value).get other = table.get other := by
  apply Option.ext
  intro found
  rw [get_eq_some_iff, get_eq_some_iff]
  constructor
  · intro member
    obtain ⟨entry, entryMember, equal⟩ := List.mem_map.mp member
    by_cases same : entry.1 = key
    · rw [if_pos same, same] at equal
      injection equal with keyEq _
      exact False.elim (different keyEq.symm)
    · rw [if_neg same] at equal
      rw [← equal]
      exact entryMember
  · intro member
    exact List.mem_map.mpr ⟨(other, found), member, by simp [different]⟩

/-- Overwriting adds no key. -/
theorem get_of_get_set
    {table : Table κ α} {key other : κ} {value found : α}
    (present : (table.set key value).get other = some found) :
    ∃ old, table.get other = some old := by
  rw [get_eq_some_iff] at present
  obtain ⟨entry, member, equal⟩ := List.mem_map.mp present
  have sameKey : entry.1 = other := by
    split at equal
    · exact congrArg Prod.fst equal
    · exact congrArg Prod.fst equal
  rw [← sameKey]
  exact ⟨entry.2, get_eq_some_iff.mpr member⟩

/-- What an insertion does: the key was absent and is now the last entry. -/
theorem insertNew_eq_some_iff
    {table result : Table κ α} {key : κ} {value : α} :
    table.insertNew key value = some result ↔
      table.get key = none ∧
        result.entries = table.entries ++ [(key, value)] := by
  unfold insertNew
  rw [get_eq_none_iff]
  split
  · rename_i present
    simp only [reduceCtorEq, false_iff, not_and]
    intro absent
    exact False.elim (absent present)
  · rename_i absent
    rw [Option.some.injEq]
    constructor
    · intro equal
      subst equal
      exact ⟨absent, rfl⟩
    · rintro ⟨_, shape⟩
      cases result
      simp only at shape
      subst shape
      rfl

theorem exists_insertNew
    {table : Table κ α} {key : κ} (absent : table.get key = none)
    (value : α) :
    ∃ result, table.insertNew key value = some result := by
  have fresh := get_eq_none_iff.mp absent
  exact ⟨_, dif_neg fresh⟩

theorem get_insertNew
    {table result : Table κ α} {key : κ} {value : α}
    (inserted : table.insertNew key value = some result) (other : κ) :
    result.get other =
      if other = key then some value else table.get other := by
  obtain ⟨_, shape⟩ := insertNew_eq_some_iff.mp inserted
  apply Option.ext
  intro found
  rw [get_eq_some_iff, shape, List.mem_append, List.mem_singleton,
    ← get_eq_some_iff]
  by_cases same : other = key
  · subst same
    have fresh := (insertNew_eq_some_iff.mp inserted).1
    simp [fresh, eq_comm]
  · simp [same]

/-- Moving the entry of a key to the front of the listing. -/
theorem entries_perm_erase
    {table : Table κ α} {key : κ} {value : α}
    (present : table.get key = some value) :
    table.entries.Perm ((key, value) :: (table.erase key).entries) := by
  rw [get_eq_some_iff] at present
  obtain ⟨front, rest, shape⟩ := List.mem_iff_append.mp present
  have nodup := table.keysNodup
  rw [shape, List.map_append, List.map_cons] at nodup
  have keyAbsent : key ∉ front.map Prod.fst ++ rest.map Prod.fst :=
    (List.nodup_cons.mp (List.nodup_middle.mp nodup)).1
  have kept : ∀ part : List (κ × α),
      key ∉ part.map Prod.fst →
        part.filter (fun entry => decide (entry.1 ≠ key)) = part := by
    intro part absent
    apply List.filter_eq_self.mpr
    intro entry member
    have different : entry.1 ≠ key := by
      intro equal
      exact absent (List.mem_map.mpr ⟨entry, member, equal⟩)
    simpa using different
  have frontAbsent : key ∉ front.map Prod.fst :=
    fun member => keyAbsent (List.mem_append_left _ member)
  have restAbsent : key ∉ rest.map Prod.fst :=
    fun member => keyAbsent (List.mem_append_right _ member)
  have erased : (table.erase key).entries = front ++ rest := by
    change table.entries.filter _ = _
    rw [shape, List.filter_append, List.filter_cons, kept front frontAbsent,
      kept rest restAbsent]
    simp
  rw [erased, shape]
  exact List.perm_middle

/-- Overwriting an entry that is then removed makes no difference. -/
theorem erase_set (table : Table κ α) (key : κ) (value : α) :
    (table.set key value).erase key = table.erase key := by
  have sameEntries :
      ((table.set key value).erase key).entries =
        (table.erase key).entries := by
    change List.filter _ (List.map _ table.entries) = List.filter _ _
    induction table.entries with
    | nil => rfl
    | cons entry rest inductionHypothesis =>
        rw [List.map_cons, List.filter_cons, List.filter_cons,
          inductionHypothesis]
        by_cases same : entry.1 = key <;> simp [same]
  exact ext_entries sameEntries

/-- Only the last value written under a key counts. -/
theorem set_set (table : Table κ α) (key : κ) (first second : α) :
    (table.set key first).set key second = table.set key second := by
  apply ext_entries
  change List.map _ (List.map _ table.entries) = List.map _ table.entries
  rw [List.map_map]
  apply List.map_congr_left
  intro entry _
  by_cases same : entry.1 = key
  · simp [same]
  · simp [same]

/-- Overwriting a key by its own value changes nothing. -/
theorem set_eq_self
    {table : Table κ α} {key : κ} {value : α}
    (present : table.get key = some value) :
    table.set key value = table := by
  apply ext_entries
  change List.map _ table.entries = table.entries
  calc
    List.map _ table.entries = List.map id table.entries := by
      apply List.map_congr_left
      intro entry member
      by_cases same : entry.1 = key
      · have found : table.get key = some entry.2 := by
          rw [get_eq_some_iff, ← same]
          exact member
        rw [present] at found
        cases found
        simp [← same]
      · simp [same]
    _ = table.entries := List.map_id _

/-- Overwriting a key leaves the other entries alone. -/
theorem map_overwrite_of_absent
    {key : κ} {part : List (κ × α)} (absent : key ∉ part.map Prod.fst)
    (value : α) :
    (part.map fun entry =>
      if entry.1 = key then (entry.1, value) else entry) = part := by
  have unchanged : ∀ entry ∈ part,
      (if entry.1 = key then (entry.1, value) else entry) = entry := by
    intro entry member
    rw [if_neg]
    intro same
    exact absent (List.mem_map.mpr ⟨entry, member, same⟩)
  rw [List.map_congr_left unchanged, List.map_id']

/-- Overwriting a key changes its entry in place. -/
theorem entries_set_middle
    {table : Table κ α} {key : κ} {old : α} {before after : List (κ × α)}
    (split : table.entries = before ++ (key, old) :: after) (value : α) :
    (table.set key value).entries = before ++ (key, value) :: after := by
  have distinct := table.keysNodup
  rw [split, List.map_append, List.map_cons, List.nodup_middle,
    List.nodup_cons, List.mem_append, not_or] at distinct
  change List.map _ table.entries = _
  rw [split, List.map_append, List.map_cons, if_pos rfl,
    map_overwrite_of_absent distinct.1.1,
    map_overwrite_of_absent distinct.1.2]

/-- Inserting an entry and overwriting it inserts the second value. -/
theorem insertNew_set
    {table result : Table κ α} {key : κ} {value : α}
    (inserted : table.insertNew key value = some result) (other : α) :
    table.insertNew key other = some (result.set key other) := by
  obtain ⟨absent, shape⟩ := insertNew_eq_some_iff.mp inserted
  refine insertNew_eq_some_iff.mpr ⟨absent, ?_⟩
  change List.map _ result.entries = _
  rw [shape, List.map_append]
  rw [map_overwrite_of_absent (get_eq_none_iff.mp absent)]
  simp

/-- Overwriting a key only exchanges its entry. -/
theorem entries_set_perm
    {table : Table κ α} {key : κ} {old : α} (value : α)
    (present : table.get key = some old) :
    (table.set key value).entries.Perm
      ((key, value) :: (table.erase key).entries) := by
  have replaced :=
    entries_perm_erase (get_set_self value present)
  rwa [erase_set] at replaced

def All (table : Table κ α) (property : κ → α → Prop) : Prop :=
  ∀ key value, table.get key = some value → property key value

namespace All

variable {table : Table κ α} {property : κ → α → Prop}

theorem of_entries
    (holds : ∀ entry ∈ table.entries, property entry.1 entry.2) :
    table.All property := by
  intro key value present
  exact holds (key, value) (get_eq_some_iff.mp present)

theorem empty : (Table.empty : Table κ α).All property := by
  intro key value present
  cases present

theorem set
    (all : table.All property) {key : κ} {value : α}
    (holds : property key value) :
    (table.set key value).All property := by
  intro other found present
  rw [get_eq_some_iff] at present
  obtain ⟨entry, member, equal⟩ := List.mem_map.mp present
  by_cases same : entry.1 = key
  · rw [if_pos same, same] at equal
    cases equal
    exact holds
  · rw [if_neg same] at equal
    subst equal
    exact all other found (get_eq_some_iff.mpr member)

theorem filter
    (all : table.All property) (keep : κ × α → Bool) :
    (table.filter keep).All property := by
  intro key value present
  exact all key value (get_filter.mp present).1

theorem mapValues {change : α → α}
    (all : table.All fun key value => property key (change value)) :
    (table.mapValues change).All property := by
  intro key value present
  obtain ⟨entry, member, same⟩ :=
    List.mem_map.mp (get_eq_some_iff.mp present)
  cases same
  exact all entry.1 entry.2 (get_eq_some_iff.mpr member)

theorem erase
    (all : table.All property) (key : κ) :
    (table.erase key).All property :=
  all.filter _

theorem insertNew
    (all : table.All property) {key : κ} {value : α} {result : Table κ α}
    (inserted : table.insertNew key value = some result)
    (holds : property key value) :
    result.All property := by
  intro other found present
  rw [get_insertNew inserted] at present
  split at present
  · next same =>
      cases present
      rw [same]
      exact holds
  · exact all other found present

theorem perm
    (all : table.All property) {other : Table κ α}
    (permutation : other.entries.Perm table.entries) :
    other.All property := by
  intro key value present
  rw [get_eq_some_iff, permutation.mem_iff, ← get_eq_some_iff] at present
  exact all key value present

end All

end Table

end LibPaxos.Library
