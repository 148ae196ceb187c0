import Mathlib.Data.List.Basic
import Mathlib.Data.List.MinMax

/-!
# Stores with a cursor

A store keeps values under keys and can be walked with a cursor.  The laws say
what a program relies on: the store is a map, the cursor goes from each key to
the next one in order, and deleting the key under the cursor neither moves it
nor changes another key.
-/

namespace LibPaxos.Library

/-- The operations of a store with a cursor. -/
structure CursorStore (κ δ : Type) where
  State : Type
  Cursor : Type
  empty : State
  get : State → κ → Option δ
  put : State → κ → δ → State
  openCursor : State → Cursor
  next : State → Cursor → Option (κ × Cursor)
  delete : State → Cursor → State × Cursor

namespace CursorStore

variable {κ δ : Type}

/-- The key lies behind everything that the cursor has visited. -/
def Ahead {store : CursorStore κ δ} (below : κ → κ → Prop)
    (visited : store.Cursor → Option κ) (cursor : store.Cursor) (key : κ) :
    Prop :=
  ∀ last, visited cursor = some last → below last key

/-- The laws of a store whose cursor follows the order `below`; `visited` is
the key under the cursor, if it has been moved. -/
structure Lawful (store : CursorStore κ δ) (below : κ → κ → Prop)
    (visited : store.Cursor → Option κ) : Prop where
  get_empty : ∀ key, store.get store.empty key = none
  get_put_self : ∀ state key value,
    store.get (store.put state key value) key = some value
  get_put_of_ne : ∀ state key value other, other ≠ key →
    store.get (store.put state key value) other = store.get state other
  visited_openCursor : ∀ state, visited (store.openCursor state) = none
  next_none : ∀ state cursor, store.next state cursor = none →
    ∀ key, Ahead below visited cursor key → store.get state key = none
  next_some : ∀ state cursor key moved,
    store.next state cursor = some (key, moved) →
      visited moved = some key ∧ Ahead below visited cursor key ∧
        ∀ other, Ahead below visited cursor other → below other key →
          store.get state other = none
  get_delete_self : ∀ state cursor key, visited cursor = some key →
    store.get (store.delete state cursor).1 key = none
  get_delete_of_ne : ∀ state cursor key other, visited cursor = some key →
    other ≠ key →
      store.get (store.delete state cursor).1 other = store.get state other
  visited_delete : ∀ state cursor,
    visited (store.delete state cursor).2 = visited cursor

/-! ### A list of entries -/

section Entries

variable [LinearOrder κ]

def lookup (entries : List (κ × δ)) (key : κ) : Option δ :=
  (entries.find? fun entry => entry.1 = key).map Prod.snd

def keysAfter (entries : List (κ × δ)) (cursor : Option κ) : List κ :=
  (entries.map Prod.fst).filter fun key => cursor.all fun last => last < key

def without (entries : List (κ × δ)) (cursor : Option κ) : List (κ × δ) :=
  entries.filter fun entry => some entry.1 ≠ cursor

/-- A store kept as a list of entries; its cursor is the last key visited. -/
def ofEntries (κ δ : Type) [LinearOrder κ] : CursorStore κ δ where
  State := List (κ × δ)
  Cursor := Option κ
  empty := []
  get := lookup
  put := fun entries key value => (key, value) :: entries
  openCursor := fun _ => none
  next := fun entries cursor =>
    ((keysAfter entries cursor).argmin id).map fun key => (key, some key)
  delete := fun entries cursor => (without entries cursor, cursor)

theorem lookup_cons (entry : κ × δ) (rest : List (κ × δ)) (key : κ) :
    lookup (entry :: rest) key =
      if entry.1 = key then some entry.2 else lookup rest key := by
  unfold lookup
  by_cases same : entry.1 = key
  · rw [List.find?_cons_of_pos (by simpa using same), if_pos same]
    rfl
  · rw [List.find?_cons_of_neg (by simpa using same), if_neg same]

theorem lookup_eq_none_of_notMem {entries : List (κ × δ)} {key : κ}
    (missing : key ∉ entries.map Prod.fst) :
    lookup entries key = none := by
  induction entries with
  | nil => rfl
  | cons entry rest inductionHypothesis =>
      rw [List.map_cons, List.mem_cons, not_or] at missing
      rw [lookup_cons, if_neg (Ne.symm missing.1)]
      exact inductionHypothesis missing.2

theorem mem_keysAfter_iff
    (entries : List (κ × δ)) (cursor : Option κ) (key : κ) :
    key ∈ keysAfter entries cursor ↔
      key ∈ entries.map Prod.fst ∧ ∀ last, cursor = some last → last < key := by
  rw [keysAfter, List.mem_filter]
  refine and_congr_right fun _ => ?_
  cases cursor with
  | none => simp
  | some last => simp

theorem lookup_without_of_ne
    (entries : List (κ × δ)) {cursor : Option κ} {key : κ}
    (different : some key ≠ cursor) :
    lookup (without entries cursor) key = lookup entries key := by
  induction entries with
  | nil => rfl
  | cons entry rest inductionHypothesis =>
      unfold without at inductionHypothesis ⊢
      by_cases kept : some entry.1 ≠ cursor
      · rw [List.filter_cons_of_pos (by simpa using kept), lookup_cons,
          lookup_cons, inductionHypothesis]
      · have other : entry.1 ≠ key := by
          intro same
          exact kept (same ▸ different)
        rw [List.filter_cons_of_neg (by simpa using kept), lookup_cons,
          if_neg other, inductionHypothesis]

theorem lookup_without_self
    (entries : List (κ × δ)) (key : κ) :
    lookup (without entries (some key)) key = none := by
  apply lookup_eq_none_of_notMem
  intro member
  obtain ⟨entry, kept, same⟩ := List.mem_map.mp member
  have different := (List.mem_filter.mp kept).2
  simp [same] at different

theorem ofEntries_lawful :
    (ofEntries κ δ).Lawful (· < ·) (fun cursor => cursor) where
  get_empty _ := rfl
  get_put_self state key value :=
    (lookup_cons (key, value) state key).trans (if_pos rfl)
  get_put_of_ne state key value other different :=
    (lookup_cons (key, value) state other).trans (if_neg different.symm)
  visited_openCursor _ := rfl
  next_none state cursor ended key ahead := by
    have none : keysAfter state cursor = [] :=
      List.argmin_eq_none.mp (Option.map_eq_none_iff.mp ended)
    apply lookup_eq_none_of_notMem
    intro member
    have after := (mem_keysAfter_iff state cursor key).mpr ⟨member, ahead⟩
    rw [none] at after
    cases after
  next_some state cursor key moved found := by
    obtain ⟨least, isLeast, pair⟩ := Option.map_eq_some_iff.mp found
    cases pair
    have member := List.argmin_mem isLeast
    refine ⟨rfl, ((mem_keysAfter_iff state cursor _).mp member).2, ?_⟩
    intro other ahead smaller
    apply lookup_eq_none_of_notMem
    intro present
    have after := (mem_keysAfter_iff state cursor other).mpr ⟨present, ahead⟩
    exact absurd smaller
      (not_lt_of_ge (List.le_of_mem_argmin after isLeast))
  get_delete_self state cursor key under := by
    subst under
    exact lookup_without_self state key
  get_delete_of_ne state cursor key other under different := by
    subst under
    exact lookup_without_of_ne state (by simpa using different)
  visited_delete _ _ := rfl

end Entries

end CursorStore

end LibPaxos.Library
