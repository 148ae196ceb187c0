import LibPaxos.Types
import Mathlib.Logic.Function.Basic
import Mathlib.Data.List.Range

/-!
# Acceptor storage

`storage.h` gives an acceptor a table of functions over an opaque handle, and
the acceptor is written against that table only; it is `StorageApi` here.
`storage_mem.c` implements it with a hash table of records, whose calls never
fail.

Every record goes in and out of memory storage through `paxos_accepted_copy`,
which copies `n_aids` entries of each array whatever the array holds.  What a
read past the end of an array finds is not determined by the program, so the
copy takes it from a `Memory`, and the results about an acceptor hold for every
one of them.
-/

namespace LibPaxos

/-- The functions of `struct storage` that an acceptor uses.  A status is zero
on success. -/
structure StorageApi (σ : Type) where
  txBegin : σ → Int × σ
  txCommit : σ → Int × σ
  txAbort : σ → σ
  getRecord : σ → Nat → Option PaxosAccepted
  putRecord : σ → PaxosAccepted → Int × σ
  trim : σ → Nat → Int × σ
  getTrimInstance : σ → Nat

/-- What the program finds past the end of an array of a record, given the
`n_aids` of the record and the index read. -/
structure Memory where
  word : Nat → Nat → Nat
  value : Nat → Nat → PaxosValue

def Memory.zero : Memory :=
  ⟨fun _ _ => 0, fun _ _ => PaxosValue.empty⟩

def copyEntries {α : Type} (n : Nat) (past : Nat → α) (src : List α) :
    List α :=
  (List.range n).map fun i => src.getD i (past i)

@[simp]
theorem length_copyEntries {α : Type} (n : Nat) (past : Nat → α)
    (src : List α) :
    (copyEntries n past src).length = n := by
  simp [copyEntries]

theorem copyEntries_of_length {α : Type} {n : Nat} (past : Nat → α)
    {src : List α} (length : src.length = n) :
    copyEntries n past src = src := by
  apply List.ext_getElem?
  intro i
  subst length
  by_cases bound : i < src.length
  · simp [copyEntries, bound]
  · simp [copyEntries, bound]

theorem firstOr_copyEntries {α : Type} {n : Nat} (past : Nat → α)
    {src : List α} (fallback : α)
    (positive : 0 < n) (nonempty : src ≠ []) :
    firstOr fallback (copyEntries n past src) = firstOr fallback src := by
  cases n with
  | zero => omega
  | succ n =>
      cases src with
      | nil => exact False.elim (nonempty rfl)
      | cons entry rest => simp [copyEntries, List.range_succ_eq_map]

def paxosAcceptedCopy (mem : Memory) (src : PaxosAccepted) : PaxosAccepted :=
  if 0 < src.nAids then
    { src with
      aids :=
        if src.aids = [] then []
        else copyEntries src.nAids (mem.word src.nAids) src.aids
      values :=
        src.values.map (copyEntries src.nAids (mem.value src.nAids))
      ballots :=
        if src.ballots = [] then []
        else copyEntries src.nAids (mem.word src.nAids) src.ballots
      valueBallots :=
        if src.valueBallots = [] then []
        else copyEntries src.nAids (mem.word src.nAids) src.valueBallots
      value0 := PaxosValue.empty }
  else
    { src with
      aids := []
      ballots := []
      valueBallots := []
      value0 := PaxosValue.empty }

@[simp]
theorem paxosAcceptedCopy_iid (mem : Memory) (src : PaxosAccepted) :
    (paxosAcceptedCopy mem src).iid = src.iid := by
  unfold paxosAcceptedCopy
  split <;> rfl

/-- The three arrays that every record has are as long as `n_aids` says. -/
structure PaxosAccepted.WordsConsistent (record : PaxosAccepted) : Prop where
  aids : record.aids.length = record.nAids
  ballots : record.ballots.length = record.nAids
  valueBallots : record.valueBallots.length = record.nAids

/-- All arrays that are present are as long as `n_aids` says. -/
structure PaxosAccepted.ArraysConsistent (record : PaxosAccepted) : Prop
    extends record.WordsConsistent where
  values : ∀ array, record.values = some array →
    array.length = record.nAids

/-- What the copy does to a record with consistent word arrays: it fills up
`values` to `n_aids` entries and clears the unused `value_0`. -/
theorem paxosAcceptedCopy_eq
    (mem : Memory) {src : PaxosAccepted}
    (consistent : src.WordsConsistent) (positive : 0 < src.nAids) :
    paxosAcceptedCopy mem src =
      { src with
        values :=
          src.values.map (copyEntries src.nAids (mem.value src.nAids))
        value0 := PaxosValue.empty } := by
  have copied : ∀ array : List Nat,
      array.length = src.nAids →
        (if array = [] then []
          else copyEntries src.nAids (mem.word src.nAids) array) = array := by
    intro array length
    by_cases missing : array = []
    · rw [if_pos missing, missing]
    · rw [if_neg missing, copyEntries_of_length _ length]
  unfold paxosAcceptedCopy
  rw [if_pos positive, copied _ consistent.aids,
    copied _ consistent.ballots, copied _ consistent.valueBallots]

/-- A record with consistent arrays is copied as it is. -/
theorem paxosAcceptedCopy_of_arraysConsistent
    (mem : Memory) {src : PaxosAccepted}
    (consistent : src.ArraysConsistent) (positive : 0 < src.nAids) :
    paxosAcceptedCopy mem src =
      { src with value0 := PaxosValue.empty } := by
  rw [paxosAcceptedCopy_eq mem consistent.toWordsConsistent positive]
  cases present : src.values with
  | none => rfl
  | some array =>
      have copied :=
        copyEntries_of_length (mem.value src.nAids)
          (consistent.values array present)
      simp [copied]

/-- A copied record has consistent arrays, even where the copy read past the
end of `values`. -/
theorem arraysConsistent_copy
    (mem : Memory) {src : PaxosAccepted}
    (consistent : src.WordsConsistent) (positive : 0 < src.nAids) :
    (paxosAcceptedCopy mem src).ArraysConsistent := by
  rw [paxosAcceptedCopy_eq mem consistent positive]
  refine ⟨⟨consistent.aids, consistent.ballots, consistent.valueBallots⟩, ?_⟩
  intro array present
  simp only [Option.map_eq_some_iff] at present
  obtain ⟨original, _, copied⟩ := present
  rw [← copied]
  exact length_copyEntries _ _ _

/-- `struct mem_storage`, its hash table of records as a partial function. -/
structure MemStorage where
  trimIid : Nat
  records : Nat → Option PaxosAccepted

def memStorageNew : MemStorage :=
  ⟨0, fun _ => none⟩

def memStorageGet (mem : Memory) (s : MemStorage) (iid : Nat) :
    Option PaxosAccepted :=
  (s.records iid).map (paxosAcceptedCopy mem)

def memStoragePut (mem : Memory) (s : MemStorage) (acc : PaxosAccepted) :
    MemStorage :=
  { s with
    records :=
      Function.update s.records acc.iid (some (paxosAcceptedCopy mem acc)) }

/-- `mem_storage_trim`: it compares the `iid` of each record, not its key. -/
def memStorageTrim (s : MemStorage) (iid : Nat) : MemStorage :=
  { trimIid := iid
    records := fun key =>
      (s.records key).filter fun acc => decide (iid < acc.iid) }

/-- `storage_init_mem`. -/
def memStorageApi (mem : Memory) : StorageApi MemStorage where
  txBegin := fun s => (0, s)
  txCommit := fun s => (0, s)
  txAbort := fun s => s
  getRecord := memStorageGet mem
  putRecord := fun s acc => (0, memStoragePut mem s acc)
  trim := fun s iid => (0, memStorageTrim s iid)
  getTrimInstance := MemStorage.trimIid

/-- Storing a record keeps every record under the key of its instance. -/
theorem memStoragePut_keyed
    (mem : Memory) {s : MemStorage} (acc : PaxosAccepted)
    (keyed : ∀ key record, s.records key = some record → record.iid = key) :
    ∀ key record, (memStoragePut mem s acc).records key = some record →
      record.iid = key := by
  intro key record found
  change Function.update s.records acc.iid
    (some (paxosAcceptedCopy mem acc)) key = some record at found
  by_cases same : key = acc.iid
  · subst same
    rw [Function.update_self] at found
    cases found
    exact paxosAcceptedCopy_iid mem acc
  · rw [Function.update_of_ne same] at found
    exact keyed key record found

end LibPaxos
