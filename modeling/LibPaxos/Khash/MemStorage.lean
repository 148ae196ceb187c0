import LibPaxos.Khash.Loops
import LibPaxos.Acceptor.Model

/-!
# Storage in memory over its hash table

The functions of `storage_mem.c` with the hash table that they use, against the
partial function of records that `MemStorage` has in its place.
-/

namespace LibPaxos

open LibPaxos.Library

def khIntHashFunc (key : Nat) : Nat :=
  word32 key

/-- `struct mem_storage`. -/
structure KhMemStorage where
  trimIid : Nat
  records : Khash Nat PaxosAccepted

namespace KhMemStorage

/-- `mem_storage_new`. -/
def new : KhMemStorage :=
  ⟨0, khInit⟩

def get (mem : Memory) (s : KhMemStorage) (iid : Nat) :
    Option (Option PaxosAccepted) :=
  (s.records.get khIntHashFunc iid).bind fun k =>
    if k = s.records.nBuckets then
      some none
    else
      (s.records.value k).map fun record => some (paxosAcceptedCopy mem record)

/-- `mem_storage_put`. -/
def put (mem : Memory) (s : KhMemStorage) (acc : PaxosAccepted) :
    Option (Int × KhMemStorage) :=
  let record := paxosAcceptedCopy mem acc
  (s.records.put khIntHashFunc acc.iid).bind fun (rv, k, records) =>
    if rv = -1 then
      some (-1, { s with records := records })
    else
      (records.setValue k record).map fun records =>
        (0, { s with records := records })

/-- `mem_storage_trim`. -/
def trim (s : KhMemStorage) (iid : Nat) : Option (Int × KhMemStorage) :=
  (s.records.removeLoop (fun acc => decide (acc.iid ≤ iid))
    (fun _ _ => ()) ()).map fun result =>
      (0, ⟨iid, result.2⟩)

end KhMemStorage

inductive StoreCall where
  | get (mem : Memory) (iid : Nat)
  | put (mem : Memory) (acc : PaxosAccepted)
  | trim (iid : Nat)
  | getTrimInstance

inductive MemAnswer where
  | record (found : Option PaxosAccepted)
  | status (rv : Int)
  | trimInstance (iid : Nat)

/-- A call to the storage with the hash table. -/
def KhMemStorage.call (s : KhMemStorage) :
    StoreCall → Option (KhMemStorage × MemAnswer)
  | .get mem iid => (s.get mem iid).map fun found => (s, .record found)
  | .put mem acc => (s.put mem acc).map fun result =>
      (result.2, .status result.1)
  | .trim iid => (s.trim iid).map fun result => (result.2, .status result.1)
  | .getTrimInstance => some (s, .trimInstance s.trimIid)

/-- The same call to the storage with a partial function. -/
def MemStorage.call (s : MemStorage) : StoreCall → MemStorage × MemAnswer
  | .get mem iid => (s, .record (memStorageGet mem s iid))
  | .put mem acc => (memStoragePut mem s acc, .status 0)
  | .trim iid => (memStorageTrim s iid, .status 0)
  | .getTrimInstance => (s, .trimInstance s.trimIid)

def KhMemStorage.run (calls : List StoreCall) :
    Option (KhMemStorage × List MemAnswer) :=
  calls.foldlM (fun result request =>
    (result.1.call request).map fun (s, answer) => (s, result.2 ++ [answer]))
    (KhMemStorage.new, [])

def MemStorage.run (calls : List StoreCall) : MemStorage × List MemAnswer :=
  calls.foldl (fun result request =>
    let (s, answer) := result.1.call request
    (s, result.2 ++ [answer]))
    (memStorageNew, [])

/-- The hash table has the records of the partial function. -/
structure KhMemStorage.Stores (s : KhMemStorage) (t : MemStorage) : Prop where
  trimIid : s.trimIid = t.trimIid
  records : ∃ table, Khash.IsTable khIntHashFunc s.records table ∧
    ∀ key, table.get key = t.records key

namespace KhMemStorage.Stores

variable {s : KhMemStorage} {t : MemStorage}

theorem get (stores : s.Stores t) (mem : Memory) (iid : Nat) :
    s.get mem iid = some (memStorageGet mem t iid) := by
  obtain ⟨table, isTable, same⟩ := stores.records
  rw [KhMemStorage.get, memStorageGet, ← same]
  cases present : table.get iid with
  | none =>
      rw [isTable.get_absent present, Option.bind_some, if_pos rfl]
      rfl
  | some record =>
      obtain ⟨k, found, here⟩ := isTable.get_present present
      rw [found, Option.bind_some, if_neg here.ne_end, here.value_eq]
      rfl

theorem put
    (stores : s.Stores t) (small : s.records.size < 2 ^ 30) (mem : Memory)
    (acc : PaxosAccepted) :
    ∃ after, s.put mem acc = some (0, after) ∧
      after.Stores (memStoragePut mem t acc) ∧
      after.records.size ≤ s.records.size + 1 := by
  obtain ⟨table, isTable, same⟩ := stores.records
  have sized := isTable.size
  obtain ⟨ret, k, claimed, after, next, isPut, isSet, here, perm, positive,
    _⟩ := isTable.put (by omega) acc.iid (paxosAcceptedCopy mem acc)
  refine ⟨{ s with records := after }, ?_,
    ⟨stores.trimIid, next, here.isTable, ?_⟩, ?_⟩
  · simp only [KhMemStorage.put, isPut, Option.bind_some]
    rw [if_neg (by omega), isSet]
    rfl
  · intro key
    change _ = Function.update t.records acc.iid _ key
    rw [TableMap.get_of_perm perm, TableMap.get_put]
    by_cases isKey : key = acc.iid
    · rw [if_pos isKey, isKey, Function.update_self]
    · rw [if_neg isKey, Function.update_of_ne isKey]
      exact same key
  · have grown : after.size = (TableMap.put table acc.iid
        (paxosAcceptedCopy mem acc)).size := by
      rw [here.isTable.size]
      exact perm.length_eq
    have atMost := TableMap.size_put_le table acc.iid
      (paxosAcceptedCopy mem acc)
    change after.size ≤ s.records.size + 1
    omega

theorem trim (stores : s.Stores t) (iid : Nat) :
    ∃ after, s.trim iid = some (0, after) ∧
      after.Stores (memStorageTrim t iid) ∧
      after.records.size ≤ s.records.size := by
  obtain ⟨table, isTable, same⟩ := stores.records
  obtain ⟨after, ran, kept⟩ := isTable.removeLoop
    (fun acc => decide (acc.iid ≤ iid)) (fun _ _ => ()) ()
  refine ⟨⟨iid, after⟩, ?_, ⟨rfl, _, kept, ?_⟩, ?_⟩
  · rw [KhMemStorage.trim, ran]
    rfl
  · intro key
    apply Option.ext
    intro record
    rw [Table.get_filter, same, memStorageTrim, Option.filter_eq_some_iff]
    simp
  · change after.size ≤ s.records.size
    rw [kept.size, isTable.size]
    exact List.length_filter_le _ _

/-- A call has a result, and the answer of the partial function. -/
theorem call
    (stores : s.Stores t) (small : s.records.size < 2 ^ 30)
    (request : StoreCall) :
    ∃ after, s.call request = some (after, (t.call request).2) ∧
      after.Stores (t.call request).1 ∧
      after.records.size ≤ s.records.size + 1 := by
  cases request with
  | get mem iid =>
      refine ⟨s, ?_, stores, Nat.le_succ _⟩
      rw [KhMemStorage.call, stores.get mem iid]
      rfl
  | put mem acc =>
      obtain ⟨after, ran, next⟩ := stores.put small mem acc
      refine ⟨after, ?_, next⟩
      rw [KhMemStorage.call, ran]
      rfl
  | trim iid =>
      obtain ⟨after, ran, next, less⟩ := stores.trim iid
      refine ⟨after, ?_, next, by omega⟩
      rw [KhMemStorage.call, ran]
      rfl
  | getTrimInstance =>
      refine ⟨s, ?_, stores, Nat.le_succ _⟩
      rw [KhMemStorage.call, stores.trimIid]
      rfl

end KhMemStorage.Stores

/-! ### Sequences of calls -/

theorem stores_new : KhMemStorage.new.Stores memStorageNew := by
  refine ⟨rfl, Table.empty, Khash.isTable_init khIntHashFunc, ?_⟩
  intro key
  rfl

theorem KhMemStorage.run_append_one (calls : List StoreCall)
    (request : StoreCall) :
    KhMemStorage.run (calls ++ [request]) =
      (KhMemStorage.run calls).bind fun result =>
        (result.1.call request).map fun (s, answer) =>
          (s, result.2 ++ [answer]) := by
  simp only [KhMemStorage.run, List.foldlM_append, List.foldlM_cons,
    List.foldlM_nil]
  exact congrArg _ (funext fun _ => Option.bind_fun_some _)

theorem MemStorage.run_append_one (calls : List StoreCall)
    (request : StoreCall) :
    MemStorage.run (calls ++ [request]) =
      (((MemStorage.run calls).1.call request).1,
        (MemStorage.run calls).2 ++
          [((MemStorage.run calls).1.call request).2]) := by
  rw [MemStorage.run, List.foldl_append]
  rfl

/-- Fewer than `2 ^ 30` records after every part of a sequence of calls. -/
def KhMemStorage.Bounded (calls : List StoreCall) : Prop :=
  ∀ front s answers, front <+: calls →
    KhMemStorage.run front = some (s, answers) → s.records.size < 2 ^ 30

theorem run_of_length (calls : List StoreCall) (length : calls.length < 2 ^ 30) :
    ∃ s, KhMemStorage.run calls = some (s, (MemStorage.run calls).2) ∧
      s.Stores (MemStorage.run calls).1 ∧
      s.records.size ≤ calls.length := by
  induction calls using List.reverseRecOn with
  | nil =>
      exact ⟨KhMemStorage.new, rfl, stores_new, Nat.le_refl 0⟩
  | append_singleton before request inductionHypothesis =>
      rw [List.length_append, List.length_singleton] at length
      obtain ⟨s, ran, stores, few⟩ := inductionHypothesis (by omega)
      obtain ⟨after, called, next, grown⟩ :=
        stores.call (by omega) request
      refine ⟨after, ?_, ?_, ?_⟩
      · rw [KhMemStorage.run_append_one, ran, Option.bind_some, called,
          MemStorage.run_append_one]
        rfl
      · rw [MemStorage.run_append_one]
        exact next
      · rw [List.length_append, List.length_singleton]
        omega

/-- A sequence of fewer than `2 ^ 30` calls is one of them. -/
theorem bounded_of_length
    {calls : List StoreCall} (length : calls.length < 2 ^ 30) :
    KhMemStorage.Bounded calls := by
  intro front s answers isFront ran
  have shorter := isFront.length_le
  obtain ⟨other, otherRan, _, few⟩ := run_of_length front (by omega)
  rw [ran] at otherRan
  cases otherRan
  omega

/-- Every sequence of calls is answered as the storage with a partial function
answers it, as long as there are fewer than `2 ^ 30` records. -/
theorem mem_storage_refines
    (calls : List StoreCall) (bounded : KhMemStorage.Bounded calls) :
    ∃ s, KhMemStorage.run calls = some (s, (MemStorage.run calls).2) ∧
      s.Stores (MemStorage.run calls).1 := by
  induction calls using List.reverseRecOn with
  | nil =>
      exact ⟨KhMemStorage.new, rfl, stores_new⟩
  | append_singleton before request inductionHypothesis =>
      have isFront : before <+: before ++ [request] := ⟨[request], rfl⟩
      obtain ⟨s, ran, stores⟩ := inductionHypothesis
        fun front s answers part => bounded front s answers (part.trans isFront)
      obtain ⟨after, called, next, _⟩ :=
        stores.call (bounded before s _ isFront ran) request
      refine ⟨after, ?_, ?_⟩
      · rw [KhMemStorage.run_append_one, ran, Option.bind_some, called,
          MemStorage.run_append_one]
        rfl
      · rw [MemStorage.run_append_one]
        exact next

/-- Two records are put, and the first of them is trimmed. -/
theorem mem_storage_refines_trimmed :
    ∃ s, KhMemStorage.run
        [.put Memory.zero (paxosAcceptToAccepted 0 ⟨2, 1, 7, ⟨[3]⟩⟩),
          .put Memory.zero (paxosAcceptToAccepted 0 ⟨2, 5, 7, ⟨[4]⟩⟩),
          .trim 1, .get Memory.zero 5] =
        some (s, (MemStorage.run
          [.put Memory.zero (paxosAcceptToAccepted 0 ⟨2, 1, 7, ⟨[3]⟩⟩),
            .put Memory.zero (paxosAcceptToAccepted 0 ⟨2, 5, 7, ⟨[4]⟩⟩),
            .trim 1, .get Memory.zero 5]).2) ∧
      s.Stores (MemStorage.run
        [.put Memory.zero (paxosAcceptToAccepted 0 ⟨2, 1, 7, ⟨[3]⟩⟩),
          .put Memory.zero (paxosAcceptToAccepted 0 ⟨2, 5, 7, ⟨[4]⟩⟩),
          .trim 1, .get Memory.zero 5]).1 :=
  mem_storage_refines _ (bounded_of_length (by decide))

end LibPaxos
