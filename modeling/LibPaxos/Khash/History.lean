import LibPaxos.Khash.Update

/-!
# Histories of a hash table

Whatever has been put into a hash table and deleted from it, and whenever it has
been resized, it answers as the finite map of that history, and listing it finds
each entry once.
-/

namespace LibPaxos

open LibPaxos.Library LibPaxos.Library.Buckets

/-! ### Tables as finite maps -/

namespace TableMap

variable {κ α : Type} [DecidableEq κ]

theorem entries_erase_middle
    {table : Table κ α} {key : κ} {old : α} {before after : List (κ × α)}
    (split : table.entries = before ++ (key, old) :: after) :
    (table.erase key).entries = before ++ after := by
  have distinct := table.keysNodup
  rw [split, List.map_append, List.map_cons, List.nodup_middle,
    List.nodup_cons, List.mem_append, not_or] at distinct
  have kept : ∀ part : List (κ × α), key ∉ part.map Prod.fst →
      part.filter (fun entry => decide (entry.1 ≠ key)) = part := by
    intro part absent
    apply List.filter_eq_self.mpr
    intro entry member
    have different : entry.1 ≠ key := by
      intro same
      exact absent (List.mem_map.mpr ⟨entry, member, same⟩)
    exact decide_eq_true different
  change table.entries.filter _ = _
  rw [split, List.filter_append, List.filter_cons, kept before distinct.1.1,
    kept after distinct.1.2]
  simp

theorem erase_of_absent {table : Table κ α} {key : κ}
    (absent : table.get key = none) : table.erase key = table := by
  apply Table.ext_entries
  apply List.filter_eq_self.mpr
  intro entry member
  have different : entry.1 ≠ key := by
    intro same
    exact Table.get_eq_none_iff.mp absent
      (List.mem_map.mpr ⟨entry, member, same⟩)
  exact decide_eq_true different

/-- The entry of a key, whether or not the key is present. -/
def put (table : Table κ α) (key : κ) (value : α) : Table κ α :=
  ⟨(key, value) :: (table.erase key).entries, by
    have absent := Table.get_eq_none_iff.mp (Table.get_erase_self table key)
    exact List.nodup_cons.mpr ⟨absent, (table.erase key).keysNodup⟩⟩

theorem put_entries (table : Table κ α) (key : κ) (value : α) :
    (put table key value).entries =
      (key, value) :: (table.erase key).entries :=
  rfl

theorem size_erase_le (table : Table κ α) (key : κ) :
    (table.erase key).size ≤ table.size :=
  List.length_filter_le _ _

theorem size_put_le (table : Table κ α) (key : κ) (value : α) :
    (put table key value).size ≤ table.size + 1 :=
  Nat.succ_le_succ (size_erase_le table key)

theorem present_of_insertNew_none {table : Table κ α} {key : κ} {value : α}
    (fails : table.insertNew key value = none) :
    ∃ old, table.get key = some old := by
  by_contra absent
  rw [not_exists] at absent
  obtain ⟨inserted, isNew⟩ := Table.exists_insertNew
    (Option.eq_none_iff_forall_ne_some.mpr absent) value
  rw [fails] at isNew
  cases isNew

theorem set_perm {left right : Table κ α}
    (same : left.entries.Perm right.entries) (key : κ) (value : α) :
    (left.set key value).entries.Perm (right.set key value).entries :=
  same.map _

/-- Tables with the same entries in any order answer alike. -/
theorem get_of_perm {left right : Table κ α}
    (same : left.entries.Perm right.entries) (key : κ) :
    left.get key = right.get key := by
  apply Option.ext
  intro value
  rw [Table.get_eq_some_iff, Table.get_eq_some_iff]
  exact same.mem_iff

theorem get_put (table : Table κ α) (key : κ) (value : α) (other : κ) :
    (put table key value).get other =
      if other = key then some value else table.get other := by
  apply Option.ext
  intro found
  rw [Table.get_eq_some_iff, put_entries, List.mem_cons,
    ← Table.get_eq_some_iff, Table.erase, Table.get_filter]
  by_cases same : other = key
  · subst same
    simp [eq_comm]
  · simp [same]

theorem get_erase (table : Table κ α) (key other : κ) :
    (table.erase key).get other =
      if other = key then none else table.get other := by
  apply Option.ext
  intro found
  rw [Table.erase, Table.get_filter]
  by_cases same : other = key
  · simp [same]
  · simp [same]

theorem erase_perm {left right : Table κ α}
    (same : left.entries.Perm right.entries) (key : κ) :
    (left.erase key).entries.Perm (right.erase key).entries :=
  same.filter _

theorem put_perm {left right : Table κ α}
    (same : left.entries.Perm right.entries) (key : κ) (value : α) :
    (put left key value).entries.Perm (put right key value).entries :=
  (erase_perm same key).cons (key, value)

end TableMap

namespace Khash

variable {κ α : Type} {hash : κ → Nat} {h : Khash κ α}

/-- A hash table that can be searched, with its entries in bucket order. -/
def IsTable (hash : κ → Nat) (h : Khash κ α) (table : Table κ α) : Prop :=
  ∃ slots, Represents hash h slots ∧
    entries h.nBuckets slots = table.entries

theorem isTable_init (hash : κ → Nat) :
    IsTable hash (khInit : Khash κ α) Table.empty :=
  ⟨fun _ => .vacant, represents_init hash, entries_vacant 0⟩

/-- A bucket of a hash table with a key and its value. -/
def AtBucket (hash : κ → Nat) (h : Khash κ α) (table : Table κ α) (key : κ)
    (value : α) (k : Nat) : Prop :=
  ∃ slots, Represents hash h slots ∧
    entries h.nBuckets slots = table.entries ∧
    k < h.nBuckets ∧ slots k = .live key value

section Calls

variable {table : Table κ α}

theorem AtBucket.isTable {key : κ} {value : α} {k : Nat}
    (here : AtBucket hash h table key value k) :
    IsTable hash h table := by
  obtain ⟨slots, represents, same, _⟩ := here
  exact ⟨slots, represents, same⟩

theorem IsTable.size (isTable : IsTable hash h table) :
    h.size = table.size := by
  obtain ⟨slots, represents, same⟩ := isTable
  rw [represents.size, same]
  rfl

theorem IsTable.resize (isTable : IsTable hash h table) (n : Nat) :
    ∃ after resized, h.resize hash n = some after ∧
      IsTable hash after resized ∧ resized.entries.Perm table.entries := by
  obtain ⟨slots, represents, same⟩ := isTable
  obtain ⟨after, slotsAfter, ran, kept, perm, _⟩ := represents.resize_spec n
  rw [same] at perm
  exact ⟨after, kept.lawful.table, ran, ⟨slotsAfter, kept, rfl⟩, perm⟩

/-- Listing the buckets finds the entries of the table. -/
theorem IsTable.contents (isTable : IsTable hash h table) :
    h.contents = some table.entries := by
  obtain ⟨slots, represents, same⟩ := isTable
  have step : ∀ k listed, k < h.nBuckets → listed = entries k slots →
      ∃ after, h.listBucket listed k = some after ∧
        after = entries (k + 1) slots := by
    intro k listed bound isListed
    have holds := represents.holds k bound
    rw [listBucket, represents.exist_eq bound, Option.bind_some]
    rw [entries, collect_succ, ← entries, ← isListed]
    cases slot : slots k with
    | vacant => exact ⟨listed, rfl, (List.append_nil listed).symm⟩
    | deleted => exact ⟨listed, rfl, (List.append_nil listed).symm⟩
    | live key value =>
        obtain ⟨isKey, isValue⟩ := holds.cells key value slot
        refine ⟨listed ++ [(key, value)], ?_, rfl⟩
        rw [Khash.value, isKey, isValue]
        rfl
  obtain ⟨listed, ran, isAll⟩ :=
    CheckedArray.forEach_invariant step h.nBuckets 0 [] (Nat.zero_add _) rfl
  rw [Khash.contents, ran, isAll, same]

variable [DecidableEq κ]

theorem IsTable.find (isTable : IsTable hash h table) (key : κ) :
    h.find hash key = some (table.get key) := by
  obtain ⟨slots, represents, same⟩ := isTable
  obtain ⟨x, found, finds⟩ := represents.get_spec key
  rw [Khash.find, found, Option.bind_some]
  rcases finds with ⟨bound, value, isLive⟩ | ⟨isEnd, absent⟩
  · have holds := represents.holds x bound
    have present : table.get key = some value := by
      rw [Table.get_eq_some_iff, ← same, mem_entries_iff]
      exact ⟨x, bound, isLive⟩
    rw [if_neg (by omega), Khash.value, (holds.cells key value isLive).2,
      present]
    rfl
  · have missing : table.get key = none := by
      rw [Table.get_eq_none_iff]
      intro member
      obtain ⟨⟨_, value⟩, inEntries, rfl⟩ := List.mem_map.mp member
      rw [← same, mem_entries_iff] at inEntries
      obtain ⟨i, bound, isLive⟩ := inEntries
      exact absent i value bound isLive
    rw [if_pos isEnd, missing]

/-- Deleting a key takes its entry out of the listing. -/
theorem IsTable.erase (isTable : IsTable hash h table) (key : κ) :
    ∃ after, h.erase hash key = some after ∧
      IsTable hash after (table.erase key) := by
  have answer := isTable.find key
  obtain ⟨slots, represents, same⟩ := isTable
  obtain ⟨x, found, finds⟩ := represents.get_spec key
  rw [Khash.erase, found, Option.bind_some]
  rcases finds with ⟨bound, value, isLive⟩ | ⟨isEnd, absent⟩
  · obtain ⟨after, deleted, kept, sameBuckets⟩ :=
      represents.del_spec bound isLive
    refine ⟨after, deleted, _, kept, ?_⟩
    obtain ⟨front, rest, shape, changed⟩ := entries_split bound slots
    rw [isLive] at shape
    have split : table.entries = front ++ (key, value) :: rest := by
      rw [← same, shape]
      simp [Slot.entry]
    rw [sameBuckets, changed, TableMap.entries_erase_middle split]
    simp [Slot.entry]
  · rw [isEnd, del_end]
    rw [Khash.find, found, Option.bind_some, if_pos isEnd,
      Option.some.injEq] at answer
    rw [TableMap.erase_of_absent answer.symm]
    exact ⟨h, rfl, slots, represents, same⟩

omit [DecidableEq κ] in
theorem Chooses.lt {slots : Nat → Slot κ α} {buckets x : Nat} {key : κ}
    (chosen : Chooses hash buckets slots key x) : x < buckets := by
  obtain ⟨step, inside, arrives, _⟩ := chosen
  rw [← arrives]
  exact Probing.position_lt (by omega) _ _

/-- The chosen bucket has the entry of the key, if there is one. -/
theorem Represents.entry_of_chooses
    {slots : Nat → Slot κ α} (represents : Represents hash h slots)
    {key : κ} {x : Nat} (chosen : Chooses hash h.nBuckets slots key x) :
    (slots x).entry =
      (represents.lawful.table.get key).map fun old => (key, old) := by
  have bound := chosen.lt
  obtain ⟨_, _, _, _, isFree⟩ := chosen
  rcases isFree with ⟨old, isLive⟩ | ⟨noEntry, absent⟩
  · have present : represents.lawful.table.get key = some old :=
      Table.get_eq_some_iff.mpr (mem_entries_iff.mpr ⟨x, bound, isLive⟩)
    rw [present, isLive]
    rfl
  · have missing : represents.lawful.table.get key = none := by
      rw [Table.get_eq_none_iff]
      intro member
      obtain ⟨⟨_, old⟩, inEntries, rfl⟩ := List.mem_map.mp member
      obtain ⟨i, iBound, isLive⟩ := mem_entries_iff.mp inEntries
      exact absent i old iBound isLive
    rw [missing, noEntry]
    rfl

/-- Filling the chosen bucket puts the entry into the table. -/
theorem Represents.entries_filled
    {slots : Nat → Slot κ α} (represents : Represents hash h slots)
    {key : κ} {x : Nat} (chosen : Chooses hash h.nBuckets slots key x)
    (value : α) :
    (entries h.nBuckets (Function.update slots x (.live key value))).Perm
      (TableMap.put represents.lawful.table key value).entries := by
  have cell := represents.entry_of_chooses chosen
  obtain ⟨front, rest, shape, changed⟩ := entries_split chosen.lt slots
  rw [changed, TableMap.put_entries]
  cases present : represents.lawful.table.get key with
  | none =>
      rw [present] at cell
      have split : represents.lawful.table.entries = front ++ rest := by
        change entries h.nBuckets slots = _
        rw [shape, cell]
        simp
      rw [TableMap.erase_of_absent present, split]
      simp [Slot.entry]
  | some old =>
      rw [present] at cell
      have split : represents.lawful.table.entries =
          front ++ (key, old) :: rest := by
        change entries h.nBuckets slots = _
        rw [shape, cell]
        simp
      rw [TableMap.entries_erase_middle split]
      simp [Slot.entry]

/-- A put has a result as long as the table has fewer than `2 ^ 30` entries. -/
theorem IsTable.put
    (isTable : IsTable hash h table) (small : table.size < 2 ^ 30)
    (key : κ) (value : α) :
    ∃ ret k claimed after next,
      h.put hash key = some (ret, k, claimed) ∧
      claimed.setValue k value = some after ∧
      AtBucket hash after next key value k ∧
      next.entries.Perm (TableMap.put table key value).entries ∧
      0 ≤ ret ∧ (ret = 0 ↔ (table.get key).isSome) := by
  have sized := isTable.size
  obtain ⟨slots, represents, same⟩ := isTable
  obtain ⟨ret, k, claimed, before, slotsBefore, after, isPut, isSet, kept,
    perm, chosen, holds, sameBuckets, positive, isOld⟩ :=
    represents.put_spec (by omega) key value
  rw [same] at perm
  have cell := kept.entry_of_chooses chosen
  have filled := kept.entries_filled chosen value
  have sameEntries : (entries before.nBuckets
      (Function.update slotsBefore k (.live key value))).Perm
      (TableMap.put table key value).entries :=
    filled.trans (TableMap.put_perm perm key value)
  have sameAnswer : kept.lawful.table.get key = table.get key :=
    TableMap.get_of_perm perm key
  have bound := chosen.lt
  rw [sameAnswer] at cell
  rw [← sameBuckets] at sameEntries bound
  refine ⟨ret, k, claimed, after, holds.lawful.table, isPut, isSet,
    ⟨_, holds, rfl, bound, Function.update_self ..⟩, sameEntries,
    positive, ?_⟩
  rw [isOld]
  constructor
  · rintro ⟨old, isLive⟩
    rw [isLive] at cell
    cases present : table.get key with
    | none =>
        rw [present] at cell
        cases cell
    | some _ => rfl
  · intro present
    obtain ⟨old, isSome⟩ := Option.isSome_iff_exists.mp present
    rw [isSome] at cell
    exact ⟨old, Slot.entry_eq_some_iff.mp cell⟩

end Calls

/-! ### Histories -/

inductive Op (κ α : Type) where
  | put (key : κ) (value : α)
  | find (key : κ)
  | erase (key : κ)
  | resize (n : Nat)
  | size
  | list

inductive Result (κ α : Type) where
  | ret (flag : Int)
  | found (value : Option α)
  | done
  | size (n : Nat)
  | listed (entries : List (κ × α))

variable [DecidableEq κ]

def step (hash : κ → Nat) (h : Khash κ α) :
    Op κ α → Option (Khash κ α × Result κ α)
  | .put key value =>
      (h.putValue hash key value).map fun result =>
        (result.2, .ret result.1)
  | .find key => (h.find hash key).map fun value => (h, .found value)
  | .erase key => (h.erase hash key).map fun h => (h, .done)
  | .resize n => (h.resize hash n).map fun h => (h, .done)
  | .size => some (h, .size h.size)
  | .list => h.contents.map fun entries => (h, .listed entries)

def run (hash : κ → Nat) (ops : List (Op κ α)) : Option (Khash κ α) :=
  ops.foldlM (fun h op => (step hash h op).map Prod.fst) khInit

def mapStep (table : Table κ α) : Op κ α → Table κ α
  | .put key value => TableMap.put table key value
  | .erase key => table.erase key
  | .find _ => table
  | .resize _ => table
  | .size => table
  | .list => table

/-- The finite map of a history. -/
def mapOf (ops : List (Op κ α)) : Table κ α :=
  ops.foldl mapStep Table.empty

/-- What a call returns, given the finite map before it.  A listing has each
entry once, in any order. -/
def Answers (table : Table κ α) : Op κ α → Result κ α → Prop
  | .put key _, .ret flag => flag = 0 ↔ (table.get key).isSome
  | .find key, .found value => value = table.get key
  | .erase _, .done => True
  | .resize _, .done => True
  | .size, .size n => n = table.size
  | .list, .listed entries => entries.Perm table.entries
  | _, _ => False

/-- The hash table has the entries of a finite map. -/
def Matches (hash : κ → Nat) (h : Khash κ α) (table : Table κ α) : Prop :=
  ∃ listed, IsTable hash h listed ∧ listed.entries.Perm table.entries

theorem step_spec
    {table : Table κ α} (isMap : Matches hash h table)
    (small : table.size < 2 ^ 30) (op : Op κ α) :
    ∃ after result, step hash h op = some (after, result) ∧
      Matches hash after (mapStep table op) ∧ Answers table op result := by
  obtain ⟨listed, isTable, same⟩ := isMap
  have sameSize : listed.size = table.size := same.length_eq
  cases op with
  | put key value =>
      obtain ⟨ret, k, claimed, after, next, isPut, isSet, here, perm, _,
        isOld⟩ := isTable.put (by omega) key value
      rw [TableMap.get_of_perm same] at isOld
      refine ⟨after, .ret ret, ?_, ⟨next, here.isTable, ?_⟩, isOld⟩
      · simp only [step, putValue, isPut, Option.bind_some, isSet,
          Option.map_some]
      · exact perm.trans (TableMap.put_perm same key value)
  | find key =>
      refine ⟨h, .found (listed.get key), ?_, ⟨listed, isTable, same⟩, ?_⟩
      · rw [step, isTable.find key]
        rfl
      · exact TableMap.get_of_perm same key
  | erase key =>
      obtain ⟨after, ran, kept⟩ := isTable.erase key
      refine ⟨after, .done, ?_, ⟨_, kept, TableMap.erase_perm same key⟩,
        trivial⟩
      rw [step, ran]
      rfl
  | resize n =>
      obtain ⟨after, resized, ran, kept, perm⟩ := isTable.resize n
      refine ⟨after, .done, ?_, ⟨resized, kept, perm.trans same⟩, trivial⟩
      rw [step, ran]
      rfl
  | size =>
      refine ⟨h, .size h.size, rfl, ⟨listed, isTable, same⟩, ?_⟩
      exact isTable.size.trans sameSize
  | list =>
      refine ⟨h, .listed listed.entries, ?_, ⟨listed, isTable, same⟩, same⟩
      rw [step, isTable.contents]
      rfl

theorem run_append_one (ops : List (Op κ α)) (op : Op κ α) :
    run hash (ops ++ [op]) =
      (run hash ops).bind fun h => (step hash h op).map Prod.fst := by
  simp only [run, List.foldlM_append, List.foldlM_cons, List.foldlM_nil]
  cases ops.foldlM (fun h op => (step hash h op).map Prod.fst) khInit with
  | none => rfl
  | some h => exact Option.bind_fun_some _

theorem mapOf_append_one (ops : List (Op κ α)) (op : Op κ α) :
    mapOf (ops ++ [op]) = mapStep (mapOf ops) op := by
  rw [mapOf, List.foldl_append]
  rfl

def Bounded (ops : List (Op κ α)) : Prop :=
  ∀ front, front <+: ops → (mapOf front).size < 2 ^ 30

theorem run_matches (hash : κ → Nat) (ops : List (Op κ α)) :
    Bounded ops →
      ∃ h, run hash ops = some h ∧ Matches hash h (mapOf ops) := by
  induction ops using List.reverseRecOn with
  | nil =>
      intro _
      exact ⟨khInit, rfl, Table.empty, isTable_init hash, List.Perm.refl _⟩
  | append_singleton before op inductionHypothesis =>
      intro bounded
      have isFront : before <+: before ++ [op] := ⟨[op], rfl⟩
      obtain ⟨h, ran, isMap⟩ := inductionHypothesis
        fun front part => bounded front (part.trans isFront)
      obtain ⟨after, result, stepped, next, _⟩ :=
        step_spec isMap (bounded before isFront) op
      refine ⟨after, ?_, ?_⟩
      · rw [run_append_one, ran, Option.bind_some, stepped]
        rfl
      · rw [mapOf_append_one]
        exact next

/-- After every history every call returns, and what it returns is what the
finite map of the history says. -/
theorem history_answers
    (hash : κ → Nat) (ops : List (Op κ α)) (bounded : Bounded ops)
    (op : Op κ α) :
    ∃ h after result, run hash ops = some h ∧
      step hash h op = some (after, result) ∧
      Answers (mapOf ops) op result := by
  obtain ⟨h, ran, isMap⟩ := run_matches hash ops bounded
  obtain ⟨after, result, stepped, _, answers⟩ :=
    step_spec isMap (bounded ops List.prefix_rfl) op
  exact ⟨h, after, result, ran, stepped, answers⟩

theorem mapOf_size_le (ops : List (Op κ α)) :
    (mapOf ops).size ≤ ops.length := by
  induction ops using List.reverseRecOn with
  | nil => exact Nat.le_refl 0
  | append_singleton before op inductionHypothesis =>
      rw [mapOf_append_one, List.length_append, List.length_singleton]
      cases op with
      | put key value =>
          exact (TableMap.size_put_le _ key value).trans
            (Nat.succ_le_succ inductionHypothesis)
      | erase key =>
          exact (TableMap.size_erase_le _ key).trans
            (inductionHypothesis.trans (Nat.le_succ _))
      | find _ => exact inductionHypothesis.trans (Nat.le_succ _)
      | resize _ => exact inductionHypothesis.trans (Nat.le_succ _)
      | size => exact inductionHypothesis.trans (Nat.le_succ _)
      | list => exact inductionHypothesis.trans (Nat.le_succ _)

theorem bounded_of_length
    {ops : List (Op κ α)} (length : ops.length < 2 ^ 30) : Bounded ops := by
  intro front isFront
  have entries := mapOf_size_le front
  have shorter := isFront.length_le
  omega

/-- A key that stays in the table while it is resized. -/
theorem history_answers_resized :
    ∃ h after result,
      run id ([.put 3 1, .put 7 2, .resize 100, .erase 3] : List (Op Nat Nat)) =
        some h ∧
      step id h (.find 7) = some (after, result) ∧
      Answers (mapOf [.put 3 1, .put 7 2, .resize 100, .erase 3]) (.find 7)
        result :=
  history_answers id _ (bounded_of_length (by decide)) _

end Khash

end LibPaxos
