import LibPaxos.Khash.History

/-!
# Buckets and loops over them

The calls of the program hold on to the bucket that `kh_get` returned: they read
its value, assign it and delete it.  The loops from `kh_begin` to `kh_end` visit
the entries in the order of the table.
-/

namespace LibPaxos

open LibPaxos.Library LibPaxos.Library.Buckets

namespace Khash

variable {κ α : Type} {hash : κ → Nat} {h : Khash κ α} {table : Table κ α}

section Bucket

variable {key : κ} {value : α} {k : Nat}

theorem AtBucket.ne_end (here : AtBucket hash h table key value k) :
    k ≠ h.nBuckets := by
  obtain ⟨_, _, _, bound, _⟩ := here
  omega

theorem AtBucket.value_eq (here : AtBucket hash h table key value k) :
    h.value k = some value := by
  obtain ⟨slots, represents, _, bound, isLive⟩ := here
  rw [Khash.value, ((represents.holds k bound).cells key value isLive).2]
  rfl

variable [DecidableEq κ]

theorem AtBucket.get_eq (here : AtBucket hash h table key value k) :
    table.get key = some value := by
  obtain ⟨slots, _, same, bound, isLive⟩ := here
  rw [Table.get_eq_some_iff, ← same, mem_entries_iff]
  exact ⟨k, bound, isLive⟩

theorem IsTable.get_present
    (isTable : IsTable hash h table) (present : table.get key = some value) :
    ∃ k, h.get hash key = some k ∧ AtBucket hash h table key value k := by
  obtain ⟨slots, represents, same⟩ := isTable
  rw [Table.get_eq_some_iff, ← same, mem_entries_iff] at present
  obtain ⟨k, bound, isLive⟩ := present
  exact ⟨k, represents.get_of_live bound isLive, slots, represents, same,
    bound, isLive⟩

theorem IsTable.get_absent
    (isTable : IsTable hash h table) (absent : table.get key = none) :
    h.get hash key = some h.nBuckets := by
  obtain ⟨slots, represents, same⟩ := isTable
  obtain ⟨x, found, finds⟩ := represents.get_spec key
  rcases finds with ⟨bound, value, isLive⟩ | ⟨isEnd, _⟩
  · have here : AtBucket hash h table key value x :=
      ⟨slots, represents, same, bound, isLive⟩
    rw [here.get_eq] at absent
    cases absent
  · rw [found, isEnd]

omit [DecidableEq κ] in
/-- The listing of a table around the entry of a bucket. -/
theorem AtBucket.split (here : AtBucket hash h table key value k) :
    ∃ slots before after, Represents hash h slots ∧ k < h.nBuckets ∧
      slots k = .live key value ∧
      table.entries = before ++ (key, value) :: after ∧
      ∀ slot, entries h.nBuckets (Function.update slots k slot) =
        before ++ slot.entry.toList ++ after := by
  obtain ⟨slots, represents, same, bound, isLive⟩ := here
  obtain ⟨before, after, shape, changed⟩ := entries_split bound slots
  refine ⟨slots, before, after, represents, bound, isLive, ?_, changed⟩
  rw [← same, shape, isLive]
  simp [Slot.entry]

/-- Assigning a value changes the entry in place. -/
theorem AtBucket.setValue
    (here : AtBucket hash h table key value k) (new : α) :
    ∃ after, h.setValue k new = some after ∧
      AtBucket hash after (table.set key new) key new k ∧
      after.nBuckets = h.nBuckets := by
  obtain ⟨slots, front, rest, represents, bound, isLive, split, changed⟩ :=
    here.split
  have holds := represents.holds k bound
  rw [isLive] at holds
  have valBound : k < h.vals.length := by
    rw [represents.vals]
    exact bound
  refine ⟨{ h with vals := h.vals.set k (some new) }, ?_, ?_, rfl⟩
  · rw [Khash.setValue, write_of_lt _ valBound]
    rfl
  · refine ⟨Function.update slots k (.live key new), ?_, ?_, bound,
      Function.update_self ..⟩
    · apply represents.update bound
      · rfl
      · rfl
      · rfl
      · rfl
      · exact List.length_set ..
      · refine ⟨holds.flag, ?_⟩
        intro found other same
        cases same
        rw [List.getElem?_set_self valBound]
        exact ⟨(holds.cells key value rfl).1, rfl⟩
      · intro i different
        exact ⟨rfl, rfl, List.getElem?_set_ne (Ne.symm different)⟩
      · apply represents.lawful.replace
        · intro impossible
          cases impossible
        · intro found other same
          cases same
          exact ⟨value, isLive⟩
      · rw [isLive]
        rfl
      · rw [isLive]
        rfl
      · exact represents.room
    · rw [changed, Table.entries_set_middle split]
      simp [Slot.entry]

/-- Deleting the bucket takes the entry out of the listing. -/
theorem AtBucket.del (here : AtBucket hash h table key value k) :
    ∃ after, h.del k = some after ∧
      IsTable hash after (table.erase key) := by
  obtain ⟨slots, front, rest, represents, bound, isLive, split, changed⟩ :=
    here.split
  obtain ⟨after, deleted, kept, sameBuckets⟩ :=
    represents.del_spec bound isLive
  refine ⟨after, deleted, _, kept, ?_⟩
  rw [sameBuckets, changed, TableMap.entries_erase_middle split]
  simp [Slot.entry]

end Bucket

/-! ### The loop that removes values -/

section Remove

variable {σ : Type} {drop : α → Bool} {freed : σ → α → σ}

/-- The buckets after the loop has visited those below an index. -/
def removedBelow (drop : α → Bool) (slots : Nat → Slot κ α) (k i : Nat) :
    Slot κ α :=
  if i < k ∧ (slots i).entry.any (fun entry => drop entry.2) then
    .deleted
  else
    slots i

theorem removedBelow_zero (drop : α → Bool) (slots : Nat → Slot κ α) :
    removedBelow drop slots 0 = slots := by
  funext i
  exact if_neg fun both => absurd both.1 (Nat.not_lt_zero i)

theorem removedBelow_self (drop : α → Bool) (slots : Nat → Slot κ α)
    (k : Nat) :
    removedBelow drop slots k k = slots k :=
  if_neg fun both => absurd both.1 (Nat.lt_irrefl k)

theorem removedBelow_succ_of_keep
    {slots : Nat → Slot κ α} {k : Nat}
    (keep : (slots k).entry.any (fun entry => drop entry.2) = false) :
    removedBelow drop slots (k + 1) = removedBelow drop slots k := by
  funext i
  unfold removedBelow
  by_cases same : i = k
  · rw [same, keep]
    simp
  · have less : i < k + 1 ↔ i < k := by omega
    simp only [less]

theorem removedBelow_succ_of_drop
    {slots : Nat → Slot κ α} {k : Nat}
    (drops : (slots k).entry.any (fun entry => drop entry.2) = true) :
    removedBelow drop slots (k + 1) =
      Function.update (removedBelow drop slots k) k .deleted := by
  funext i
  by_cases same : i = k
  · rw [same, Function.update_self]
    exact if_pos ⟨Nat.lt_succ_self k, drops⟩
  · have less : i < k + 1 ↔ i < k := by omega
    rw [Function.update_of_ne same]
    unfold removedBelow
    simp only [less]

theorem entries_removedBelow (drop : α → Bool) (slots : Nat → Slot κ α)
    (n : Nat) :
    entries n (removedBelow drop slots n) =
      (entries n slots).filter fun entry => !drop entry.2 := by
  unfold entries collect
  rw [List.filter_filterMap]
  apply List.filterMap_congr
  intro i member
  rw [List.mem_range] at member
  unfold removedBelow
  cases slots i with
  | vacant => simp [Slot.entry]
  | deleted => simp [Slot.entry]
  | live key value =>
      cases dropped : drop value <;>
        simp [Slot.entry, member, dropped, Option.filter]

/-- What the loop has done before it visits a bucket. -/
structure Removing (hash : κ → Nat) (drop : α → Bool) (freed : σ → α → σ)
    (start : σ) (n : Nat) (slots : Nat → Slot κ α) (k : Nat)
    (state : σ × Khash κ α) : Prop where
  represents : Represents hash state.2 (removedBelow drop slots k)
  buckets : state.2.nBuckets = n
  freed : state.1 = ((entries k slots).filter fun entry => drop entry.2).foldl
    (fun s entry => freed s entry.2) start

theorem removeBucket_spec
    {start : σ} {n k : Nat} {slots : Nat → Slot κ α} {state : σ × Khash κ α}
    (bound : k < n)
    (removing : Removing hash drop freed start n slots k state) :
    ∃ after, removeBucket drop freed state k = some after ∧
      Removing hash drop freed start n slots (k + 1) after := by
  have inside : k < state.2.nBuckets := by
    rw [removing.buckets]
    exact bound
  have exists_eq := removing.represents.exist_eq inside
  have holds := removing.represents.holds k inside
  rw [removedBelow_self] at exists_eq holds
  have next : entries (k + 1) slots =
      entries k slots ++ (slots k).entry.toList := collect_succ ..
  have keeps : (slots k).entry.any (fun entry => drop entry.2) = false →
      Removing hash drop freed start n slots (k + 1) state := by
    intro keep
    refine ⟨?_, removing.buckets, ?_⟩
    · rw [removedBelow_succ_of_keep keep]
      exact removing.represents
    · rw [removing.freed, next, List.filter_append]
      cases isEntry : (slots k).entry with
      | none => simp
      | some entry =>
          rw [isEntry] at keep
          have kept : drop entry.2 = false := keep
          simp [kept]
  unfold removeBucket
  rw [exists_eq, Option.bind_some]
  cases slot : slots k with
  | vacant => exact ⟨state, rfl, keeps (by rw [slot]; rfl)⟩
  | deleted => exact ⟨state, rfl, keeps (by rw [slot]; rfl)⟩
  | live key value =>
      have isLive : removedBelow drop slots k k = .live key value := by
        rw [removedBelow_self, slot]
      have found : state.2.value k = some value := by
        rw [Khash.value, (holds.cells key value slot).2]
        rfl
      rw [slot] at next
      simp only [Slot.entry, Option.isSome_some, if_true, found,
        Option.bind_some, Option.toList_some] at next ⊢
      cases dropped : drop value with
      | false =>
          refine ⟨state, rfl, keeps ?_⟩
          rw [slot]
          exact dropped
      | true =>
          obtain ⟨after, deleted, kept, sameBuckets⟩ :=
            removing.represents.del_spec inside isLive
          have drops : (slots k).entry.any
              (fun entry => drop entry.2) = true := by
            rw [slot]
            exact dropped
          refine ⟨(freed state.1 value, after), ?_, ?_, ?_, ?_⟩
          · rw [if_pos rfl, deleted]
            rfl
          · rw [removedBelow_succ_of_drop drops]
            exact kept
          · rw [sameBuckets]
            exact removing.buckets
          · change freed state.1 value = _
            rw [next, List.filter_append, List.foldl_append,
              removing.freed]
            simp [dropped]

/-- The loop deletes the values that it frees and keeps the order of the
others. -/
theorem IsTable.removeLoop
    (isTable : IsTable hash h table) (drop : α → Bool) (freed : σ → α → σ)
    (start : σ) :
    ∃ after,
      Khash.removeLoop drop freed start h =
        some ((table.entries.filter fun entry => drop entry.2).foldl
          (fun s entry => freed s entry.2) start, after) ∧
      IsTable hash after (table.filter fun entry => !drop entry.2) := by
  obtain ⟨slots, represents, same⟩ := isTable
  have begins : Removing hash drop freed start h.nBuckets slots 0
      (start, h) := by
    refine ⟨?_, rfl, rfl⟩
    rw [removedBelow_zero]
    exact represents
  obtain ⟨⟨s, after⟩, ran, done⟩ := CheckedArray.forEach_invariant
    (fun k state bound removing => removeBucket_spec bound removing)
    h.nBuckets 0 (start, h) (Nat.zero_add _) begins
  have sameBuckets := done.buckets
  have total := done.freed
  have kept := done.represents
  simp only [same] at sameBuckets total kept
  refine ⟨after, ?_, _, kept, ?_⟩
  · rw [Khash.removeLoop, ran, total]
  · rw [sameBuckets, entries_removedBelow, same]
    rfl

end Remove

end Khash

end LibPaxos
