import LibPaxos.Khash.Lookup

/-!
# Resizing a hash table

`kh_resize` moves the entries within the arrays that they are in.  Whatever
number of buckets is requested, it keeps the entries, or leaves the table as it
is when the requested number is too small for them.
-/

namespace LibPaxos

open LibPaxos.Library LibPaxos.Library.Buckets

/-! ### The number of buckets -/

theorem exists_smeared (x : Nat) :
    ∃ y, Smeared 32 (word32 (x + (2 ^ 32 - 1))) y ∧
      kroundup32 x = word32 (y + 1) :=
  ⟨_, (Smeared.one _).double.double.double.double.double, rfl⟩

/-- A number is rounded up to the next power of two. -/
theorem kroundup32_of_between
    {x k : Nat} (low : 2 ^ k < x) (high : x ≤ 2 ^ (k + 1))
    (narrow : k + 1 ≤ 31) :
    kroundup32 x = 2 ^ (k + 1) := by
  obtain ⟨y, smeared, rounded⟩ := exists_smeared x
  have bound : 2 ^ (k + 1) ≤ 2 ^ 31 :=
    Nat.pow_le_pow_right (by omega) narrow
  have source : word32 (x + (2 ^ 32 - 1)) = x - 1 := by
    unfold word32
    omega
  rw [source] at smeared
  have filled := smeared.eq_two_pow_sub_one (by omega : 2 ^ k ≤ x - 1)
    (by omega) (by omega)
  have positive := Nat.two_pow_pos (k + 1)
  rw [rounded, filled, Nat.sub_add_cancel positive, word32_of_lt (by omega)]

/-- The result is a power of two, or zero where that would not fit. -/
theorem kroundup32_cases (x : Nat) :
    kroundup32 x = 0 ∨ ∃ k, k ≤ 31 ∧ kroundup32 x = 2 ^ k := by
  obtain ⟨y, smeared, rounded⟩ := exists_smeared x
  have bound : word32 (x + (2 ^ 32 - 1)) < 2 ^ 32 := Nat.mod_lt _ (by omega)
  generalize word32 (x + (2 ^ 32 - 1)) = source at smeared bound
  by_cases zero : source = 0
  · rw [zero] at smeared
    refine Or.inr ⟨0, by omega, ?_⟩
    rw [rounded, smeared.eq_zero]
    rfl
  · have low := Nat.log2_self_le zero
    have high := Nat.lt_log2_self (n := source)
    have wide : source.log2 < 32 := (Nat.log2_lt zero).mpr bound
    have filled := smeared.eq_two_pow_sub_one low high wide
    have positive := Nat.two_pow_pos (source.log2 + 1)
    rw [rounded, filled, Nat.sub_add_cancel positive]
    by_cases fits : source.log2 + 1 ≤ 31
    · refine Or.inr ⟨source.log2 + 1, fits, word32_of_lt ?_⟩
      exact Nat.pow_lt_pow_right (by omega) (by omega)
    · have top : source.log2 + 1 = 32 := by omega
      left
      rw [top]
      rfl

theorem resizeBuckets_isPower (n : Nat) :
    ∃ m, 2 ≤ m ∧ m ≤ 31 ∧ resizeBuckets n = 2 ^ m := by
  unfold resizeBuckets
  split
  · exact ⟨2, by omega, by omega, rfl⟩
  · next large =>
      rcases kroundup32_cases n with zero | ⟨k, narrow, isPower⟩
      · omega
      · refine ⟨k, ?_, narrow, isPower⟩
        by_contra small
        have short : 2 ^ k ≤ 2 ^ 1 :=
          Nat.pow_le_pow_right (by omega) (by omega)
        omega

theorem four_le_resizeBuckets (n : Nat) : 4 ≤ resizeBuckets n := by
  obtain ⟨m, wide, _, isPower⟩ := resizeBuckets_isPower n
  rw [isPower]
  exact Nat.pow_le_pow_right (n := 2) (by omega) wide

theorem resizeBuckets_of_between
    {x k : Nat} (low : 2 ^ k < x) (high : x ≤ 2 ^ (k + 1))
    (wide : 1 ≤ k) (narrow : k + 1 ≤ 31) :
    resizeBuckets x = 2 ^ (k + 1) := by
  have four : 2 ^ 2 ≤ 2 ^ (k + 1) :=
    Nat.pow_le_pow_right (by omega) (by omega)
  unfold resizeBuckets
  rw [kroundup32_of_between low high narrow, if_neg (by omega)]

/-! ### The cells of a bucket -/

theorem length_krealloc {α : Type} (cells : List (Option α)) (n : Nat) :
    (krealloc cells n).length = n := by
  unfold krealloc
  rw [List.length_append, List.length_take, List.length_replicate]
  omega

theorem getElem?_krealloc
    {α : Type} {cells : List (Option α)} {n i : Nat} (old : i < cells.length)
    (inside : i < n) :
    (krealloc cells n)[i]? = cells[i]? := by
  unfold krealloc
  rw [List.getElem?_append_left (by rw [List.length_take]; omega),
    List.getElem?_take_of_lt inside]

/-- An array that is reallocated only to grow. -/
theorem length_grown {α : Type} {cells : List (Option α)} {old new : Nat}
    (length : cells.length = old) :
    (if old < new then krealloc cells new else cells).length = max old new := by
  split
  · rw [length_krealloc]
    omega
  · omega

theorem getElem?_grown {α : Type} {cells : List (Option α)} {old new i : Nat}
    (length : cells.length = old) (bound : i < old) :
    (if old < new then krealloc cells new else cells)[i]? = cells[i]? := by
  split
  · exact getElem?_krealloc (by omega) (by omega)
  · rfl

/-- An array that is reallocated only to shrink. -/
theorem length_shrunk {α : Type} {cells : List (Option α)} {old new : Nat}
    (length : cells.length = max old new) :
    (if new < old then krealloc cells new else cells).length = new := by
  split
  · exact length_krealloc cells new
  · omega

theorem getElem?_shrunk {α : Type} {cells : List (Option α)}
    {old new i : Nat} (length : cells.length = max old new) (bound : i < new) :
    (if new < old then krealloc cells new else cells)[i]? = cells[i]? := by
  split
  · exact getElem?_krealloc (by omega) bound
  · rfl

namespace Khash

variable {κ α : Type}

section Holds

variable {flags otherFlags : List Flag} {keys otherKeys : List (Option κ)}
  {vals otherVals : List (Option α)} {i j : Nat} {slot : Slot κ α}

/-- A bucket depends on its own cells only. -/
theorem Holds.frame
    (holds : Holds flags keys vals i slot)
    (sameFlag : otherFlags[i]? = flags[i]?)
    (sameKey : otherKeys[i]? = keys[i]?)
    (sameVal : otherVals[i]? = vals[i]?) :
    Holds otherFlags otherKeys otherVals i slot := by
  constructor
  · rw [sameFlag]
    exact holds.flag
  · rw [sameKey, sameVal]
    exact holds.cells

/-- The cells of a bucket without an entry do not matter. -/
theorem Holds.of_no_entry
    (holds : Holds flags keys vals i slot) (noEntry : slot.entry = none) :
    Holds flags otherKeys otherVals i slot := by
  refine ⟨holds.flag, ?_⟩
  intro key value isLive
  rw [isLive] at noEntry
  cases noEntry

theorem Holds.lt (holds : Holds flags keys vals i slot) : i < flags.length :=
  (List.getElem?_eq_some_iff.mp holds.flag).1

theorem holds_deleted (bound : i < flags.length) :
    Holds (flags.set i ⟨false, true⟩) keys vals i (.deleted : Slot κ α) := by
  constructor
  · rw [List.getElem?_set_self bound]
    rfl
  · intro key value impossible
    cases impossible

theorem holds_live
    (bound : i < flags.length) (keyBound : i < keys.length)
    (valBound : i < vals.length) (key : κ) (value : α) :
    Holds (flags.set i ⟨false, false⟩) (keys.set i (some key))
      (vals.set i (some value)) i (.live key value) := by
  constructor
  · rw [List.getElem?_set_self bound]
    rfl
  · intro found other same
    cases same
    rw [List.getElem?_set_self keyBound, List.getElem?_set_self valBound]
    exact ⟨rfl, rfl⟩

theorem setIsdelTrue_of_live {key : κ} {value : α}
    (holds : Holds flags keys vals i (.live key value)) :
    setIsdelTrue flags i = some (flags.set i ⟨false, true⟩) := by
  rw [setIsdelTrue, holds.flag, Option.bind_some, CheckedArray.write,
    if_pos holds.lt]
  rfl

theorem setIsemptyFalse_of_vacant
    (holds : Holds flags keys vals i (.vacant : Slot κ α)) :
    setIsemptyFalse flags i = some (flags.set i ⟨false, false⟩) := by
  rw [setIsemptyFalse, holds.flag, Option.bind_some, CheckedArray.write,
    if_pos holds.lt]
  rfl

end Holds

theorem write_of_lt {β : Type} {cells : List β} {i : Nat} (value : β)
    (bound : i < cells.length) :
    CheckedArray.write cells i value = some (cells.set i value) :=
  if_pos bound

/-! ### Rehashing -/

/-- What the memory stands for while the entries are moved. -/
structure Rehash.Represents (oldCount newCount cells : Nat) (s : Rehash κ α)
    (old new : Nat → Slot κ α) : Prop where
  newFlags : s.newFlags.length = newCount
  keys : s.keys.length = cells
  vals : s.vals.length = cells
  old : ∀ i, i < oldCount → Holds s.flags s.keys s.vals i (old i)
  new : ∀ i, i < newCount → Holds s.newFlags s.keys s.vals i (new i)

/-- The search for an empty bucket ends at the first vacant one. -/
theorem emptyLoop_spec
    {hash : κ → Nat} {m : Nat} (narrow : m ≤ 31) {newFlags : List Flag}
    {keys : List (Option κ)} {vals : List (Option α)} {new : Nat → Slot κ α}
    (holds : ∀ i, i < 2 ^ m → Holds newFlags keys vals i (new i)) {key : κ}
    {stop : Nat}
    (first : First (fun step => new (probe hash (2 ^ m) key step) = .vacant)
      stop)
    (fuel : Nat) :
    ∀ step, step ≤ stop → stop < step + fuel →
      emptyLoop newFlags (2 ^ m - 1) fuel (probe hash (2 ^ m) key step) step =
        some (probe hash (2 ^ m) key stop) := by
  induction fuel with
  | zero =>
      intro step before after
      omega
  | succ fuel inductionHypothesis =>
      intro step before after
      have here := holds _ (probe_lt hash key step)
      rw [emptyLoop, here.flag, Option.bind_some]
      by_cases same : step = stop
      · rw [same, first.here]
        rfl
      · have used := first.earlier step (by omega)
        have moves : (!(slotFlag (new (probe hash (2 ^ m) key step))).isempty) =
            true := by
          cases slot : new (probe hash (2 ^ m) key step) with
          | vacant => exact False.elim (used slot)
          | deleted => rfl
          | live found value => rfl
        rw [if_pos moves, probe_succ hash narrow]
        exact inductionHypothesis (step + 1) (by omega) (by omega)

section Rehashing

variable {hash : κ → Nat} {oldCount m cells : Nat} {s : Rehash κ α}
  {old new : Nat → Slot κ α}

/-- An element is written to a vacant bucket of the new table. -/
theorem Rehash.Represents.write
    (represents : Rehash.Represents oldCount (2 ^ m) cells s old new)
    {i : Nat} (bound : i < 2 ^ m) (cellBound : i < cells)
    {flags : List Flag} {oldAfter : Nat → Slot κ α}
    (noEntry : i < oldCount → (oldAfter i).entry = none)
    (oldHolds : ∀ j, j < oldCount →
      Holds flags s.keys s.vals j (oldAfter j))
    (key : κ) (value : α) :
    Rehash.Represents oldCount (2 ^ m) cells
      ⟨flags, s.newFlags.set i ⟨false, false⟩, s.keys.set i (some key),
        s.vals.set i (some value)⟩
      oldAfter (Function.update new i (.live key value)) := by
  have keyBound : i < s.keys.length := by
    rw [represents.keys]
    exact cellBound
  have valBound : i < s.vals.length := by
    rw [represents.vals]
    exact cellBound
  have flagBound : i < s.newFlags.length := by
    rw [represents.newFlags]
    exact bound
  constructor
  · rw [List.length_set, represents.newFlags]
  · rw [List.length_set, represents.keys]
  · rw [List.length_set, represents.vals]
  · intro j jBound
    by_cases same : j = i
    · rw [same] at jBound ⊢
      exact (oldHolds i jBound).of_no_entry (noEntry jBound)
    · apply (oldHolds j jBound).frame rfl
      · exact List.getElem?_set_ne (Ne.symm same)
      · exact List.getElem?_set_ne (Ne.symm same)
  · intro j jBound
    by_cases same : j = i
    · rw [same, Function.update_self]
      exact holds_live flagBound keyBound valBound key value
    · rw [Function.update_of_ne same]
      apply (represents.new j jBound).frame
      · exact List.getElem?_set_ne (Ne.symm same)
      · exact List.getElem?_set_ne (Ne.symm same)
      · exact List.getElem?_set_ne (Ne.symm same)

/-- An entry of the old table is marked as deleted. -/
theorem Rehash.Represents.mark
    (represents : Rehash.Represents oldCount (2 ^ m) cells s old new)
    {i : Nat} (bound : i < oldCount) :
    ∀ j, j < oldCount →
      Holds (s.flags.set i ⟨false, true⟩) s.keys s.vals j
        (Function.update old i .deleted j) := by
  intro j jBound
  by_cases same : j = i
  · rw [same, Function.update_self]
    exact holds_deleted (represents.old i bound).lt
  · rw [Function.update_of_ne same]
    exact (represents.old j jBound).frame
      (List.getElem?_set_ne (Ne.symm same)) rfl rfl

/-- No old bucket gets an entry. -/
def Empties (old after : Nat → Slot κ α) : Prop :=
  ∀ i, (old i).entry = none → (after i).entry = none

theorem Empties.trans {first second third : Nat → Slot κ α}
    (left : Empties first second) (right : Empties second third) :
    Empties first third :=
  fun i noEntry => right i (left i noEntry)

theorem empties_update (old : Nat → Slot κ α) (i : Nat) :
    Empties old (Function.update old i .deleted) := by
  intro j noEntry
  by_cases same : j = i
  · rw [same, Function.update_self]
    rfl
  · rw [Function.update_of_ne same]
    exact noEntry

variable {original : List (κ × α)}

/-- The kick-out loop ends: every element that it kicks out leaves one entry
fewer in the old table. -/
theorem kickOut_spec
    (narrow : m ≤ 31) (newCells : 2 ^ m ≤ cells)
    (distinct : (original.map Prod.fst).Nodup)
    (room : original.length < 2 ^ m) (fuel : Nat) :
    ∀ {s : Rehash κ α} {old new : Nat → Slot κ α} {key : κ} {val : α},
      Rehash.Represents oldCount (2 ^ m) cells s old new →
      Moving (probe hash (2 ^ m)) oldCount (2 ^ m) original old new
        [(key, val)] →
      (entries oldCount old).length < fuel →
      ∃ after oldAfter newAfter,
        kickOut hash oldCount (2 ^ m) fuel s key val = some after ∧
        Rehash.Represents oldCount (2 ^ m) cells after oldAfter newAfter ∧
        Moving (probe hash (2 ^ m)) oldCount (2 ^ m) original oldAfter newAfter
          [] ∧
        Empties old oldAfter := by
  induction fuel with
  | zero =>
      intro s old new key val _ _ enough
      omega
  | succ fuel inductionHypothesis =>
      intro s old new key val represents moving enough
      obtain ⟨stop, stopBound, first⟩ := moving.exists_first_vacant room
        (fun i bound => probe_covers hash key bound)
      have ends := emptyLoop_spec narrow represents.new first (2 ^ m) 0
        (Nat.zero_le stop) (by omega)
      obtain ⟨i, isPlace⟩ : ∃ i, probe hash (2 ^ m) key stop = i := ⟨_, rfl⟩
      have bound : i < 2 ^ m := by
        rw [← isPlace]
        exact probe_lt hash key stop
      have cellBound : i < cells := by omega
      have vacant := represents.new i bound
      have isVacant : new i = .vacant := by
        rw [← isPlace]
        exact first.here
      rw [isVacant] at vacant
      have keyWritten := write_of_lt (some key)
        (by rw [represents.keys]; exact cellBound : i < s.keys.length)
      have valWritten := write_of_lt (some val)
        (by rw [represents.vals]; exact cellBound : i < s.vals.length)
      rw [kickOut, probe_zero, ends, Option.bind_some, isPlace,
        setIsemptyFalse_of_vacant vacant, Option.bind_some]
      by_cases kicked : i < oldCount ∧ (old i).entry ≠ none
      · -- The place holds an element of the old table, which comes next.
        obtain ⟨oldBound, hasEntry⟩ := kicked
        obtain ⟨⟨nextKey, nextVal⟩, isEntry⟩ :=
          Option.ne_none_iff_exists'.mp hasEntry
        have isLive := Slot.entry_eq_some_iff.mp isEntry
        have holds := represents.old i oldBound
        rw [isLive] at holds
        have found := holds.cells nextKey nextVal rfl
        have stored := represents.write bound cellBound
          (fun _ => by rw [Function.update_self]; rfl)
          (represents.mark oldBound) key val
        obtain ⟨taken, fewer⟩ := moving.take oldBound isLive
        have placed := taken.place distinct (by rw [isPlace]; exact bound)
          first (by rw [isPlace, Function.update_self]; intro _; rfl)
        rw [isPlace] at placed
        obtain ⟨after, oldAfter, newAfter, ran, kept, moved, empties⟩ :=
          inductionHypothesis stored placed (by omega)
        refine ⟨after, oldAfter, newAfter, ?_, kept, moved,
          (empties_update old i).trans empties⟩
        rw [if_pos oldBound, holds.flag, Option.map_some, Option.bind_some]
        simp only [slotFlag, Flag.iseither, Bool.or_self, Bool.not_false,
          if_true, found.1, found.2, Option.join_some, Option.bind_some,
          keyWritten, valWritten, setIsdelTrue_of_live holds]
        exact ran
      · have noEntry : i < oldCount → (old i).entry = none := by
          intro oldBound
          by_contra hasEntry
          exact kicked ⟨oldBound, hasEntry⟩
        have stored := represents.write bound cellBound noEntry
          represents.old key val
        have placed := moving.place distinct (by rw [isPlace]; exact bound)
          first (by rw [isPlace]; exact noEntry)
        rw [isPlace] at placed
        have stays : (if i < oldCount then
            s.flags[i]?.map fun flag => !flag.iseither
          else some false) = some false := by
          split
          · next oldBound =>
              rw [(represents.old i oldBound).flag, Option.map_some]
              have unlive := noEntry oldBound
              cases slot : old i with
              | vacant => rfl
              | deleted => rfl
              | live found value =>
                  rw [slot] at unlive
                  cases unlive
          · rfl
        refine ⟨_, old, _, ?_, stored, placed, fun _ noEntry => noEntry⟩
        rw [stays, Option.bind_some, if_neg Bool.false_ne_true, keyWritten,
          Option.bind_some, valWritten, Option.map_some]

/-- One old bucket is emptied. -/
theorem rehashBucket_spec
    (narrow : m ≤ 31) (newCells : 2 ^ m ≤ cells)
    (distinct : (original.map Prod.fst).Nodup)
    (room : original.length < 2 ^ m)
    (represents : Rehash.Represents oldCount (2 ^ m) cells s old new)
    (moving : Moving (probe hash (2 ^ m)) oldCount (2 ^ m) original old new [])
    {j : Nat} (bound : j < oldCount) :
    ∃ after oldAfter newAfter,
      rehashBucket hash oldCount (2 ^ m) s j = some after ∧
      Rehash.Represents oldCount (2 ^ m) cells after oldAfter newAfter ∧
      Moving (probe hash (2 ^ m)) oldCount (2 ^ m) original oldAfter newAfter
        [] ∧
      Empties old oldAfter ∧ (oldAfter j).entry = none := by
  have holds := represents.old j bound
  unfold rehashBucket
  rw [holds.flag, Option.bind_some]
  cases slot : old j with
  | vacant =>
      exact ⟨s, old, new, rfl, represents, moving, fun _ none => none,
        by rw [slot]; rfl⟩
  | deleted =>
      exact ⟨s, old, new, rfl, represents, moving, fun _ none => none,
        by rw [slot]; rfl⟩
  | live key val =>
      rw [slot] at holds
      have found := holds.cells key val rfl
      obtain ⟨taken, fewer⟩ := moving.take bound slot
      have marked : Rehash.Represents oldCount (2 ^ m) cells
          { s with flags := s.flags.set j ⟨false, true⟩ }
          (Function.update old j .deleted) new :=
        ⟨represents.newFlags, represents.keys, represents.vals,
          represents.mark bound, represents.new⟩
      have short := length_collect_le oldCount fun i => (old i).entry
      obtain ⟨after, oldAfter, newAfter, ran, kept, moved, empties⟩ :=
        kickOut_spec narrow newCells distinct room (oldCount + 1)
          marked taken (by unfold entries at *; omega)
      refine ⟨after, oldAfter, newAfter, ?_, kept, moved,
        (empties_update old j).trans empties, ?_⟩
      · simp only [slotFlag, Flag.iseither, Bool.or_self, Bool.not_false,
          if_true, found.1, found.2, Option.join_some, Option.bind_some,
          setIsdelTrue_of_live holds]
        exact ran
      · apply empties
        rw [Function.update_self]
        rfl

/-- Before an old bucket is visited, the ones below it are empty. -/
def EmptiedBelow (hash : κ → Nat) (oldCount m cells : Nat)
    (original : List (κ × α)) (j : Nat) (s : Rehash κ α) : Prop :=
  ∃ old new,
    Rehash.Represents oldCount (2 ^ m) cells s old new ∧
    Moving (probe hash (2 ^ m)) oldCount (2 ^ m) original old new [] ∧
    ∀ i, i < j → (old i).entry = none

/-- The loop over the old buckets moves everything to the new table. -/
theorem rehash_spec
    (narrow : m ≤ 31) (newCells : 2 ^ m ≤ cells)
    (distinct : (original.map Prod.fst).Nodup)
    (room : original.length < 2 ^ m)
    (start : EmptiedBelow hash oldCount m cells original 0 s) :
    ∃ after,
      CheckedArray.forEach (rehashBucket hash oldCount (2 ^ m)) oldCount 0 s =
        some after ∧
      EmptiedBelow hash oldCount m cells original oldCount after := by
  have step : ∀ j (state : Rehash κ α), j < oldCount →
      EmptiedBelow hash oldCount m cells original j state →
      ∃ after, rehashBucket hash oldCount (2 ^ m) state j = some after ∧
        EmptiedBelow hash oldCount m cells original (j + 1) after := by
    rintro j state bound ⟨old, new, represents, moving, below⟩
    obtain ⟨after, oldAfter, newAfter, ran, kept, moved, empties, emptied⟩ :=
      rehashBucket_spec narrow newCells distinct room represents moving bound
    refine ⟨after, ran, oldAfter, newAfter, kept, moved, ?_⟩
    intro i less
    by_cases same : i = j
    · rw [same]
      exact emptied
    · exact empties i (below i (by omega))
  exact CheckedArray.forEach_invariant step oldCount 0 s (Nat.zero_add _) start

end Rehashing

section Resize

variable {hash : κ → Nat} {h : Khash κ α} {slots : Nat → Slot κ α}

theorem Represents.rehashStart
    (represents : Represents hash h slots) (m : Nat) :
    EmptiedBelow hash h.nBuckets m (max h.nBuckets (2 ^ m))
      (entries h.nBuckets slots) 0 (h.rehashStart (2 ^ m)) := by
  refine ⟨slots, fun _ => .vacant, ⟨List.length_replicate,
    length_grown represents.keys, length_grown represents.vals, ?_, ?_⟩,
    Moving.start _ _ _ _, ?_⟩
  · intro i bound
    exact (represents.holds i bound).frame rfl
      (getElem?_grown represents.keys bound)
      (getElem?_grown represents.vals bound)
  · intro i bound
    refine ⟨List.getElem?_replicate_of_lt bound, ?_⟩
    intro key value impossible
    cases impossible
  · intro i impossible
    exact absurd impossible (Nat.not_lt_zero i)

theorem entries_eq_nil {n : Nat}
    (noEntry : ∀ i, i < n → (slots i).entry = none) :
    entries n slots = [] := by
  rw [List.eq_nil_iff_forall_not_mem]
  rintro ⟨key, value⟩ member
  obtain ⟨i, bound, isLive⟩ := mem_entries_iff.mp member
  have missing := noEntry i bound
  rw [isLive] at missing
  cases missing

theorem Represents.rehashEnd
    (represents : Represents hash h slots) {m : Nat} (wide : 2 ≤ m)
    (narrow : m ≤ 31) (fits : h.size ≤ hashUpper (2 ^ m)) {s : Rehash κ α}
    (emptied : EmptiedBelow hash h.nBuckets m (max h.nBuckets (2 ^ m))
      (entries h.nBuckets slots) h.nBuckets s) :
    ∃ new, Represents hash (h.rehashEnd (2 ^ m) s) new ∧
      (entries (2 ^ m) new).Perm (entries h.nBuckets slots) := by
  obtain ⟨old, new, kept, moving, below⟩ := emptied
  have same := moving.same
  rw [entries_eq_nil below, List.nil_append, List.append_nil] at same
  have count : h.size = (entries (2 ^ m) new).length := by
    rw [represents.size, same.length_eq]
  refine ⟨new, ?_, same⟩
  constructor
  · exact Or.inr ⟨m, wide, narrow, rfl⟩
  · exact kept.newFlags
  · exact length_shrunk kept.keys
  · exact length_shrunk kept.vals
  · intro i bound
    exact (kept.new i bound).frame rfl (getElem?_shrunk kept.keys bound)
      (getElem?_shrunk kept.vals bound)
  · exact moving.lawful
  · exact count
  · rw [usedCount_eq_length_entries moving.fresh]
    exact count
  · rfl
  · exact fits

/-- What `kh_resize` does with a requested number of buckets. -/
structure Resized (n : Nat) (before after : Khash κ α) : Prop where
  tooSmall : hashUpper (resizeBuckets n) ≤ before.size → after = before
  nBuckets : before.size < hashUpper (resizeBuckets n) →
    after.nBuckets = resizeBuckets n
  cleared : before.size < hashUpper (resizeBuckets n) →
    after.nOccupied = before.size

/-- Any request is served: the table keeps its entries and stays a table that
can be searched. -/
theorem Represents.resize_spec
    (represents : Represents hash h slots) (n : Nat) :
    ∃ after slotsAfter,
      h.resize hash n = some after ∧
      Represents hash after slotsAfter ∧
      (entries after.nBuckets slotsAfter).Perm (entries h.nBuckets slots) ∧
      Resized n h after := by
  unfold resize
  by_cases small : hashUpper (resizeBuckets n) ≤ h.size
  · refine ⟨h, slots, if_pos small, represents, List.Perm.refl _, ?_⟩
    exact ⟨fun _ => rfl, fun large => by omega, fun large => by omega⟩
  · obtain ⟨m, wide, narrow, isPower⟩ := resizeBuckets_isPower n
    have below := hashUpper_lt (four_le_resizeBuckets n)
    rw [isPower] at below small
    have room : (entries h.nBuckets slots).length < 2 ^ m := by
      rw [← represents.size]
      omega
    obtain ⟨s, ran, emptied⟩ := rehash_spec narrow (Nat.le_max_right _ _)
      represents.lawful.nodup room (represents.rehashStart m)
    obtain ⟨new, kept, same⟩ :=
      represents.rehashEnd wide narrow (by omega) emptied
    refine ⟨h.rehashEnd (2 ^ m) s, new, ?_, kept, same, ?_⟩
    · simp only [isPower, if_neg small, ran, Option.map_some]
    · constructor
      · rw [isPower]
        exact fun tooSmall => absurd tooSmall small
      · rw [isPower]
        exact fun _ => rfl
      · exact fun _ => rfl

end Resize

end Khash

end LibPaxos
