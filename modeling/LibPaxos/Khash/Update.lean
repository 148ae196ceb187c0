import LibPaxos.Khash.Resize

/-!
# Changing a hash table

`kh_del`, and `kh_put` with the assignment of the value that follows it in the
source.  A put has room as long as the table has fewer than `2 ^ 30` entries;
from then on the number of buckets that it asks for would not fit.
-/

namespace LibPaxos

open LibPaxos.Library LibPaxos.Library.Buckets

namespace Khash

variable {κ α : Type} {hash : κ → Nat} {h : Khash κ α}
  {slots : Nat → Slot κ α}

theorem word32_pred {n : Nat} (positive : 0 < n) (bound : n ≤ 2 ^ 31) :
    word32 (n + (2 ^ 32 - 1)) = n - 1 := by
  unfold word32
  omega

/-- A change at one bucket, with the counts that go with it. -/
theorem Represents.update
    (represents : Represents hash h slots) {x : Nat} {slot : Slot κ α}
    {after : Khash κ α} (bound : x < h.nBuckets)
    (sameBuckets : after.nBuckets = h.nBuckets)
    (sameUpper : after.upperBound = h.upperBound)
    (flags : after.flags.length = h.flags.length)
    (keys : after.keys.length = h.keys.length)
    (vals : after.vals.length = h.vals.length)
    (here : Holds after.flags after.keys after.vals x slot)
    (others : ∀ i, i ≠ x → after.flags[i]? = h.flags[i]? ∧
      after.keys[i]? = h.keys[i]? ∧ after.vals[i]? = h.vals[i]?)
    (lawful : Lawful (probe hash h.nBuckets) h.nBuckets
      (Function.update slots x slot))
    (size : after.size + (slots x).entry.toList.length =
      h.size + slot.entry.toList.length)
    (occupied : after.nOccupied + (slots x).mark.toList.length =
      h.nOccupied + slot.mark.toList.length)
    (room : after.nOccupied ≤ h.upperBound) :
    Represents hash after (Function.update slots x slot) := by
  have entryCount := length_entries_update bound slots slot
  have markCount := usedCount_update bound slots slot
  rw [← represents.size] at entryCount
  rw [← represents.occupied] at markCount
  constructor
  · rw [sameBuckets]
    exact represents.buckets
  · rw [flags, sameBuckets, represents.flags]
  · rw [keys, sameBuckets, represents.keys]
  · rw [vals, sameBuckets, represents.vals]
  · rw [sameBuckets]
    intro i iBound
    by_cases same : i = x
    · rw [same, Function.update_self]
      exact here
    · rw [Function.update_of_ne same]
      obtain ⟨sameFlag, sameKey, sameVal⟩ := others i same
      exact (represents.holds i iBound).frame sameFlag sameKey sameVal
  · rw [sameBuckets]
    exact lawful
  · rw [sameBuckets]
    omega
  · rw [sameBuckets]
    omega
  · rw [sameUpper, sameBuckets, represents.upper]
  · rw [sameUpper]
    exact room

/-! ### Deleting -/

/-- The end of the table has nothing to delete. -/
theorem del_end (h : Khash κ α) : h.del h.nBuckets = some h := by
  unfold del
  exact if_neg fun different => different rfl

theorem Represents.del_spec
    (represents : Represents hash h slots) {x : Nat} {key : κ} {value : α}
    (bound : x < h.nBuckets) (isLive : slots x = .live key value) :
    ∃ after, h.del x = some after ∧
      Represents hash after (Function.update slots x .deleted) ∧
      after.nBuckets = h.nBuckets := by
  have holds := represents.holds x bound
  rw [isLive] at holds
  have notEnd : x ≠ h.nBuckets := by omega
  have small := represents.size_le.trans represents.nBuckets_le
  have positive : 0 < h.size := by
    rw [represents.size, List.length_pos_iff_exists_mem]
    exact ⟨(key, value), mem_entries_iff.mpr ⟨x, bound, isLive⟩⟩
  refine ⟨{ h with flags := h.flags.set x ⟨false, true⟩, size := h.size - 1 },
    ?_, ?_, rfl⟩
  · unfold del
    rw [if_pos notEnd, holds.flag, Option.bind_some,
      setIsdelTrue_of_live holds, word32_pred positive small]
    rfl
  · apply represents.update bound
    · rfl
    · rfl
    · exact List.length_set ..
    · rfl
    · rfl
    · exact holds_deleted holds.lt
    · intro i different
      exact ⟨List.getElem?_set_ne (Ne.symm different), rfl, rfl⟩
    · apply represents.lawful.replace
      · intro impossible
        cases impossible
      · intro found other impossible
        cases impossible
    · rw [isLive]
      change h.size - 1 + 1 = h.size + 0
      omega
    · rw [isLive]
      rfl
    · exact represents.room

/-! ### Making room -/

theorem Represents.makeRoom_spec
    (represents : Represents hash h slots) (small : h.size < 2 ^ 30) :
    ∃ after slotsAfter,
      h.makeRoom hash = some after ∧
      Represents hash after slotsAfter ∧
      (entries after.nBuckets slotsAfter).Perm (entries h.nBuckets slots) ∧
      after.nOccupied < after.upperBound := by
  unfold makeRoom
  by_cases full : h.upperBound ≤ h.nOccupied
  · -- A request that the entries fit in leaves room for one more.
    have served : ∀ n, h.size < hashUpper (resizeBuckets n) →
        ∃ after slotsAfter,
          h.resize hash n = some after ∧
          Represents hash after slotsAfter ∧
          (entries after.nBuckets slotsAfter).Perm
            (entries h.nBuckets slots) ∧
          after.nOccupied < after.upperBound := by
      intro n fits
      obtain ⟨after, slotsAfter, ran, kept, same, resized⟩ :=
        represents.resize_spec n
      refine ⟨after, slotsAfter, ran, kept, same, ?_⟩
      rw [kept.upper, resized.nBuckets fits, resized.cleared fits]
      exact fits
    have doubled : word32 (h.size <<< 1) = 2 * h.size := by
      rw [Nat.shiftLeft_eq, word32_of_lt (by omega)]
      omega
    have atMost := represents.size_le
    rw [if_pos full, doubled]
    rcases represents.buckets with none | ⟨m, wide, narrow, isPower⟩
    · have one : word32 (h.nBuckets + 1) = 1 := by
        rw [none]
        rfl
      have empty : h.size = 0 := by omega
      rw [if_neg (by omega), one]
      apply served
      rw [empty]
      decide
    · obtain ⟨k, rfl⟩ : ∃ k, m = k + 1 := ⟨m - 1, by omega⟩
      have half : 2 ^ (k + 1) = 2 ^ k * 2 := Nat.pow_succ 2 k
      have two : 2 ^ 1 ≤ 2 ^ k := Nat.pow_le_pow_right (by omega) (by omega)
      by_cases sparse : 2 * h.size < h.nBuckets
      · rw [if_pos sparse]
        apply served
        rw [isPower] at sparse ⊢
        rw [resizeBuckets_of_between (k := k) (by omega) (by omega)
          (by omega) narrow]
        unfold hashUpper
        omega
      · have expands : k + 1 ≤ 30 := by
          by_contra wider
          have top : 2 ^ 31 ≤ 2 ^ (k + 1) :=
            Nat.pow_le_pow_right (by omega) (by omega)
          omega
        have top : 2 ^ (k + 1) ≤ 2 ^ 30 :=
          Nat.pow_le_pow_right (by omega) expands
        have next : 2 ^ (k + 1 + 1) = 2 ^ (k + 1) * 2 := Nat.pow_succ 2 (k + 1)
        rw [if_neg sparse]
        apply served
        rw [word32_of_lt (by omega), isPower,
          resizeBuckets_of_between (k := k + 1) (by omega) (by omega)
            (by omega) (by omega)]
        unfold hashUpper
        omega
  · rw [if_neg full]
    exact ⟨h, slots, rfl, represents, List.Perm.refl _, by omega⟩

/-! ### Putting -/

/-- The bucket that a put chooses: it has the key, or it is a free bucket on the
path of a key that has none, with no vacant bucket before it. -/
def Chooses (hash : κ → Nat) (buckets : Nat) (slots : Nat → Slot κ α)
    (key : κ) (x : Nat) : Prop :=
  ∃ step, step < buckets ∧ probe hash buckets key step = x ∧
    (∀ earlier, earlier < step →
      slots (probe hash buckets key earlier) ≠ .vacant) ∧
    ((∃ value, slots x = .live key value) ∨
      ((slots x).entry = none ∧
        ∀ i value, i < buckets → slots i ≠ .live key value))

/-- A deleted bucket that the search has passed, or the end if there is none. -/
def Site (hash : κ → Nat) (buckets : Nat) (slots : Nat → Slot κ α)
    (key : κ) (step site : Nat) : Prop :=
  site = buckets ∨
    ∃ seen, seen < step ∧ probe hash buckets key seen = site ∧
      slots site = .deleted

/-- Where the search stops, a put takes the deleted bucket that it has passed,
if it has not found the key. -/
theorem chooses_of_first
    (represents : Represents hash h slots) {m : Nat}
    (isPower : h.nBuckets = 2 ^ m) {key : κ} {stop site : Nat}
    (inside : stop < 2 ^ m)
    (first : First (fun step =>
      Stops slots key (probe hash (2 ^ m) key step)) stop)
    (isSite : Site hash (2 ^ m) slots key stop site) :
    ∀ flag, h.flags[probe hash (2 ^ m) key stop]? = some flag →
      Chooses hash (2 ^ m) slots key
        (if flag.isempty ∧ site ≠ h.nBuckets then site
          else probe hash (2 ^ m) key stop) := by
  intro flag found
  have bound := probe_lt hash (m := m) key stop
  have holds := represents.holds _ (by rw [isPower]; exact bound)
  rw [holds.flag] at found
  cases found
  have unvacant : ∀ earlier, earlier < stop →
      slots (probe hash (2 ^ m) key earlier) ≠ .vacant := by
    intro earlier less vacant
    exact first.earlier earlier less (Or.inl vacant)
  rcases first.here with vacant | ⟨value, isLive⟩
  · have absent : ∀ i value, i < 2 ^ m → slots i ≠ .live key value := by
      intro i value iBound isLive
      have lawful := represents.lawful
      rw [isPower] at lawful
      have arrives := lawful.eq_of_first bound first iBound isLive
      rw [arrives, isLive] at vacant
      cases vacant
    rcases isSite with none | ⟨seen, less, arrives, isDeleted⟩
    · rw [if_neg (by rw [isPower]; exact fun both => both.2 none)]
      exact ⟨stop, inside, rfl, unvacant, Or.inr ⟨by rw [vacant]; rfl, absent⟩⟩
    · have siteBound : site < 2 ^ m := by
        rw [← arrives]
        exact probe_lt hash key seen
      rw [vacant, if_pos ⟨rfl, by omega⟩]
      refine ⟨seen, by omega, arrives, ?_, Or.inr ⟨by rw [isDeleted]; rfl,
        absent⟩⟩
      exact fun earlier before => unvacant earlier (by omega)
  · have full : ¬ ((slotFlag (slots (probe hash (2 ^ m) key stop))).isempty =
        true ∧ site ≠ h.nBuckets) := by
      rw [isLive]
      exact fun both => Bool.false_ne_true both.1
    rw [if_neg full]
    exact ⟨stop, inside, rfl, unvacant, Or.inl ⟨value, isLive⟩⟩

variable [DecidableEq κ]

theorem putLoop_spec
    (represents : Represents hash h slots) {m : Nat} (narrow : m ≤ 31)
    (isPower : h.nBuckets = 2 ^ m) {key : κ} {stop : Nat}
    (inside : stop < 2 ^ m)
    (first : First (fun step =>
      Stops slots key (probe hash (2 ^ m) key step)) stop)
    (fuel : Nat) :
    ∀ step site, step ≤ stop → stop < step + fuel →
      Site hash (2 ^ m) slots key step site →
      ∃ x, h.putLoop key (probe hash (2 ^ m) key 0) fuel
          (probe hash (2 ^ m) key step) step site = some x ∧
        Chooses hash (2 ^ m) slots key x := by
  induction fuel with
  | zero =>
      intro step site before after
      omega
  | succ fuel inductionHypothesis =>
      intro step site before after isSite
      have bound : probe hash (2 ^ m) key step < h.nBuckets := by
        rw [isPower]
        exact probe_lt hash key step
      have holds := represents.holds _ bound
      obtain ⟨stops, isStop, stops_iff⟩ := represents.stopsAt_eq key bound
      rw [putLoop, isStop, Option.bind_some, holds.flag, Option.bind_some]
      by_cases same : step = stop
      · rw [if_pos (stops_iff.mpr (by rw [same]; exact first.here))]
        rw [same] at isSite holds ⊢
        exact ⟨_, rfl,
          chooses_of_first represents isPower inside first isSite _ holds.flag⟩
      · have moves : ¬ stops = true := by
          intro stopped
          exact first.earlier step (by omega) (stops_iff.mp stopped)
        have next : nextBucket (h.nBuckets - 1)
            (probe hash (2 ^ m) key step) (step + 1) =
              probe hash (2 ^ m) key (step + 1) := by
          rw [isPower]
          exact probe_succ hash narrow key step
        have differs := probe_ne hash key
          (Nat.zero_lt_succ step) (by omega : step + 1 < 2 ^ m)
        rw [if_neg moves]
        simp only [next, if_neg differs]
        apply inductionHypothesis (step + 1) _ (by omega) (by omega)
        cases slot : slots (probe hash (2 ^ m) key step) with
        | deleted => exact Or.inr ⟨step, by omega, rfl, slot⟩
        | vacant =>
            exact absurd (Or.inl slot) (first.earlier step (by omega))
        | live found value =>
            rcases isSite with none | ⟨seen, less, arrives, isDeleted⟩
            · exact Or.inl none
            · exact Or.inr ⟨seen, by omega, arrives, isDeleted⟩

theorem Represents.putBucket_spec
    (represents : Represents hash h slots)
    (room : h.nOccupied < h.upperBound) (key : κ) :
    ∃ x, h.putBucket hash key = some x ∧
      Chooses hash h.nBuckets slots key x := by
  have upper := represents.upper
  rcases represents.buckets with none | ⟨m, wide, narrow, isPower⟩
  · rw [none] at upper
    have zero : hashUpper 0 = 0 := by decide
    omega
  · obtain ⟨stop, inside, first⟩ := exists_first_stop
      (fun i bound => probe_covers hash key bound)
      (represents.usedCount_lt wide isPower)
    have start : hash key &&& (h.nBuckets - 1) =
        probe hash (2 ^ m) key 0 := by
      rw [isPower]
      exact probe_zero hash key
    have bound : probe hash (2 ^ m) key 0 < h.nBuckets := by
      rw [isPower]
      exact probe_lt hash key 0
    have holds := represents.holds _ bound
    rw [putBucket, start, holds.flag, Option.bind_some]
    split
    · next isempty =>
        -- The shortcut for an empty first bucket.
        have vacant : slots (probe hash (2 ^ m) key 0) = .vacant := by
          cases slot : slots (probe hash (2 ^ m) key 0) with
          | vacant => rfl
          | deleted =>
              rw [slot] at isempty
              cases isempty
          | live found value =>
              rw [slot] at isempty
              cases isempty
        have isFirst : First (fun step =>
            Stops slots key (probe hash (2 ^ m) key step)) 0 :=
          ⟨Or.inl vacant, fun before less => absurd less (Nat.not_lt_zero _)⟩
        have chosen := chooses_of_first represents isPower
          (Nat.two_pow_pos m) isFirst (Or.inl rfl) _ holds.flag
        rw [if_neg (by rw [isPower]; exact fun both => both.2 rfl)] at chosen
        rw [isPower]
        exact ⟨_, rfl, chosen⟩
    · rw [isPower]
      have ran := putLoop_spec represents narrow isPower inside first
        h.nBuckets 0 h.nBuckets (Nat.zero_le stop) (by omega)
        (Or.inl isPower)
      rw [isPower] at ran
      exact ran

omit [DecidableEq κ] in
theorem write_claimed
    (represents : Represents hash h slots) {x : Nat} (bound : x < h.nBuckets)
    (key : κ) :
    CheckedArray.write h.keys x (some key) = some (h.keys.set x (some key)) ∧
      CheckedArray.write h.flags x ⟨false, false⟩ =
        some (h.flags.set x ⟨false, false⟩) := by
  constructor
  · apply write_of_lt
    rw [represents.keys]
    exact bound
  · apply write_of_lt
    rw [represents.flags]
    exact bound

omit [DecidableEq κ] in
/-- A bucket with a key and a value written to it, and the counts. -/
theorem Represents.fill
    (represents : Represents hash h slots) {x : Nat} (bound : x < h.nBuckets)
    (key : κ) (value : α) {size occupied : Nat}
    (lawful : Lawful (probe hash h.nBuckets) h.nBuckets
      (Function.update slots x (.live key value)))
    (sizeCount : size + (slots x).entry.toList.length = h.size + 1)
    (markCount : occupied + (slots x).mark.toList.length = h.nOccupied + 1)
    (room : occupied ≤ h.upperBound) :
    Represents hash
      { h with
        size := size
        nOccupied := occupied
        flags := h.flags.set x ⟨false, false⟩
        keys := h.keys.set x (some key)
        vals := h.vals.set x (some value) }
      (Function.update slots x (.live key value)) := by
  apply represents.update bound
  · rfl
  · rfl
  · exact List.length_set ..
  · exact List.length_set ..
  · exact List.length_set ..
  · apply holds_live
    · rw [represents.flags]
      exact bound
    · rw [represents.keys]
      exact bound
    · rw [represents.vals]
      exact bound
  · intro i different
    have apart := Ne.symm different
    exact ⟨List.getElem?_set_ne apart, List.getElem?_set_ne apart,
      List.getElem?_set_ne apart⟩
  · exact lawful
  · exact sizeCount
  · exact markCount
  · exact room

theorem set_of_getElem? {β : Type} {cells : List β} {i : Nat} {cell : β}
    (found : cells[i]? = some cell) : cells.set i cell = cells := by
  obtain ⟨bound, isCell⟩ := List.getElem?_eq_some_iff.mp found
  rw [← isCell, List.set_getElem_self]

omit [DecidableEq κ] in
/-- The chosen bucket is claimed for the key, and its value is assigned. -/
theorem Represents.claim_spec
    (represents : Represents hash h slots)
    (room : h.nOccupied < h.upperBound) {key : κ} {x : Nat}
    (chosen : Chooses hash h.nBuckets slots key x) (value : α) :
    ∃ ret claimed after,
      h.claim key x = some (ret, claimed) ∧
      claimed.setValue x value = some after ∧
      Represents hash after (Function.update slots x (.live key value)) ∧
      after.nBuckets = h.nBuckets ∧ 0 ≤ ret ∧
      (ret = 0 ↔ ∃ old, slots x = .live key old) := by
  obtain ⟨step, inside, arrives, unvacant, isFree⟩ := chosen
  obtain ⟨m, wide, _, isPower⟩ := represents.buckets.resolve_left (by omega)
  have four : 4 ≤ h.nBuckets := by
    rw [isPower]
    exact Nat.pow_le_pow_right (n := 2) (by omega) wide
  have bound : x < h.nBuckets := by
    rw [← arrives]
    exact Probing.position_lt (by omega) _ _
  have below := hashUpper_lt four
  have small := represents.nBuckets_le
  have upper := represents.upper
  have atMost := represents.size_le
  have holds := represents.holds x bound
  have valWritten := write_of_lt (some value)
    (by rw [represents.vals]; exact bound : x < h.vals.length)
  obtain ⟨keyWritten, flagWritten⟩ := write_claimed represents bound key
  have inserted : (∀ i value, i < h.nBuckets → slots i ≠ .live key value) →
      Lawful (probe hash h.nBuckets) h.nBuckets
        (Function.update slots x (.live key value)) := by
    intro absent
    rw [← arrives]
    apply represents.lawful.insert absent unvacant
    intro earlier less same
    rw [isPower] at same inside
    exact probe_ne hash key less inside same.symm
  have sized : word32 (h.size + 1) = h.size + 1 := word32_of_lt (by omega)
  have counted : word32 (h.nOccupied + 1) = h.nOccupied + 1 :=
    word32_of_lt (by omega)
  unfold claim setValue
  rw [holds.flag, Option.bind_some]
  cases slot : slots x with
  | vacant =>
      obtain ⟨_, absent⟩ := isFree.resolve_left (by simp [slot])
      have kept := represents.fill bound key value (inserted absent)
        (by rw [slot]; rfl : h.size + 1 + (slots x).entry.toList.length = _)
        (by rw [slot]; rfl : h.nOccupied + 1 + (slots x).mark.toList.length = _)
        (by omega)
      refine ⟨1, { h with
          keys := h.keys.set x (some key)
          flags := h.flags.set x ⟨false, false⟩
          size := h.size + 1
          nOccupied := h.nOccupied + 1 },
        _, ?_, ?_, kept, rfl, by omega, by simp⟩
      · simp [slotFlag, keyWritten, flagWritten, sized, counted]
      · simp [valWritten]
  | deleted =>
      obtain ⟨_, absent⟩ := isFree.resolve_left (by simp [slot])
      have kept := represents.fill bound key value (inserted absent)
        (by rw [slot]; rfl : h.size + 1 + (slots x).entry.toList.length = _)
        (by rw [slot]; rfl : h.nOccupied + (slots x).mark.toList.length = _)
        (by omega)
      refine ⟨2, { h with
          keys := h.keys.set x (some key)
          flags := h.flags.set x ⟨false, false⟩
          size := h.size + 1 },
        _, ?_, ?_, kept, rfl, by omega, by simp⟩
      · simp [slotFlag, keyWritten, flagWritten, sized]
      · simp [valWritten]
  | live found old =>
      have same : found = key := by
        rcases isFree with ⟨other, isLive⟩ | ⟨noEntry, _⟩
        · rw [slot] at isLive
          cases isLive
          rfl
        · rw [slot] at noEntry
          cases noEntry
      rw [same] at slot
      rw [slot] at holds
      have kept := represents.fill bound key value
        (represents.lawful.replace (by simp) (by
          intro found other isLive
          cases isLive
          exact ⟨old, slot⟩))
        (by rw [slot]; rfl : h.size + (slots x).entry.toList.length = _)
        (by rw [slot]; rfl : h.nOccupied + (slots x).mark.toList.length = _)
        (by omega)
      have flagSame : h.flags.set x ⟨false, false⟩ = h.flags :=
        set_of_getElem? holds.flag
      rw [flagSame, set_of_getElem? (holds.cells key old rfl).1] at kept
      refine ⟨0, h, _, rfl, ?_, kept, rfl, Int.le_refl 0, ?_⟩
      · simp [valWritten]
      · simp [same]

/-- A put has a result, and the table has the entry with its other entries. -/
theorem Represents.put_spec
    (represents : Represents hash h slots) (small : h.size < 2 ^ 30)
    (key : κ) (value : α) :
    ∃ ret x claimed before slotsBefore after,
      h.put hash key = some (ret, x, claimed) ∧
      claimed.setValue x value = some after ∧
      Represents hash before slotsBefore ∧
      (entries before.nBuckets slotsBefore).Perm (entries h.nBuckets slots) ∧
      Chooses hash before.nBuckets slotsBefore key x ∧
      Represents hash after (Function.update slotsBefore x (.live key value)) ∧
      after.nBuckets = before.nBuckets ∧ 0 ≤ ret ∧
      (ret = 0 ↔ ∃ old, slotsBefore x = .live key old) := by
  obtain ⟨before, slotsBefore, roomMade, kept, same, room⟩ :=
    represents.makeRoom_spec small
  obtain ⟨x, isPlace, chosen⟩ := kept.putBucket_spec room key
  obtain ⟨ret, claimed, after, isClaimed, assigned, holds, sameBuckets,
    isOld⟩ := kept.claim_spec room chosen value
  refine ⟨ret, x, claimed, before, slotsBefore, after, ?_, assigned, kept,
    same, chosen, holds, sameBuckets, isOld⟩
  rw [put, roomMade, Option.bind_some, isPlace, Option.bind_some, isClaimed]
  rfl

end Khash

end LibPaxos
