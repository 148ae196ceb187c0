import LibPaxos.Khash.Model
import LibPaxos.Library.OpenAddressing
import LibPaxos.Library.Probing

/-!
# Searching a hash table

What the arrays of a hash table stand for, and what `kh_get` finds in them.
-/

namespace LibPaxos

open LibPaxos.Library LibPaxos.Library.Buckets

namespace Khash

variable {κ α : Type}

def slotFlag : Slot κ α → Flag
  | .vacant => ⟨true, false⟩
  | .deleted => ⟨false, true⟩
  | .live _ _ => ⟨false, false⟩

/-- What the arrays have for a bucket. -/
structure Holds (flags : List Flag) (keys : List (Option κ))
    (vals : List (Option α)) (i : Nat) (slot : Slot κ α) : Prop where
  flag : flags[i]? = some (slotFlag slot)
  cells : ∀ key value, slot = .live key value →
    keys[i]? = some (some key) ∧ vals[i]? = some (some value)

/-- The buckets that a search for a key looks at. -/
def probe (hash : κ → Nat) (buckets : Nat) (key : κ) (step : Nat) : Nat :=
  Probing.position buckets (hash key) step

/-- A hash table and the buckets that it stands for. -/
structure Represents (hash : κ → Nat) (h : Khash κ α)
    (slots : Nat → Slot κ α) : Prop where
  buckets : h.nBuckets = 0 ∨ ∃ m, 2 ≤ m ∧ m ≤ 31 ∧ h.nBuckets = 2 ^ m
  flags : h.flags.length = h.nBuckets
  keys : h.keys.length = h.nBuckets
  vals : h.vals.length = h.nBuckets
  holds : ∀ i, i < h.nBuckets → Holds h.flags h.keys h.vals i (slots i)
  lawful : Lawful (probe hash h.nBuckets) h.nBuckets slots
  size : h.size = (entries h.nBuckets slots).length
  occupied : h.nOccupied = usedCount h.nBuckets slots
  upper : h.upperBound = hashUpper h.nBuckets
  room : h.nOccupied ≤ h.upperBound

theorem represents_init (hash : κ → Nat) :
    Represents hash (khInit : Khash κ α) (fun _ => .vacant) where
  buckets := Or.inl rfl
  flags := rfl
  keys := rfl
  vals := rfl
  holds := by
    intro i impossible
    exact absurd impossible (Nat.not_lt_zero i)
  lawful := lawful_vacant _ _
  size := rfl
  occupied := rfl
  upper := (by decide : 0 = hashUpper 0)
  room := Nat.le_refl _

/-! ### The buckets of a search -/

section Probe

variable (hash : κ → Nat) {m : Nat}

theorem probe_lt (key : κ) (step : Nat) :
    probe hash (2 ^ m) key step < 2 ^ m :=
  Probing.position_lt (Nat.two_pow_pos m) _ _

theorem probe_covers (key : κ) {i : Nat} (bound : i < 2 ^ m) :
    ∃ step, step < 2 ^ m ∧ probe hash (2 ^ m) key step = i :=
  Probing.exists_position (hash key) bound

theorem probe_zero (key : κ) :
    hash key &&& (2 ^ m - 1) = probe hash (2 ^ m) key 0 :=
  Nat.and_two_pow_sub_one_eq_mod (hash key) m

theorem probe_succ (narrow : m ≤ 31) (key : κ) (step : Nat) :
    nextBucket (2 ^ m - 1) (probe hash (2 ^ m) key step) (step + 1) =
      probe hash (2 ^ m) key (step + 1) := by
  have divides : 2 ^ m ∣ 2 ^ 32 := Nat.pow_dvd_pow 2 (by omega)
  rw [nextBucket, Nat.and_two_pow_sub_one_eq_mod, word32,
    Nat.mod_mod_of_dvd _ divides]
  exact (Probing.position_succ _ _ _).symm

theorem probe_ne (key : κ) {earlier later : Nat} (ordered : earlier < later)
    (bound : later < 2 ^ m) :
    probe hash (2 ^ m) key later ≠ probe hash (2 ^ m) key earlier :=
  Probing.position_ne (hash key) ordered bound

end Probe

/-- A table that is not full has a vacant bucket. -/
theorem hashUpper_lt {n : Nat} (positive : 4 ≤ n) : hashUpper n < n := by
  unfold hashUpper
  omega

section Represented

variable {hash : κ → Nat} {h : Khash κ α} {slots : Nat → Slot κ α}

theorem Represents.usedCount_lt
    (represents : Represents hash h slots) {m : Nat} (wide : 2 ≤ m)
    (isPower : h.nBuckets = 2 ^ m) :
    usedCount (2 ^ m) slots < 2 ^ m := by
  have four : 4 ≤ 2 ^ m := Nat.pow_le_pow_right (n := 2) (by omega) wide
  have below := hashUpper_lt four
  have used := represents.occupied
  have room := represents.room
  have upper := represents.upper
  rw [isPower] at used upper
  omega

theorem Represents.size_le
    (represents : Represents hash h slots) : h.size ≤ h.nBuckets := by
  rw [represents.size]
  exact length_collect_le _ _

/-- There are at most `2 ^ 31` buckets. -/
theorem Represents.nBuckets_le
    (represents : Represents hash h slots) : h.nBuckets ≤ 2 ^ 31 := by
  rcases represents.buckets with none | ⟨m, _, narrow, isPower⟩
  · omega
  · rw [isPower]
    exact Nat.pow_le_pow_right (by omega) narrow

theorem Represents.exist_eq
    (represents : Represents hash h slots) {i : Nat} (bound : i < h.nBuckets) :
    h.exist i = some (slots i).entry.isSome := by
  rw [exist, (represents.holds i bound).flag, Option.map_some]
  cases slots i <;> rfl

variable [DecidableEq κ]

/-- The loop of a search ends where the key is and where the bucket is vacant. -/
theorem Represents.stopsAt_eq
    (represents : Represents hash h slots) (key : κ) {i : Nat}
    (bound : i < h.nBuckets) :
    ∃ stops, h.stopsAt key i = some stops ∧
      (stops = true ↔ Stops slots key i) := by
  have holds := represents.holds i bound
  unfold stopsAt Stops
  rw [holds.flag, Option.bind_some]
  cases slot : slots i with
  | vacant => exact ⟨true, rfl, by simp⟩
  | deleted => exact ⟨false, rfl, by simp⟩
  | live found value =>
      have cells := holds.cells found value slot
      rw [cells.1]
      refine ⟨decide (found = key), rfl, ?_⟩
      simp

/-- The bucket that a search returns, from the bucket where it stops. -/
def bucketOrEnd (buckets i : Nat) : Slot κ α → Nat
  | .vacant => buckets
  | .deleted => buckets
  | .live _ _ => i

theorem getLoop_spec
    (represents : Represents hash h slots) {m : Nat} (narrow : m ≤ 31)
    (isPower : h.nBuckets = 2 ^ m) {key : κ} {stop : Nat}
    (inside : stop < 2 ^ m)
    (first : First (fun step =>
      Stops slots key (probe hash (2 ^ m) key step)) stop)
    (fuel : Nat) :
    ∀ step, step ≤ stop → stop < step + fuel →
      h.getLoop key (probe hash (2 ^ m) key 0) fuel
          (probe hash (2 ^ m) key step) step =
        some (bucketOrEnd h.nBuckets (probe hash (2 ^ m) key stop)
          (slots (probe hash (2 ^ m) key stop))) := by
  induction fuel with
  | zero =>
      intro step before after
      omega
  | succ fuel inductionHypothesis =>
      intro step before after
      have bound : probe hash (2 ^ m) key step < h.nBuckets := by
        rw [isPower]
        exact probe_lt hash key step
      obtain ⟨stops, isStop, stops_iff⟩ := represents.stopsAt_eq key bound
      rw [getLoop, isStop, Option.bind_some]
      by_cases same : step = stop
      · rw [if_pos (stops_iff.mpr (by rw [same]; exact first.here)),
          (represents.holds _ bound).flag, same, Option.map_some]
        cases slots (probe hash (2 ^ m) key stop) <;> rfl
      · have moves : ¬ stops = true := by
          intro stopped
          exact first.earlier step (by omega) (stops_iff.mp stopped)
        have next : nextBucket (h.nBuckets - 1)
            (probe hash (2 ^ m) key step) (step + 1) =
              probe hash (2 ^ m) key (step + 1) := by
          rw [isPower]
          exact probe_succ hash narrow key step
        have differs := probe_ne hash key
          (Nat.zero_lt_succ step) (by omega : step + 1 < 2 ^ m)
        rw [if_neg moves]
        simp only [next, if_neg differs]
        exact inductionHypothesis (step + 1) (by omega) (by omega)

/-- The key has the bucket, or the bucket is the end and no bucket has it. -/
def Finds (buckets : Nat) (slots : Nat → Slot κ α) (key : κ) (x : Nat) :
    Prop :=
  (x < buckets ∧ ∃ value, slots x = .live key value) ∨
    (x = buckets ∧ ∀ i value, i < buckets → slots i ≠ .live key value)

/-- `kh_get` has a result: the search stops before it is back at its start. -/
theorem Represents.get_spec
    (represents : Represents hash h slots) (key : κ) :
    ∃ x, h.get hash key = some x ∧ Finds h.nBuckets slots key x := by
  rcases represents.buckets with none | ⟨m, wide, narrow, isPower⟩
  · refine ⟨0, ?_, Or.inr ⟨none.symm, ?_⟩⟩
    · rw [get, none]
      rfl
    · intro i value bound
      omega
  · obtain ⟨stop, inside, first⟩ := exists_first_stop
      (fun i bound => probe_covers hash key bound)
      (represents.usedCount_lt wide isPower)
    have ends := getLoop_spec represents narrow isPower inside first
      h.nBuckets 0 (Nat.zero_le stop) (by omega)
    have nonempty : h.nBuckets ≠ 0 := by
      have positive := Nat.two_pow_pos m
      omega
    have start : hash key &&& (h.nBuckets - 1) =
        probe hash (2 ^ m) key 0 := by
      rw [isPower]
      exact probe_zero hash key
    refine ⟨bucketOrEnd h.nBuckets (probe hash (2 ^ m) key stop)
      (slots (probe hash (2 ^ m) key stop)), ?_, ?_⟩
    · rw [get, if_pos nonempty, start]
      exact ends
    · have bound := probe_lt hash (m := m) key stop
      rcases first.here with vacant | ⟨value, isLive⟩
      · refine Or.inr ⟨by rw [vacant]; rfl, ?_⟩
        intro i value iBound isLive
        have lawful := represents.lawful
        rw [isPower] at lawful iBound
        have arrives := lawful.eq_of_first bound first iBound isLive
        rw [arrives, isLive] at vacant
        cases vacant
      · refine Or.inl ⟨?_, value, ?_⟩
        · rw [isLive, isPower]
          exact bound
        · rw [isLive]
          exact isLive

theorem Represents.get_of_live
    (represents : Represents hash h slots) {i : Nat} {key : κ} {value : α}
    (bound : i < h.nBuckets) (isLive : slots i = .live key value) :
    h.get hash key = some i := by
  obtain ⟨x, found, finds⟩ := represents.get_spec key
  rcases finds with ⟨inside, other, isBucket⟩ | ⟨_, absent⟩
  · rw [found, represents.lawful.distinct i x key value other bound inside
      isLive isBucket]
  · exact False.elim (absent i value bound isLive)

end Represented

end Khash

end LibPaxos
