import Mathlib.Algebra.Ring.Parity
import Mathlib.Data.Fintype.Card
import Mathlib.Data.Fintype.EquivFin
import Mathlib.Data.Nat.ModEq
import Mathlib.Data.Nat.Prime.Basic
import Mathlib.Tactic.Ring

/-!
# Tables with a power of two buckets

A search that starts at a bucket and then moves on by one bucket, by two, by
three and so on, around a table whose number of buckets is a power of two, looks
at every bucket once before it looks at one again.

A number of buckets is rounded up to a power of two by smearing its highest bit
over all the bits below it.
-/

namespace LibPaxos.Library

namespace Probing

/-- How far a search has moved after a number of steps. -/
def triangle : Nat → Nat
  | 0 => 0
  | step + 1 => triangle step + (step + 1)

/-- The bucket that a search looks at after a number of steps. -/
def position (buckets start step : Nat) : Nat :=
  (start + triangle step) % buckets

theorem position_succ (buckets start step : Nat) :
    position buckets start (step + 1) =
      (position buckets start step + (step + 1)) % buckets := by
  rw [position, position, triangle, Nat.mod_add_mod, Nat.add_assoc]

theorem position_lt {buckets : Nat} (positive : 0 < buckets)
    (start step : Nat) :
    position buckets start step < buckets :=
  Nat.mod_lt _ positive

theorem two_mul_triangle (step : Nat) :
    2 * triangle step = step * (step + 1) := by
  induction step with
  | zero => rfl
  | succ step inductionHypothesis =>
      rw [triangle, Nat.mul_add, inductionHypothesis]
      ring

/-- Between two different steps the search has moved by a distance that is no
multiple of the number of buckets: twice the distance is the product of an odd
number and an even one, and both are too small. -/
theorem not_dvd_triangle_sub
    {exponent earlier later : Nat} (ordered : earlier < later)
    (bound : later < 2 ^ exponent) :
    ¬ 2 ^ exponent ∣ triangle later - triangle earlier := by
  intro divides
  have product : 2 * (triangle later - triangle earlier) =
      (later - earlier) * (later + earlier + 1) := by
    rw [Nat.mul_sub, two_mul_triangle, two_mul_triangle]
    obtain ⟨distance, rfl⟩ := Nat.exists_eq_add_of_le ordered.le
    rw [Nat.add_sub_cancel_left]
    apply Nat.sub_eq_of_eq_add
    ring
  have doubled : 2 ^ (exponent + 1) ∣
      (later - earlier) * (later + earlier + 1) := by
    rw [← product, Nat.pow_succ, Nat.mul_comm]
    exact Nat.mul_dvd_mul_left 2 divides
  have power : 2 ^ (exponent + 1) = 2 * 2 ^ exponent := by
    rw [Nat.pow_succ, Nat.mul_comm]
  rcases Nat.even_or_odd (later - earlier) with isEven | isOdd
  · have other : Odd (later + earlier + 1) := by
      obtain ⟨half, halves⟩ := isEven
      exact ⟨earlier + half, by omega⟩
    have coprime := (Nat.coprime_two_left.mpr other).pow_left (exponent + 1)
    have short := Nat.le_of_dvd (by omega) (coprime.dvd_of_dvd_mul_right doubled)
    omega
  · have coprime := (Nat.coprime_two_left.mpr isOdd).pow_left (exponent + 1)
    have short := Nat.le_of_dvd (by omega) (coprime.dvd_of_dvd_mul_left doubled)
    omega

theorem triangle_le {earlier later : Nat} (ordered : earlier ≤ later) :
    triangle earlier ≤ triangle later := by
  induction ordered with
  | refl => exact Nat.le_refl _
  | step _ inductionHypothesis =>
      rw [triangle]
      omega

theorem position_ne
    {exponent earlier later : Nat} (start : Nat) (ordered : earlier < later)
    (bound : later < 2 ^ exponent) :
    position (2 ^ exponent) start later ≠
      position (2 ^ exponent) start earlier := by
  intro same
  apply not_dvd_triangle_sub ordered bound
  have grows : start + triangle earlier ≤ start + triangle later :=
    Nat.add_le_add_left (triangle_le ordered.le) start
  rw [← Nat.add_sub_add_left start]
  exact (Nat.modEq_iff_dvd' grows).mp same.symm

/-- Two steps below the number of buckets look at different buckets. -/
theorem position_injective
    {exponent start first second : Nat} (firstBound : first < 2 ^ exponent)
    (secondBound : second < 2 ^ exponent)
    (same : position (2 ^ exponent) start first =
      position (2 ^ exponent) start second) :
    first = second := by
  rcases Nat.lt_trichotomy first second with before | equal | after
  · exact False.elim (position_ne start before secondBound same.symm)
  · exact equal
  · exact False.elim (position_ne start after firstBound same)

/-- The search looks at every bucket. -/
theorem exists_position
    {exponent bucket : Nat} (start : Nat) (bound : bucket < 2 ^ exponent) :
    ∃ step, step < 2 ^ exponent ∧
      position (2 ^ exponent) start step = bucket := by
  have positive : 0 < 2 ^ exponent := Nat.two_pow_pos exponent
  have injective : Function.Injective
      (fun step : Fin (2 ^ exponent) =>
        (⟨position (2 ^ exponent) start step, position_lt positive _ _⟩ :
          Fin (2 ^ exponent))) := by
    intro first second same
    exact Fin.ext (position_injective first.isLt second.isLt
      (congrArg Fin.val same))
  obtain ⟨step, hit⟩ := Finite.surjective_of_injective injective ⟨bucket, bound⟩
  exact ⟨step, step.isLt, congrArg Fin.val hit⟩

end Probing

/-- Each bit of the result is set if the source has a bit at its place or at
most `width - 1` places above it. -/
def Smeared (width source result : Nat) : Prop :=
  ∀ i, result.testBit i = true ↔
    ∃ above, above < width ∧ source.testBit (i + above) = true

namespace Smeared

theorem one (source : Nat) : Smeared 1 source source := by
  intro i
  constructor
  · intro isSet
    exact ⟨0, Nat.one_pos, isSet⟩
  · rintro ⟨above, bound, isSet⟩
    rwa [Nat.lt_one_iff.mp bound] at isSet

/-- One shift and one union double the width. -/
theorem double {width source result : Nat}
    (smeared : Smeared width source result) :
    Smeared (width + width) source (result ||| result >>> width) := by
  intro i
  rw [Nat.testBit_or, Nat.testBit_shiftRight, Bool.or_eq_true, smeared i,
    smeared (width + i)]
  constructor
  · rintro (⟨above, bound, isSet⟩ | ⟨above, bound, isSet⟩)
    · exact ⟨above, by omega, isSet⟩
    · refine ⟨width + above, by omega, ?_⟩
      rwa [← Nat.add_assoc, Nat.add_comm i width]
  · rintro ⟨above, bound, isSet⟩
    by_cases near : above < width
    · exact Or.inl ⟨above, near, isSet⟩
    · refine Or.inr ⟨above - width, by omega, ?_⟩
      have place : width + i + (above - width) = i + above := by omega
      rwa [place]

theorem eq_zero {width result : Nat} (smeared : Smeared width 0 result) :
    result = 0 := by
  apply Nat.eq_of_testBit_eq
  intro i
  rw [Nat.zero_testBit, Bool.eq_false_iff]
  intro isSet
  obtain ⟨above, _, impossible⟩ := (smeared i).mp isSet
  rw [Nat.zero_testBit] at impossible
  cases impossible

/-- All bits up to the highest one are set. -/
theorem eq_two_pow_sub_one {width source result highest : Nat}
    (smeared : Smeared width source result) (low : 2 ^ highest ≤ source)
    (high : source < 2 ^ (highest + 1)) (wide : highest < width) :
    result = 2 ^ (highest + 1) - 1 := by
  have top : source.testBit highest = true := by
    have quotient : source / 2 ^ highest = 1 := by
      apply Nat.div_eq_of_lt_le
      · rwa [Nat.one_mul]
      · rwa [Nat.succ_mul, Nat.one_mul, ← Nat.mul_two, ← Nat.pow_succ]
    rw [Nat.testBit_eq_decide_div_mod_eq, quotient]
    rfl
  apply Nat.eq_of_testBit_eq
  intro i
  rw [Nat.testBit_two_pow_sub_one, Bool.eq_iff_iff, smeared i,
    decide_eq_true_iff]
  constructor
  · rintro ⟨above, _, isSet⟩
    by_contra outside
    have small : source < 2 ^ (i + above) :=
      Nat.lt_of_lt_of_le high (Nat.pow_le_pow_right (by omega) (by omega))
    rw [Nat.testBit_lt_two_pow small] at isSet
    cases isSet
  · intro inside
    refine ⟨highest - i, by omega, ?_⟩
    have place : i + (highest - i) = highest := by omega
    rwa [place]

end Smeared

end LibPaxos.Library
