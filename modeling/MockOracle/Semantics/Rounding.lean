import Mathlib

/-!
# Rounding half away from zero

A rational is rounded to the nearest integer, and one halfway between two integers to the one
farther from zero; to a number of decimal places, it is rounded in units of the last place.
-/

namespace MockOracle.Semantics

/-- The nearest integer, of two the one away from zero. -/
def roundAway (q : ℚ) : ℤ := if 0 ≤ q then ⌊q + 1 / 2⌋ else -⌊-q + 1 / 2⌋

/-- Rounded to a number of decimal places, negative for places before the point. -/
def roundPlaces (q : ℚ) (places : ℤ) : ℚ := roundAway (q * 10 ^ places) * 10 ^ (-places)

theorem roundAway_neg (q : ℚ) : roundAway (-q) = -roundAway q := by
  unfold roundAway
  rcases lt_trichotomy q 0 with negative | rfl | positive
  · rw [if_pos (by linarith), if_neg (by linarith), neg_neg]
  · norm_num
  · rw [if_neg (by linarith), if_pos positive.le, neg_neg]

@[simp] theorem roundAway_natCast (k : ℕ) : roundAway k = k := by
  have nonneg : (0 : ℚ) ≤ k := Nat.cast_nonneg k
  rw [roundAway, if_pos nonneg, Int.floor_eq_iff]
  constructor
  · push_cast
    linarith
  · push_cast
    linarith

@[simp] theorem roundAway_intCast (k : ℤ) : roundAway k = k := by
  obtain ⟨m, rfl | rfl⟩ := k.eq_nat_or_neg
  · exact roundAway_natCast m
  · rw [Int.cast_neg, roundAway_neg, Int.cast_natCast, roundAway_natCast]

/-- A fraction with an even denominator is rounded by adding half the denominator. -/
theorem roundAway_div (m : ℕ) {unit : ℕ} (positive : 0 < unit) (even : 2 ∣ unit) :
    roundAway (m / unit) = ((m + unit / 2) / unit : ℕ) := by
  obtain ⟨half, rfl⟩ := even
  have nonneg : (0 : ℚ) ≤ m / ((2 * half : ℕ) : ℚ) := by positivity
  have nonzero : (half : ℚ) ≠ 0 := by
    have : half ≠ 0 := by omega
    exact_mod_cast this
  have sum : (m : ℚ) / ((2 * half : ℕ) : ℚ) + 1 / 2 = ((m + half : ℕ) : ℚ) / ((2 * half : ℕ) : ℚ) := by
    push_cast
    field_simp
  rw [roundAway, if_pos nonneg, sum, Nat.mul_div_cancel_left half (by norm_num)]
  exact Rat.floor_natCast_div_natCast (m + half) (2 * half)

end MockOracle.Semantics
