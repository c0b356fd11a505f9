import MockOracle.Eval.NumberColumn
import MockOracle.Semantics.Significant

/-!
# The decimal library

The evaluator leaves quotients and the rounding to significant digits to a decimal library. What it
relies on is stated here, with a library that behaves so.
-/

namespace MockOracle

open Semantics BigDecimal

/-- What the decimal library does: a quotient is right to 100 significant digits or more; with fewer
digits a number that is not negative is rounded, halves up, and a negative one is cut off. -/
structure Library.Decimals (lib : Library) : Prop where
  quotient : ∀ a b : BigDecimal, b.intVal ≠ 0 →
    ∃ j ≥ 100, WithinUnit j (a.toRat / b.toRat) (lib.div a b).toRat
  halfUp : ∀ (n : BigDecimal) (k : Nat), 0 < k → 0 ≤ n.toRat →
    Rounded (1 / 2) k n.toRat (lib.withPrec n k).toRat
  cut : ∀ (n : BigDecimal) (k : Nat), 0 < k → n.toRat < 0 →
    Rounded 0 k (-n.toRat) (-(lib.withPrec n k).toRat)

namespace BigDecimal

/-- The product is exact. -/
theorem toRat_mul (a b : BigDecimal) : (a.mul b).toRat = a.toRat * b.toRat := by
  simp only [toRat, mul, Int.cast_mul, neg_add, zpow_add₀ ten_ne_zero]
  ring

/-- The value of an integer. -/
theorem toRat_int (n : Int) : (⟨n, 0⟩ : BigDecimal).toRat = n := by simp [toRat]

/-- The sign of a number is that of its coefficient. -/
theorem toRat_nonneg_iff (n : BigDecimal) : 0 ≤ n.toRat ↔ 0 ≤ n.intVal := by
  rw [toRat, mul_nonneg_iff_of_pos_right (ten_zpow_pos _), Int.cast_nonneg_iff]

/-- How many digits a number has goes by its magnitude. -/
theorem digits_le_iff (n : BigDecimal) {k : Nat} (positive : 0 < k) :
    n.digits ≤ k ↔ n.intVal.natAbs < 10 ^ k := length_numeral_le positive

/-- A number of at most `k` digits is an integer of that size times a power of ten. -/
theorem abs_intVal_lt {n : BigDecimal} {k : Nat} (short : n.digits ≤ k) (positive : 0 < k) :
    |n.intVal| < 10 ^ k := by
  rw [Int.abs_eq_natAbs]
  exact_mod_cast (n.digits_le_iff positive).mp short

/-- A number of at most `k` digits stays as it is. -/
theorem rounded_self {share : ℚ} (least : 0 ≤ share) (most : share < 1) {n : BigDecimal} {k : Nat}
    (short : n.digits ≤ k) (positive : 0 < k) : Rounded share k n.toRat n.toRat :=
  Rounded.self least most (abs_intVal_lt short positive)

/-- Its negation stays as it is, too. -/
theorem rounded_self_neg {share : ℚ} (least : 0 ≤ share) (most : share < 1) {n : BigDecimal}
    {k : Nat} (short : n.digits ≤ k) (positive : 0 < k) :
    Rounded share k (-n.toRat) (-n.toRat) := by
  have small : |-n.intVal| < 10 ^ k := by
    rw [abs_neg]
    exact abs_intVal_lt short positive
  have rounded := Rounded.self (t := -n.scale) least most small
  rwa [Int.cast_neg, neg_mul] at rounded

end BigDecimal

namespace Library.Decimals

variable {lib : Library} {d : BigDecimal}

/-- A number that is not negative is rounded to 40 digits. -/
theorem roundNumber_halfUp (decimals : lib.Decimals) (positive : 0 ≤ d.toRat) :
    Rounded (1 / 2) 40 d.toRat (roundNumber lib d).toRat := by
  unfold MockOracle.roundNumber
  split
  · rw [toRat_normalized]
    exact decimals.halfUp d 40 (by decide) positive
  · next short => exact rounded_self (by norm_num) (by norm_num) (not_lt.mp short) (by decide)

/-- A negative number is cut off after 40 digits. -/
theorem roundNumber_cut (decimals : lib.Decimals) (negative : d.toRat < 0) :
    Rounded 0 40 (-d.toRat) (-(roundNumber lib d).toRat) := by
  unfold MockOracle.roundNumber
  split
  · rw [toRat_normalized]
    exact decimals.cut d 40 (by decide) negative
  · next short => exact rounded_self_neg (by norm_num) (by norm_num) (not_lt.mp short) (by decide)

end Library.Decimals

/-! ## A library that divides to 100 digits -/

namespace BigDecimal

/-- The quotient to at least 100 digits, the rest cut off. -/
def divide (a b : BigDecimal) : BigDecimal :=
  let shift := 101 + b.digits - a.digits
  ⟨(a.intVal * 10 ^ shift).tdiv b.intVal, a.scale - b.scale + shift⟩

/-- A number is below the power of ten of its digits. -/
theorem lt_pow_digits (n : BigDecimal) : n.intVal.natAbs < 10 ^ n.digits := by
  have positive : 0 < n.digits := by
    rw [digits, ← String.length_toList, Nat.toString_eq_ofList_toDigits, String.toList_ofList]
    exact List.length_pos_iff.mpr Nat.toDigits_ne_nil
  exact (n.digits_le_iff positive).mp le_rfl

/-- It is not below the power before that. -/
theorem pow_digits_le {n : BigDecimal} (nonzero : n.intVal ≠ 0) :
    10 ^ (n.digits - 1) ≤ n.intVal.natAbs := by
  rcases Nat.eq_zero_or_pos (n.digits - 1) with single | several
  · rw [single]
    omega
  · by_contra small
    have shorter := (n.digits_le_iff several).mpr (Nat.not_le.mp small)
    omega

/-- An integer quotient is less than one away from the exact one. -/
theorem abs_div_sub_tdiv_lt (a : Int) {b : Int} (nonzero : b ≠ 0) :
    |(a : ℚ) / b - a.tdiv b| < 1 := by
  have divisor : (b : ℚ) ≠ 0 := by exact_mod_cast nonzero
  have rest : (a : ℚ) / b - a.tdiv b = (a.tmod b : Int) / b := by
    have split_ : (a : ℚ) = (b * a.tdiv b + a.tmod b : Int) := by
      exact_mod_cast (Int.mul_tdiv_add_tmod a b).symm
    field_simp
    rw [split_]
    push_cast
    ring
  rw [rest, abs_div, div_lt_one (abs_pos.mpr divisor)]
  have small : |a.tmod b| < |b| := by
    rw [Int.abs_eq_natAbs, Int.abs_eq_natAbs, Int.natAbs_tmod]
    exact_mod_cast Nat.mod_lt _ (Int.natAbs_pos.mpr nonzero)
  exact_mod_cast small

/-- A quotient is within a unit of at least 100 digits. -/
theorem rounded_divide (a : BigDecimal) {b : BigDecimal} (nonzero : b.intVal ≠ 0) :
    ∃ j ≥ 100, WithinUnit j (a.toRat / b.toRat) (divide a b).toRat := by
  by_cases zero : a.intVal = 0
  · exact ⟨100, le_rfl, Or.inl ⟨by simp [toRat, zero], by simp [divide, toRat, zero]⟩⟩
  obtain ⟨s, shift⟩ : ∃ s, s = 101 + b.digits - a.digits := ⟨_, rfl⟩
  obtain ⟨e, unit⟩ : ∃ e, e = -(a.scale - b.scale + s) := ⟨_, rfl⟩
  have divisor : (b.intVal : ℚ) ≠ 0 := by exact_mod_cast nonzero
  have quotient : a.toRat / b.toRat = ((a.intVal * 10 ^ s : Int) : ℚ) / b.intVal * 10 ^ e := by
    have power : (10 : ℚ) ^ e = 10 ^ (-a.scale) / 10 ^ (-b.scale) / 10 ^ s := by
      rw [← zpow_natCast, ← zpow_sub₀ ten_ne_zero, ← zpow_sub₀ ten_ne_zero, unit]
      congr 1
      ring
    rw [power, toRat, toRat]
    have := (ten_zpow_pos (-b.scale)).ne'
    push_cast
    field_simp
  have result : (divide a b).toRat = ((a.intVal * 10 ^ s).tdiv b.intVal : Int) * 10 ^ e := by
    rw [divide, toRat, ← shift, unit]
  -- The shifted quotient has more than 100 digits before the point.
  have large : (10 : ℚ) ^ (100 + e) ≤ |a.toRat / b.toRat| := by
    have above := pow_digits_le zero
    have below := lt_pow_digits b
    have exponent : 100 + b.digits ≤ a.digits - 1 + s := by omega
    have whole : 10 ^ 100 * b.intVal.natAbs ≤ a.intVal.natAbs * 10 ^ s := by
      calc 10 ^ 100 * b.intVal.natAbs ≤ 10 ^ 100 * 10 ^ b.digits := Nat.mul_le_mul_left _ below.le
        _ = 10 ^ (100 + b.digits) := (Nat.pow_add _ _ _).symm
        _ ≤ 10 ^ (a.digits - 1 + s) := Nat.pow_le_pow_right (by decide) exponent
        _ = 10 ^ (a.digits - 1) * 10 ^ s := Nat.pow_add _ _ _
        _ ≤ a.intVal.natAbs * 10 ^ s := Nat.mul_le_mul_right _ above
    have ratio : (10 : ℚ) ^ 100 ≤ |((a.intVal * 10 ^ s : Int) : ℚ) / b.intVal| := by
      rw [abs_div, le_div_iff₀ (abs_pos.mpr divisor), ← Int.cast_abs, ← Int.cast_abs,
        Int.abs_eq_natAbs, Int.abs_eq_natAbs, Int.natAbs_mul, Int.natAbs_pow]
      exact_mod_cast whole
    rw [quotient, abs_mul, abs_of_pos (ten_zpow_pos e), zpow_add₀ ten_ne_zero]
    exact mul_le_mul_of_nonneg_right (by exact_mod_cast ratio) (ten_zpow_pos e).le
  have present : a.toRat / b.toRat ≠ 0 := by
    have := (ten_pow_pos (100 + e)).trans_le large
    exact abs_pos.mp this
  obtain ⟨e₀, last⟩ := LastDigit.exists_ 100 present
  have finer : e < e₀ := by
    have := ten_pow_lt_iff.mp (large.trans_lt last.2)
    omega
  obtain ⟨j, digits⟩ : ∃ j : Nat, (j : Int) = 100 + e₀ - e := ⟨(100 + e₀ - e).toNat, by omega⟩
  refine ⟨j, by omega, Or.inr ⟨e, _, ?_, result, ?_⟩⟩
  · rw [LastDigit, show (j : Int) - 1 + e = (100 : Nat) - 1 + e₀ by push_cast; omega,
      show (j : Int) + e = (100 : Nat) + e₀ by push_cast; omega]
    exact last
  · rw [result, quotient, ← sub_mul, abs_mul, abs_of_pos (ten_zpow_pos e)]
    exact mul_lt_of_lt_one_left (ten_zpow_pos e) (abs_div_sub_tdiv_lt _ nonzero)

/-- Fewer digits: a number that is not negative is rounded, halves up, a negative one cut off. -/
def reduce (n : BigDecimal) (k : Nat) : BigDecimal :=
  if n.digits ≤ k then n
  else
    let unit : Int := 10 ^ (n.digits - k)
    ⟨if 0 ≤ n.intVal then (n.intVal + unit / 2) / unit else n.intVal.tdiv unit,
      n.scale - (n.digits - k : Nat)⟩

/-- Where the last of `k` digits is, of a number of more digits. -/
theorem lastDigit_digits {n : BigDecimal} {k : Nat} (long : k < n.digits) (positive : 0 < k) :
    LastDigit k n.toRat ((n.digits - k : Nat) - n.scale) := by
  have nonzero : n.intVal ≠ 0 := by
    intro zero
    have single : n.digits ≤ 1 := (n.digits_le_iff (by decide)).mpr (by simp [zero])
    omega
  constructor
  · rw [abs_toRat, show (k : Int) - 1 + ((n.digits - k : Nat) - n.scale) =
      ((n.digits - 1 : Nat) : Int) + -n.scale by omega, zpow_add₀ ten_ne_zero, zpow_natCast]
    exact mul_le_mul_of_nonneg_right (by exact_mod_cast pow_digits_le nonzero) (ten_zpow_pos _).le
  · rw [abs_toRat, show (k : Int) + ((n.digits - k : Nat) - n.scale) = (n.digits : Int) + -n.scale by
      omega, zpow_add₀ ten_ne_zero, zpow_natCast]
    exact mul_lt_mul_of_pos_right (by exact_mod_cast lt_pow_digits n) (ten_zpow_pos _)

/-- Fewer digits with a unit that is `x` places coarser. -/
theorem toRat_coarse (n : BigDecimal) (c : Int) (x : Nat) :
    (⟨c, n.scale - x⟩ : BigDecimal).toRat = c * 10 ^ ((x : Int) - n.scale) := by
  rw [toRat, neg_sub]

/-- The digits that are left make a multiple of the unit, up to the share that is rounded up. -/
theorem coarse_bounds {a c half : Int} {x : Nat} {s : Int} {share : ℚ}
    (unit : share * 10 ^ x = half) (low : c * 10 ^ x - half ≤ a) (high : a < (c + 1) * 10 ^ x - half) :
    (c - share) * 10 ^ ((x : Int) - s) ≤ a * 10 ^ (-s) ∧
      a * 10 ^ (-s) < (c + 1 - share) * (10 : ℚ) ^ ((x : Int) - s) := by
  have power := ten_zpow_pos (-s)
  have low' : ((c * 10 ^ x - half : Int) : ℚ) ≤ a := by exact_mod_cast low
  have high' : (a : ℚ) < ((c + 1) * 10 ^ x - half : Int) := by exact_mod_cast high
  push_cast at low' high'
  rw [sub_eq_add_neg (x : Int), zpow_add₀ ten_ne_zero, zpow_natCast, ← mul_assoc, ← mul_assoc]
  constructor
  · refine mul_le_mul_of_nonneg_right ?_ power.le
    linear_combination low' - unit
  · refine mul_lt_mul_of_pos_right ?_ power
    linear_combination high' + unit

/-- Reducing the digits of a number that is not negative rounds half up. -/
theorem halfUp_reduce (n : BigDecimal) {k : Nat} (positive : 0 < k) (sign : 0 ≤ n.toRat) :
    Rounded (1 / 2) k n.toRat (n.reduce k).toRat := by
  unfold reduce
  split
  · next short => exact rounded_self (by norm_num) (by norm_num) short positive
  · next long =>
      obtain ⟨x, excess⟩ : ∃ x, n.digits - k = x + 1 := ⟨n.digits - k - 1, by omega⟩
      have last := lastDigit_digits (not_le.mp long) positive
      rw [toRat_nonneg_iff] at sign
      rw [excess] at last ⊢
      simp only [if_pos sign]
      obtain ⟨half, even⟩ : ∃ half : Int, (10 : Int) ^ (x + 1) = 2 * half :=
        ⟨5 * 10 ^ x, by rw [pow_succ]; ring⟩
      have unit : (0 : Int) < 10 ^ (x + 1) := by positivity
      have halves : (10 : Int) ^ (x + 1) / 2 = half := by omega
      have parts := Int.emod_add_ediv_mul (n.intVal + 10 ^ (x + 1) / 2) (10 ^ (x + 1))
      have least := Int.emod_nonneg (n.intVal + 10 ^ (x + 1) / 2) unit.ne'
      have most := Int.emod_lt_of_pos (n.intVal + 10 ^ (x + 1) / 2) unit
      rw [halves] at parts least most ⊢
      have share : (1 / 2 : ℚ) * 10 ^ (x + 1) = half := by
        have cast : ((10 : Int) ^ (x + 1) : ℚ) = 2 * half := by exact_mod_cast even
        push_cast at cast
        rw [cast]
        ring
      refine Or.inr ⟨_, (n.intVal + half) / 10 ^ (x + 1), last, toRat_coarse n _ _, ?_⟩
      rw [toRat]
      refine coarse_bounds share (by omega) ?_
      rw [add_mul]
      omega

/-- Reducing the digits of a negative number cuts them off. -/
theorem cut_reduce (n : BigDecimal) {k : Nat} (positive : 0 < k) (sign : n.toRat < 0) :
    Rounded 0 k (-n.toRat) (-(n.reduce k).toRat) := by
  unfold reduce
  split
  · next short => exact rounded_self_neg (by norm_num) (by norm_num) short positive
  · next long =>
      have last := (lastDigit_digits (not_le.mp long) positive).neg
      rw [← not_le, toRat_nonneg_iff] at sign
      simp only [if_neg sign]
      obtain ⟨u, unit⟩ : ∃ u : Int, u = 10 ^ (n.digits - k) := ⟨_, rfl⟩
      have above : 0 < u := by
        rw [unit]
        positivity
      have parts := Int.mul_tdiv_add_tmod n.intVal u
      have least := Int.tmod_nonneg u (show 0 ≤ -n.intVal by omega)
      have most := Int.tmod_lt_of_pos (-n.intVal) above
      rw [Int.neg_tmod] at least most
      refine Or.inr ⟨_, -n.intVal.tdiv (10 ^ (n.digits - k)), last, ?_, ?_⟩
      · rw [toRat_coarse, Int.cast_neg, neg_mul]
      · rw [toRat, ← neg_mul, ← Int.cast_neg]
        have none_cut : (0 : ℚ) * 10 ^ (n.digits - k) = (0 : Int) := by rw [zero_mul, Int.cast_zero]
        refine coarse_bounds none_cut ?_ ?_
        · rw [← unit, neg_mul, mul_comm]
          omega
        · rw [← unit, add_mul, neg_mul, mul_comm]
          omega

end BigDecimal

/-- A library that divides to at least 100 digits and reduces digits as the decimal library does. -/
def Library.dividing : Library :=
  { Library.plain with div := BigDecimal.divide, withPrec := BigDecimal.reduce }

/-- The library that divides keeps to the crate's documentation. -/
theorem Library.decimals_dividing : Library.dividing.Decimals where
  quotient a _ nonzero := rounded_divide a nonzero
  halfUp n _ positive := halfUp_reduce n positive
  cut n _ positive := cut_reduce n positive

end MockOracle
