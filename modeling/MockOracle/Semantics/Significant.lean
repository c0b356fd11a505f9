import Mathlib

/-!
# Significant digits

A rational is brought to `k` significant digits by taking a multiple of the unit of its last digit:
the nearest one, or the one where the rest is cut off. Either is less than one unit away. A number
that has no more than `k` digits stays as it is. Rounding to fewer digits what is near in more is
rounding once, unless the number lies close to where the result changes.
-/

namespace MockOracle.Semantics

/-- The last of `k` significant digits of `q` counts units of `10 ^ e`. -/
def LastDigit (k : ℕ) (q : ℚ) (e : ℤ) : Prop :=
  10 ^ ((k : ℤ) - 1 + e) ≤ |q| ∧ |q| < 10 ^ ((k : ℤ) + e)

/-- `r` has `k` significant digits and is less than one unit of the last one away from `q`. -/
def WithinUnit (k : ℕ) (q r : ℚ) : Prop :=
  q = 0 ∧ r = 0 ∨ ∃ e m : ℤ, LastDigit k q e ∧ r = m * 10 ^ e ∧ |q - r| < 10 ^ e

/-- `r` is a number nearest to `q` of those with `k` significant digits. -/
def Nearest (k : ℕ) (q r : ℚ) : Prop :=
  q = 0 ∧ r = 0 ∨ ∃ e m : ℤ, LastDigit k q e ∧ r = m * 10 ^ e ∧ |q - r| ≤ 10 ^ e / 2

/-- `r` is `q`, which is not negative, rounded to `k` significant digits. The last `share` of a unit
is rounded up: with a half of it to a nearest number, halves up, and with none of it the digits are
cut off. -/
def Rounded (share : ℚ) (k : ℕ) (q r : ℚ) : Prop :=
  q = 0 ∧ r = 0 ∨ ∃ e m : ℤ, LastDigit k q e ∧ r = m * 10 ^ e ∧
    (m - share) * 10 ^ e ≤ q ∧ q < (m + 1 - share) * 10 ^ e

/-- A power of ten is positive. -/
theorem ten_pow_pos (e : ℤ) : (0 : ℚ) < 10 ^ e := zpow_pos (by norm_num) e

/-- Powers of ten are ordered as their exponents, strictly. -/
theorem ten_pow_lt_iff {a b : ℤ} : (10 : ℚ) ^ a < 10 ^ b ↔ a < b :=
  zpow_lt_zpow_iff_right₀ (by norm_num)

/-- Powers of ten are ordered as their exponents. -/
theorem ten_pow_le_iff {a b : ℤ} : (10 : ℚ) ^ a ≤ 10 ^ b ↔ a ≤ b :=
  zpow_le_zpow_iff_right₀ (by norm_num)

/-- A power of ten is a multiple of a smaller one. -/
theorem ten_pow_eq_mul {e f : ℤ} (le : f ≤ e) : ∃ c : ℤ, (10 : ℚ) ^ e = c * 10 ^ f := by
  obtain ⟨n, apart⟩ : ∃ n : ℕ, e = n + f := ⟨(e - f).toNat, by omega⟩
  refine ⟨10 ^ n, ?_⟩
  rw [apart, zpow_add₀ (by norm_num), zpow_natCast]
  push_cast
  rfl

section Near

variable {q u : ℚ} {a m : ℤ}

/-- A multiple less than one unit away is not below a multiple that is not above. -/
theorem le_of_near (positive : 0 < u) (below : a * u ≤ q) (near : |q - m * u| < u) : a ≤ m := by
  have units : (a : ℚ) * u < (m + 1) * u := by
    rw [abs_lt] at near
    linarith
  have order : (a : ℚ) < m + 1 := lt_of_mul_lt_mul_right units positive.le
  have : a < m + 1 := by exact_mod_cast order
  omega

/-- A multiple of the unit that is less than a unit off does not pass a multiple above. -/
theorem ge_of_near (positive : 0 < u) (above : q ≤ a * u) (near : |q - m * u| < u) : m ≤ a := by
  have units : (m : ℚ) * u < (a + 1) * u := by
    rw [abs_lt] at near
    linarith
  have order : (m : ℚ) < a + 1 := lt_of_mul_lt_mul_right units positive.le
  have : m < a + 1 := by exact_mod_cast order
  omega

/-- What is nearer than a third number lies on the same side of it. -/
theorem side_iff {d x g : ℚ} (near : |q - d| < g) (apart : g ≤ |q - x|) : x ≤ q ↔ x ≤ d := by
  rw [abs_lt] at near
  rcases le_abs.mp apart with above | below
  · exact iff_of_true (by linarith) (by linarith)
  · exact iff_of_false (by linarith) (by linarith)

/-- A multiple of the unit has no other multiple less than one unit away. -/
theorem eq_of_near (positive : 0 < u) (equal : q = a * u) (near : |q - m * u| < u) : m = a :=
  le_antisymm (ge_of_near positive equal.le near) (le_of_near positive equal.ge near)

/-- The multiple of a fine unit that is less than one unit away lies on the same side of each
multiple of a coarse unit. -/
theorem multiple_le_of_near {e f : ℤ} (units : f ≤ e) (near : |q - m * 10 ^ f| < 10 ^ f)
    (below : a * 10 ^ e ≤ q) : (a : ℚ) * 10 ^ e ≤ m * 10 ^ f := by
  obtain ⟨b, multiple⟩ := ten_pow_eq_mul units
  rw [multiple, ← mul_assoc] at below ⊢
  have order : a * b ≤ m := le_of_near (ten_pow_pos f) (by push_cast; exact below) near
  exact mul_le_mul_of_nonneg_right (by exact_mod_cast order) (ten_pow_pos f).le

/-- Nor does it pass a multiple of a larger power of ten. -/
theorem le_multiple_of_near {e f : ℤ} (units : f ≤ e) (near : |q - m * 10 ^ f| < 10 ^ f)
    (above : q ≤ a * 10 ^ e) : (m : ℚ) * 10 ^ f ≤ a * 10 ^ e := by
  obtain ⟨b, multiple⟩ := ten_pow_eq_mul units
  rw [multiple, ← mul_assoc] at above ⊢
  have order : m ≤ a * b := ge_of_near (ten_pow_pos f) (by push_cast; exact above) near
  exact mul_le_mul_of_nonneg_right (by exact_mod_cast order) (ten_pow_pos f).le

end Near

namespace LastDigit

variable {k : ℕ} {q : ℚ} {e f : ℤ}

/-- A number other than zero has a last of `k` digits. -/
theorem exists_ (k : ℕ) {q : ℚ} (nonzero : q ≠ 0) : ∃ e, LastDigit k q e := by
  have positive := abs_pos.mpr nonzero
  have low := Int.zpow_log_le_self (b := 10) (by norm_num) positive
  have high := Int.lt_zpow_succ_log_self (b := 10) (by norm_num) |q|
  refine ⟨Int.log 10 |q| + 1 - k, ?_, ?_⟩
  · rw [show (k : ℤ) - 1 + (Int.log 10 |q| + 1 - k) = Int.log 10 |q| by ring]
    exact_mod_cast low
  · rw [show (k : ℤ) + (Int.log 10 |q| + 1 - k) = Int.log 10 |q| + 1 by ring]
    exact_mod_cast high

/-- Zero has no last digit. -/
theorem ne_zero (last : LastDigit k q e) : q ≠ 0 := by
  rintro rfl
  have := (ten_pow_pos _).trans_le last.1
  simp at this

/-- A number has one place for its last digit. -/
theorem unique {e' : ℤ} (last : LastDigit k q e) (last' : LastDigit k q e') : e' = e := by
  have below := ten_pow_lt_iff.mp (last.1.trans_lt last'.2)
  have above := ten_pow_lt_iff.mp (last'.1.trans_lt last.2)
  omega

/-- A number and its opposite have the same last digit. -/
theorem neg (last : LastDigit k q e) : LastDigit k (-q) e := by
  rw [LastDigit, abs_neg]
  exact last

/-- The last of fewer digits. -/
theorem fewer {j : ℕ} (last : LastDigit j q f) : LastDigit k q (j + f - k) := by
  rw [LastDigit, show (k : ℤ) - 1 + (j + f - k) = j - 1 + f by ring,
    show (k : ℤ) + (j + f - k) = j + f by ring]
  exact last

end LastDigit

namespace WithinUnit

variable {j k : ℕ} {q d r : ℚ}

/-- Rounding within a unit is the same for opposites. -/
theorem neg (rounded : WithinUnit k q r) : WithinUnit k (-q) (-r) := by
  rcases rounded with ⟨rfl, rfl⟩ | ⟨e, m, last, rfl, near⟩
  · exact Or.inl ⟨neg_zero, neg_zero⟩
  · refine Or.inr ⟨e, -m, last.neg, by push_cast; ring, ?_⟩
    rw [← neg_sub', abs_neg]
    exact near

/-- Zero is rounded to zero. -/
theorem zero (rounded : WithinUnit k 0 r) : r = 0 := by
  rcases rounded with ⟨-, zero⟩ | ⟨e, m, last, -⟩
  · exact zero
  · exact absurd rfl last.ne_zero

/-- The digits of a number of at most `k` digits are multiples of its last unit. -/
theorem unit_le {c t e : ℤ} (short : |c| < 10 ^ k) (last : LastDigit k (c * 10 ^ t) e) : e ≤ t := by
  have size : |(c : ℚ) * 10 ^ t| < 10 ^ ((k : ℤ) + t) := by
    rw [abs_mul, abs_of_pos (ten_pow_pos t), zpow_add₀ (by norm_num), zpow_natCast]
    have bound : |(c : ℚ)| < 10 ^ k := by exact_mod_cast short
    exact mul_lt_mul_of_pos_right bound (ten_pow_pos t)
  have exponents := ten_pow_lt_iff.mp (last.1.trans_lt size)
  omega

/-- A number of at most `k` digits stays as it is. -/
theorem self {c t : ℤ} (short : |c| < 10 ^ k) : WithinUnit k (c * 10 ^ t) (c * 10 ^ t) := by
  by_cases zero : (c : ℚ) * 10 ^ t = 0
  · exact Or.inl ⟨zero, zero⟩
  · obtain ⟨e, last⟩ := LastDigit.exists_ k zero
    obtain ⟨b, multiple⟩ := ten_pow_eq_mul (unit_le short last)
    refine Or.inr ⟨e, c * b, last, ?_, ?_⟩
    · rw [multiple]
      push_cast
      ring
    · rw [sub_self, abs_zero]
      exact ten_pow_pos e

/-- A number of at most `k` digits is rounded to itself only. -/
theorem eq_of_short {c t : ℤ} (short : |c| < 10 ^ k) (rounded : WithinUnit k (c * 10 ^ t) r) :
    r = c * 10 ^ t := by
  rcases rounded with ⟨zero, rfl⟩ | ⟨e, m, last, rfl, near⟩
  · exact zero.symm
  · obtain ⟨b, multiple⟩ := ten_pow_eq_mul (unit_le short last)
    have scaled : (c : ℚ) * 10 ^ t = ((c * b : ℤ) : ℚ) * 10 ^ e := by
      rw [multiple]
      push_cast
      ring
    rw [eq_of_near (ten_pow_pos e) scaled near, scaled]

/-- What is rounded keeps its sign. -/
theorem pos_iff (digits : 0 < k) (rounded : WithinUnit k q r) : 0 < r ↔ 0 < q := by
  rcases rounded with ⟨rfl, rfl⟩ | ⟨e, m, last, rfl, near⟩
  · exact Iff.rfl
  · have unit : (10 : ℚ) ^ e ≤ |q| := (ten_pow_le_iff.mpr (by omega)).trans last.1
    rw [abs_lt] at near
    rcases lt_or_gt_of_ne last.ne_zero with negative | positive
    · rw [abs_of_neg negative] at unit
      exact iff_of_false (by linarith) (by linarith)
    · rw [abs_of_pos positive] at unit
      exact iff_of_true (by linarith) positive

/-- What is near has no more than `k` digits. -/
theorem short (digits : 0 < k) (rounded : WithinUnit k q r) :
    ∃ c t : ℤ, |c| < 10 ^ k ∧ r = c * 10 ^ t := by
  rcases rounded with ⟨-, rfl⟩ | ⟨e, m, last, rfl, near⟩
  · exact ⟨0, 0, by positivity, by norm_num⟩
  have unit := ten_pow_pos e
  have size : ((|m| : ℤ) : ℚ) < 10 ^ k + 1 := by
    have bound : |(m : ℚ) * 10 ^ e| < (10 ^ k + 1) * 10 ^ e := by
      have whole := last.2
      rw [zpow_add₀ (by norm_num), zpow_natCast] at whole
      have split_ := abs_sub_abs_le_abs_sub ((m : ℚ) * 10 ^ e) q
      rw [abs_sub_comm] at split_
      linarith
    rw [abs_mul, abs_of_pos unit] at bound
    rw [Int.cast_abs]
    exact lt_of_mul_lt_mul_right bound unit.le
  have atMost : |m| < 10 ^ k + 1 := by exact_mod_cast size
  rcases (show |m| < 10 ^ k ∨ |m| = 10 ^ k by omega) with small | power
  · exact ⟨m, e, small, rfl⟩
  · -- The first digit was carried to: one is left of them.
    refine ⟨m.sign, k + e, ?_, ?_⟩
    · have sign : |m.sign| ≤ 1 := by
        rcases Int.sign_trichotomy m with one | zero | minus <;> simp [*]
      exact sign.trans_lt (one_lt_pow₀ (by norm_num) (by omega))
    · have value : (m : ℚ) = m.sign * 10 ^ k := by
        have split_ := Int.sign_mul_abs m
        rw [power] at split_
        exact_mod_cast split_.symm
      rw [zpow_add₀ (by norm_num), zpow_natCast, ← mul_assoc, ← value]

/-- Nothing but zero is rounded to zero. -/
theorem of_zero (digits : 0 < k) (rounded : WithinUnit k q 0) : q = 0 := by
  have above := rounded.pos_iff digits
  have below := rounded.neg.pos_iff digits
  rw [neg_zero, neg_pos] at below
  exact le_antisymm (not_lt.mp fun positive => lt_irrefl 0 (above.mpr positive))
    (not_lt.mp fun negative => lt_irrefl 0 (below.mpr negative))

/-- What is near in more digits lies on the same side of the multiples of a coarser unit. -/
theorem bounds (fewer : k ≤ j) (near : WithinUnit j q d) {e : ℤ} (last : LastDigit k q e) :
    |q - d| < 10 ^ (e + k - j) ∧ (∀ a : ℤ, a * 10 ^ e ≤ q → a * 10 ^ e ≤ d) ∧
      ∀ a : ℤ, q ≤ a * 10 ^ e → d ≤ a * 10 ^ e := by
  rcases near with ⟨zero, -⟩ | ⟨f, m, fine, rfl, near⟩
  · exact absurd zero last.ne_zero
  have place : j + f - k = e := last.unique fine.fewer
  have units : f ≤ e := by omega
  rw [show e + k - j = f by omega]
  exact ⟨near, fun a => multiple_le_of_near units near, fun a => le_multiple_of_near units near⟩

/-- What is near a positive number has its last digit in the same place, unless it has become the
next power of ten. -/
theorem place (fewer : k ≤ j) (digits : 0 < k) (positive : 0 < q) (near : WithinUnit j q d)
    {e e' : ℤ} (last : LastDigit k q e) (last' : LastDigit k d e') :
    0 < d ∧ (e' = e ∨ e' = e + 1 ∧ d = 10 ^ ((k : ℤ) + e)) := by
  obtain ⟨-, above, below⟩ := near.bounds fewer last
  obtain ⟨low, first⟩ := ten_pow_eq_mul (show e ≤ (k : ℤ) - 1 + e by omega)
  obtain ⟨high, next⟩ := ten_pow_eq_mul (show e ≤ (k : ℤ) + e by omega)
  have size := last
  rw [LastDigit, abs_of_pos positive, first, next] at size
  have atLeast := above low size.1
  have atMost := below high size.2.le
  rw [← first] at atLeast
  rw [← next] at atMost
  have kept : 0 < d := (ten_pow_pos _).trans_le atLeast
  have sizes := last'
  rw [LastDigit, abs_of_pos kept] at sizes
  have lower := ten_pow_lt_iff.mp (atLeast.trans_lt sizes.2)
  have upper := ten_pow_le_iff.mp (sizes.1.trans atMost)
  refine ⟨kept, ?_⟩
  rcases (show e' = e ∨ e' = e + 1 by omega) with same | next
  · exact Or.inl same
  · refine Or.inr ⟨next, le_antisymm atMost ?_⟩
    rw [show (k : ℤ) + e = k - 1 + e' by omega]
    exact sizes.1

end WithinUnit

/-- Rounding to nearest is the same for opposites. -/
theorem Nearest.neg {k : ℕ} {q r : ℚ} (nearest : Nearest k q r) : Nearest k (-q) (-r) := by
  rcases nearest with ⟨rfl, rfl⟩ | ⟨e, m, last, rfl, near⟩
  · exact Or.inl ⟨neg_zero, neg_zero⟩
  · refine Or.inr ⟨e, -m, last.neg, by push_cast; ring, ?_⟩
    rw [← neg_sub', abs_neg]
    exact near

/-- Half a unit is less than a unit. -/
theorem Nearest.within {k : ℕ} {q r : ℚ} (nearest : Nearest k q r) : WithinUnit k q r := by
  rcases nearest with zero | ⟨e, m, last, value, near⟩
  · exact Or.inl zero
  · exact Or.inr ⟨e, m, last, value, near.trans_lt (half_lt_self (ten_pow_pos e))⟩

namespace Rounded

variable {share : ℚ} {j k : ℕ} {q d r : ℚ}

/-- What is rounded is within a unit. -/
theorem within (least : 0 ≤ share) (most : share < 1) (rounded : Rounded share k q r) :
    WithinUnit k q r := by
  rcases rounded with zero | ⟨e, m, last, rfl, low, high⟩
  · exact Or.inl zero
  · refine Or.inr ⟨e, m, last, rfl, ?_⟩
    have unit := ten_pow_pos e
    rw [abs_lt]
    constructor <;> nlinarith

/-- A number of at most `k` digits stays as it is. -/
theorem self (least : 0 ≤ share) (most : share < 1) {c t : ℤ} (short : |c| < 10 ^ k) :
    Rounded share k (c * 10 ^ t) (c * 10 ^ t) := by
  rcases WithinUnit.self short with zero | ⟨e, m, last, value, -⟩
  · exact Or.inl zero
  · refine Or.inr ⟨e, m, last, value, ?_, ?_⟩
    · rw [value]
      exact mul_le_mul_of_nonneg_right (by linarith) (ten_pow_pos e).le
    · rw [value]
      exact mul_lt_mul_of_pos_right (by linarith) (ten_pow_pos e)

/-- The rounded number is the only multiple of the unit whose share of `q` fits. -/
theorem eq_of_between {e m n : ℤ} (low : (m - share) * 10 ^ e ≤ q) (high : q < (m + 1 - share) * 10 ^ e)
    (low' : (n - share) * 10 ^ e ≤ q) (high' : q < (n + 1 - share) * 10 ^ e) : n = m := by
  have unit := ten_pow_pos e
  have below := lt_of_mul_lt_mul_right (low'.trans_lt high) unit.le
  have above := lt_of_mul_lt_mul_right (low.trans_lt high') unit.le
  have lower : (n : ℚ) < m + 1 := by linarith
  have upper : (m : ℚ) < n + 1 := by linarith
  have : n < m + 1 := by exact_mod_cast lower
  have : m < n + 1 := by exact_mod_cast upper
  omega

/-- The rounded number as a multiple of the unit of the last digit. -/
theorem eq_floor {e : ℤ} (last : LastDigit k q e) (rounded : Rounded share k q r) :
    r = ⌊q / 10 ^ e + share⌋ * 10 ^ e := by
  rcases rounded with ⟨zero, -⟩ | ⟨e', m, last', rfl, low, high⟩
  · exact absurd zero last.ne_zero
  cases last.unique last'
  have unit := ten_pow_pos e
  rw [← le_div_iff₀ unit] at low
  rw [← div_lt_iff₀ unit] at high
  have floor : ⌊q / 10 ^ e + share⌋ = m := by
    rw [Int.floor_eq_iff]
    constructor <;> linarith
  rw [floor]

/-- Rounding what is near in more digits is rounding once, where both lie on the same side of each
number at which the result changes. -/
theorem of_within (digits : 0 < k) (fewer : k ≤ j) (least : 0 ≤ share) (most : share < 1)
    (positive : 0 < q) (first : WithinUnit j q d) (second : Rounded share k d r)
    (sides : ∀ e, LastDigit k q e → ∀ n : ℤ,
      (n - share) * 10 ^ e ≤ q ↔ (n - share) * 10 ^ e ≤ d) :
    Rounded share k q r := by
  obtain ⟨e, last⟩ := LastDigit.exists_ k positive.ne'
  have side := sides e last
  rcases second with ⟨rfl, rfl⟩ | ⟨e', m, last', rfl, low, high⟩
  · exact absurd (first.of_zero (digits.trans_le fewer)) positive.ne'
  obtain ⟨-, rfl | ⟨rfl, power⟩⟩ := first.place fewer digits positive last last'
  · refine Or.inr ⟨e', m, last, rfl, (side m).mpr low, ?_⟩
    have next := side (m + 1)
    push_cast at next
    exact not_le.mp fun reached => absurd (next.mp reached) (not_le.mpr high)
  · -- The first rounding has carried: its result is a power of ten, which stays.
    obtain ⟨top, next⟩ := ten_pow_eq_mul (show e ≤ (k : ℤ) + e by omega)
    obtain ⟨c, carried⟩ := ten_pow_eq_mul (show e + 1 ≤ (k : ℤ) + e by omega)
    have unit := ten_pow_pos e
    have stays : m = c := by
      rw [power, carried] at low high
      refine eq_of_between ?_ ?_ low high
      · exact mul_le_mul_of_nonneg_right (by linarith) (ten_pow_pos (e + 1)).le
      · exact mul_lt_mul_of_pos_right (by linarith) (ten_pow_pos (e + 1))
    have size := last.2
    rw [abs_of_pos positive, next] at size
    refine Or.inr ⟨e, top, last, by rw [stays, ← carried, next], (side top).mpr ?_, ?_⟩
    · rw [power, next]
      exact mul_le_mul_of_nonneg_right (by linarith) unit.le
    · exact size.trans (mul_lt_mul_of_pos_right (by linarith) unit)

/-- Rounding halves up gives a nearest number. -/
theorem nearest (rounded : Rounded (1 / 2) k q r) : Nearest k q r := by
  rcases rounded with zero | ⟨e, m, last, rfl, low, high⟩
  · exact Or.inl zero
  · refine Or.inr ⟨e, m, last, rfl, ?_⟩
    rw [abs_le]
    constructor <;> linarith

/-- Whether a number that is cut off is also nearest depends on what is cut off. -/
theorem nearest_iff {e : ℤ} (last : LastDigit k q e) (cut : Rounded 0 k q r) :
    Nearest k q r ↔ Int.fract (q / 10 ^ e) ≤ 1 / 2 := by
  have unit := ten_pow_pos e
  have value := cut.eq_floor last
  rw [add_zero] at value
  have rest : |q - r| = Int.fract (q / 10 ^ e) * 10 ^ e := by
    have split_ : q - r = Int.fract (q / 10 ^ e) * 10 ^ e := by
      rw [value, Int.fract]
      field_simp
    rw [split_, abs_of_nonneg (mul_nonneg (Int.fract_nonneg _) unit.le)]
  constructor
  · rintro (⟨zero, -⟩ | ⟨e', m, last', -, bound⟩)
    · exact absurd zero last.ne_zero
    · cases last.unique last'
      rw [rest, ← le_div_iff₀ unit] at bound
      refine bound.trans_eq ?_
      field_simp
  · intro half
    refine Or.inr ⟨e, _, last, value, ?_⟩
    rw [rest]
    nlinarith

end Rounded

end MockOracle.Semantics
