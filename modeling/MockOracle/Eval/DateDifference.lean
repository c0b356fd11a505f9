import MockOracle.Eval.Decimals

/-!
# Differences of dates

The difference of two dates is counted in nanoseconds, in 64 bits, and divided by those of a
day; where the count does not fit, the difference is zero. What has more than 40 digits is rounded
by the decimal library, which cuts negative numbers off. So the difference is exact for dates that
are at most some 292 years apart, if it is not negative or cutting is rounding as well.
-/

namespace MockOracle

open Semantics BigDecimal

section Difference

variable {lib : Library}

namespace Library.Decimals

/-- The nanoseconds of `s` seconds are divided to 100 digits or more. -/
theorem days_quotient (decimals : lib.Decimals) (s : Int) : ∃ j ≥ 100, WithinUnit j ((s : ℚ) / 86400)
    (lib.div ⟨s * 1000000000, 0⟩ ⟨86400000000000, 0⟩).toRat := by
  obtain ⟨j, many, divided⟩ := decimals.quotient ⟨s * 1000000000, 0⟩ ⟨86400000000000, 0⟩ (by decide)
  have ratio : ((s * 1000000000 : Int) : ℚ) / ((86400000000000 : Int) : ℚ) = (s : ℚ) / 86400 := by
    push_cast
    ring
  rw [toRat_int, toRat_int, ratio] at divided
  exact ⟨j, many, divided⟩

end Library.Decimals

/-! ## Days of a number of seconds -/

section Days

variable {s : Int}

/-- Days are no closer to a multiple of half a decimal unit than a millionth of the unit, unless they
are one. -/
theorem days_apart (s n : Int) (p : Nat) :
    (s : ℚ) / 86400 = n * (10 ^ (-p : ℤ) / 2) ∨
      10 ^ (-p - 6 : ℤ) ≤ |(s : ℚ) / 86400 - n * (10 ^ (-p : ℤ) / 2)| := by
  have unit := ten_pow_pos (-p)
  have scaled : (s : ℚ) / 86400 - n * (10 ^ (-p : ℤ) / 2) =
      ((2 * s * 10 ^ p - 86400 * n : Int) : ℚ) / 172800 * 10 ^ (-p : ℤ) := by
    have power : (10 : ℚ) ^ p * 10 ^ (-p : ℤ) = 1 := by
      rw [← zpow_natCast, ← zpow_add₀ (by norm_num), add_neg_cancel, zpow_zero]
    push_cast
    linear_combination (-(s : ℚ) / 86400) * power
  by_cases same : 2 * s * 10 ^ p - 86400 * n = 0
  · rw [same, Int.cast_zero, zero_div, zero_mul, sub_eq_zero] at scaled
    exact Or.inl scaled
  · have whole : (1 : ℚ) ≤ |((2 * s * 10 ^ p - 86400 * n : Int) : ℚ)| := by
      exact_mod_cast Int.one_le_abs same
    refine Or.inr ?_
    rw [scaled, abs_mul, abs_div, abs_of_pos unit, sub_eq_add_neg, zpow_add₀ (by norm_num), mul_comm]
    refine mul_le_mul_of_nonneg_right ?_ unit.le
    rw [abs_of_pos (show (0 : ℚ) < 172800 by norm_num), le_div_iff₀ (by norm_num)]
    refine le_trans ?_ whole
    norm_num

/-- Days are not in the middle of two decimal numbers of seven places or more. -/
theorem days_ne_middle (s n : Int) {p : Nat} (fine : 7 ≤ p) :
    (s : ℚ) / 86400 ≠ ((2 * n + 1 : Int) : ℚ) * (10 ^ (-p : ℤ) / 2) := by
  intro same
  have power : (10 : ℚ) ^ p * 10 ^ (-p : ℤ) = 1 := by
    rw [← zpow_natCast, ← zpow_add₀ (by norm_num), add_neg_cancel, zpow_zero]
  have scaled : (2 * s * 10 ^ p : ℚ) = 86400 * (2 * n + 1) := by
    have := congrArg (· * (172800 * (10 : ℚ) ^ p)) same
    push_cast at this
    linear_combination this + 86400 * (2 * n + 1 : ℚ) * power
  have whole : 2 * s * 10 ^ p = 86400 * (2 * n + 1) := by exact_mod_cast scaled
  obtain ⟨t, rfl⟩ : ∃ t, p = 7 + t := ⟨p - 7, by omega⟩
  rw [pow_add] at whole
  obtain ⟨z, product⟩ : ∃ z, z = s * 10 ^ t := ⟨_, rfl⟩
  have even : 2 * s * (10 ^ 7 * 10 ^ t) = 20000000 * z := by
    rw [product]
    ring
  omega

/-- Where the 40th digit of a number of days is. -/
theorem days_place {e : ℤ} (small : |s| < 10 ^ 10) (last : LastDigit 40 ((s : ℚ) / 86400) e) :
    ∃ p : Nat, 7 ≤ p ∧ e = -p := by
  have size : |(s : ℚ) / 86400| < 10 ^ (10 : ℤ) := by
    rw [abs_div, div_lt_iff₀ (by norm_num), abs_of_pos (show (0 : ℚ) < 86400 by norm_num),
      ← Int.cast_abs]
    have bound : ((|s| : Int) : ℚ) < 10 ^ 10 := by exact_mod_cast small
    norm_num at bound ⊢
    linarith
  have place := ten_pow_lt_iff.mp (last.1.trans_lt size)
  push_cast at place
  exact ⟨(-e).toNat, by omega, by omega⟩

/-- The days of a number of seconds that is not negative are rounded, halves up. -/
theorem Library.Decimals.days_halfUp (decimals : lib.Decimals) (positive : 0 ≤ s)
    (small : |s| < 10 ^ 10) : Rounded (1 / 2) 40 ((s : ℚ) / 86400)
      (roundNumber lib (lib.div ⟨s * 1000000000, 0⟩ ⟨86400000000000, 0⟩)).toRat := by
  obtain ⟨j, many, divided⟩ := decimals.days_quotient s
  rcases positive.eq_or_lt with rfl | positive
  · rw [Int.cast_zero, zero_div] at divided ⊢
    have rounded := decimals.roundNumber_halfUp divided.zero.ge
    rwa [divided.zero] at rounded
  · have days : 0 < (s : ℚ) / 86400 := div_pos (by exact_mod_cast positive) (by norm_num)
    have kept := (divided.pos_iff (by omega)).mpr days
    refine Rounded.of_within (by decide) (by omega) (by norm_num) (by norm_num) days divided
      (decimals.roundNumber_halfUp kept.le) fun e last n => ?_
    obtain ⟨near, -, -⟩ := divided.bounds (k := 40) (by omega) last
    obtain ⟨p, fine, rfl⟩ := days_place small last
    have middle : ((n : ℚ) - 1 / 2) * 10 ^ (-p : ℤ) =
        ((2 * (n - 1) + 1 : Int) : ℚ) * (10 ^ (-p : ℤ) / 2) := by
      push_cast
      ring
    rw [middle]
    refine side_iff near (le_trans (ten_pow_le_iff.mpr ?_)
      ((days_apart s (2 * (n - 1) + 1) p).resolve_left (days_ne_middle s (n - 1) fine)))
    push_cast
    omega

/-- The days of a negative number of seconds are cut off. -/
theorem Library.Decimals.days_cut (decimals : lib.Decimals) (negative : s < 0)
    (small : |s| < 10 ^ 10) : Rounded 0 40 (((-s : Int) : ℚ) / 86400)
      (-(roundNumber lib (lib.div ⟨s * 1000000000, 0⟩ ⟨86400000000000, 0⟩)).toRat) := by
  obtain ⟨j, many, divided⟩ := decimals.days_quotient s
  have days : 0 < ((-s : Int) : ℚ) / 86400 :=
    div_pos (by exact_mod_cast neg_pos.mpr negative) (by norm_num)
  have mirrored : WithinUnit j (((-s : Int) : ℚ) / 86400)
      (-(lib.div ⟨s * 1000000000, 0⟩ ⟨86400000000000, 0⟩).toRat) := by
    rw [Int.cast_neg, neg_div]
    exact divided.neg
  have kept := (mirrored.pos_iff (by omega)).mpr days
  refine Rounded.of_within (by decide) (by omega) le_rfl one_pos days mirrored
    (decimals.roundNumber_cut (neg_pos.mp kept)) fun e last n => ?_
  obtain ⟨near, above, -⟩ := mirrored.bounds (k := 40) (by omega) last
  rw [← abs_neg] at small
  obtain ⟨p, fine, rfl⟩ := days_place small last
  have units : ((2 * n : Int) : ℚ) * (10 ^ (-p : ℤ) / 2) = n * 10 ^ (-p : ℤ) := by
    push_cast
    ring
  have apart := days_apart (-s) (2 * n) p
  rw [units] at apart
  rw [sub_zero]
  rcases apart with equal | far
  · exact iff_of_true equal.ge (above n equal.ge)
  · refine side_iff near (le_trans (ten_pow_le_iff.mpr ?_) far)
    push_cast
    omega

/-- The number of days is within a unit of its 40th digit. -/
theorem Library.Decimals.days_within (decimals : lib.Decimals) (small : |s| < 10 ^ 10) :
    WithinUnit 40 ((s : ℚ) / 86400)
      (roundNumber lib (lib.div ⟨s * 1000000000, 0⟩ ⟨86400000000000, 0⟩)).toRat := by
  rcases le_or_gt 0 s with positive | negative
  · exact (decimals.days_halfUp positive small).within (by norm_num) (by norm_num)
  · have mirrored := ((decimals.days_cut negative small).within le_rfl one_pos).neg
    rwa [neg_neg, Int.cast_neg, neg_div, neg_neg] at mirrored

/-- Cutting the days of `s` seconds off after 40 digits rounds them: the 41st digit is at most 4. -/
def CutRounds (s : Int) : Prop :=
  ∃ p : Nat, 10 ^ 39 * 86400 ≤ s * 10 ^ p ∧ s * 10 ^ p < 10 ^ 40 * 86400 ∧
    s * 10 ^ p % 86400 ≤ 43200

/-- The places of the first 40 digits of a number of days. -/
theorem lastDigit_days {p : Nat} (positive : 0 < s) :
    LastDigit 40 ((s : ℚ) / 86400) (-p) ↔
      10 ^ 39 * 86400 ≤ s * 10 ^ p ∧ s * 10 ^ p < 10 ^ 40 * 86400 := by
  have days : 0 < (s : ℚ) / 86400 := div_pos (by exact_mod_cast positive) (by norm_num)
  have unit := ten_pow_pos (p : ℤ)
  rw [LastDigit, abs_of_pos days, show ((40 : ℕ) : ℤ) - 1 + -p = 39 - p by push_cast; ring,
    show ((40 : ℕ) : ℤ) + -p = 40 - p by push_cast; ring, zpow_sub₀ (by norm_num) 39,
    zpow_sub₀ (by norm_num) 40, div_le_div_iff₀ unit (by norm_num), div_lt_div_iff₀ (by norm_num) unit]
  norm_num
  constructor
  · rintro ⟨low, high⟩
    exact ⟨by exact_mod_cast low, by exact_mod_cast high⟩
  · rintro ⟨low, high⟩
    exact ⟨by exact_mod_cast low, by exact_mod_cast high⟩

/-- What is left of a number of days beyond a decimal place. -/
theorem fract_days (s : Int) (p : Nat) :
    Int.fract ((s : ℚ) / 86400 / 10 ^ (-p : ℤ)) = ((s * 10 ^ p % 86400 : Int) : ℚ) / 86400 := by
  have whole : (s : ℚ) / 86400 / 10 ^ (-p : ℤ) = ((s * 10 ^ p : Int) : ℚ) / (86400 : Nat) := by
    rw [zpow_neg, zpow_natCast, div_inv_eq_mul]
    push_cast
    ring
  rw [whole, Int.fract_div_intCast_eq_div_intCast_mod]
  norm_num

/-- A number of days that is cut off is also rounded if its 41st digit is at most 4. -/
theorem nearest_iff_cutRounds {r : ℚ} (positive : 0 < s) (small : |s| < 10 ^ 10)
    (cut : Rounded 0 40 ((s : ℚ) / 86400) r) : Nearest 40 ((s : ℚ) / 86400) r ↔ CutRounds s := by
  have days : 0 < (s : ℚ) / 86400 := div_pos (by exact_mod_cast positive) (by norm_num)
  have half (p : Nat) : ((s * 10 ^ p % 86400 : Int) : ℚ) / 86400 ≤ 1 / 2 ↔
      s * 10 ^ p % 86400 ≤ 43200 := by
    rw [div_le_div_iff₀ (by norm_num) (by norm_num)]
    norm_num
    constructor
    · intro bound
      have : s * 10 ^ p % 86400 * 2 ≤ 86400 := by exact_mod_cast bound
      omega
    · intro bound
      have : s * 10 ^ p % 86400 * 2 ≤ 86400 := by omega
      exact_mod_cast this
  constructor
  · intro nearest
    obtain ⟨e, last⟩ := LastDigit.exists_ 40 days.ne'
    obtain ⟨p, -, rfl⟩ := days_place small last
    rw [Rounded.nearest_iff last cut, fract_days, half] at nearest
    exact ⟨p, ((lastDigit_days positive).mp last).1, ((lastDigit_days positive).mp last).2, nearest⟩
  · rintro ⟨p, low, high, rest⟩
    have last := (lastDigit_days positive).mpr ⟨low, high⟩
    rw [Rounded.nearest_iff last cut, fract_days, half]
    exact rest

end Days

/-! ## The difference -/

theorem arithmetic_dates (x y : Int) :
    arithmetic lib .sub (.date ⟨x, 0⟩) (.date ⟨y, 0⟩) = .ok (.number (roundNumber lib
      (lib.div ⟨nanosBetween ⟨x, 0⟩ ⟨y, 0⟩, 0⟩ ⟨86400000000000, 0⟩))) := rfl

theorem nanosBetween_dates (x y : Int) :
    nanosBetween ⟨x, 0⟩ ⟨y, 0⟩ =
      if InBits 64 ((x - y) * 1000000000) then (x - y) * 1000000000 else 0 := by
  simp [nanosBetween]

/-- A whole number of days added to a date. -/
theorem add_days_eq {x y k : Int} {n : BigDecimal} (whole : n.toRat = k)
    (added : arithmetic lib .add (.date ⟨y, 0⟩) (.number n) = .ok (.date ⟨x, 0⟩)) :
    x = y + 86400 * k := by
  have seconds : ((n.mul ⟨86400, 0⟩).withScaleRound 0).intVal = 86400 * k := by
    rw [intVal_withScaleRound, toRat_mul, toRat_int, whole, zpow_zero, mul_one]
    have product : (k : ℚ) * ((86400 : Int) : ℚ) = ((86400 * k : Int) : ℚ) := by
      push_cast
      ring
    rw [product, roundAway_intCast]
  have moved : addDays lib ⟨y, 0⟩ n false = .ok (.date ⟨x, 0⟩) := added
  unfold addDays at moved
  simp only [seconds, Bool.false_eq_true, if_false] at moved
  split at moved
  · cases moved
  · split at moved
    · cases moved
    · cases moved
      rfl

theorem compare_dates_gt_iff (dates : DateFormats) (format : String) (x y : Int) :
    compareValues dates format (.date ⟨x, 0⟩) (.date ⟨y, 0⟩) = .ok (some .gt) ↔ y < x := by
  have compared : compareValues dates format (.date ⟨x, 0⟩) (.date ⟨y, 0⟩) =
      .ok (some (compareInstants ⟨x, 0⟩ ⟨y, 0⟩)) := rfl
  rw [compared]
  simp [compareInstants, compare_gt_iff_gt]

/-- `m` is the difference of the dates with timestamps `x` and `y`: the seconds between them
over those of a day, rounded to 40 significant digits. It is positive exactly when `x` compares as
later, and is the number of days when a whole number of days was added to `y` to give `x`. -/
structure DifferenceExact (lib : Library) (x y : Int) (m : BigDecimal) : Prop where
  quotient : Nearest 40 (((x - y : Int) : ℚ) / 86400) m.toRat
  positive : ∀ format, 0 < m.toRat ↔
    compareValues lib.dates format (.date ⟨x, 0⟩) (.date ⟨y, 0⟩) = .ok (some .gt)
  days : ∀ (n : BigDecimal) (k : Int), n.toRat = k →
    arithmetic lib .add (.date ⟨y, 0⟩) (.number n) = .ok (.date ⟨x, 0⟩) → m.toRat = k

variable {x y : Int} {m : BigDecimal}

/-- What is within a unit of the difference has its sign, and is a whole number of days where the
difference is one. -/
theorem differenceExact_iff (near : WithinUnit 40 (((x - y : Int) : ℚ) / 86400) m.toRat)
    (small : |x - y| < 10 ^ 10) :
    DifferenceExact lib x y m ↔ Nearest 40 (((x - y : Int) : ℚ) / 86400) m.toRat := by
  refine ⟨DifferenceExact.quotient, fun nearest => ⟨nearest, fun format => ?_, fun n k whole added => ?_⟩⟩
  · rw [compare_dates_gt_iff, near.pos_iff (by decide), div_pos_iff_of_pos_right (by norm_num),
      Int.cast_pos, sub_pos]
  · have moved := add_days_eq whole added
    have count : ((x - y : Int) : ℚ) / 86400 = (k : ℚ) * 10 ^ (0 : Int) := by
      rw [moved]
      push_cast
      ring
    have short : |k| < 10 ^ 40 := by
      rw [moved, abs_lt] at small
      rw [abs_lt]
      constructor <;> omega
    rw [count] at near
    rw [near.eq_of_short short, zpow_zero, mul_one]

/-- Where the nanoseconds do not fit, the difference is zero. -/
theorem Library.Decimals.zero_days (decimals : lib.Decimals) :
    (roundNumber lib (lib.div ⟨0, 0⟩ ⟨86400000000000, 0⟩)).toRat = 0 := by
  have days := decimals.days_within (s := 0) (by norm_num)
  rw [Int.cast_zero, zero_div] at days
  exact days.zero

/-- The difference of two dates is exact if and only if the nanoseconds between them fit 64 bits
and it is not negative, or cutting it off after 40 digits rounds it. -/
theorem date_difference_iff (decimals : lib.Decimals) (x y : Int) :
    (∃ m, arithmetic lib .sub (.date ⟨x, 0⟩) (.date ⟨y, 0⟩) = .ok (.number m) ∧
      DifferenceExact lib x y m) ↔
    InBits 64 ((x - y) * 1000000000) ∧ (y ≤ x ∨ CutRounds (y - x)) := by
  rw [arithmetic_dates, nanosBetween_dates]
  by_cases small : InBits 64 ((x - y) * 1000000000)
  · rw [if_pos small, and_iff_right small]
    have bound : |x - y| < 10 ^ 10 := by
      obtain ⟨low, high⟩ := small
      rw [abs_lt]
      constructor <;> omega
    have evaluated : (∃ m, Except.ok (ε := OraError) (Value.number (roundNumber lib (lib.div
        ⟨(x - y) * 1000000000, 0⟩ ⟨86400000000000, 0⟩))) = .ok (.number m) ∧ DifferenceExact lib x y m) ↔
        DifferenceExact lib x y (roundNumber lib (lib.div ⟨(x - y) * 1000000000, 0⟩
          ⟨86400000000000, 0⟩)) :=
      ⟨fun ⟨m, same, exact_⟩ => by cases same; exact exact_, fun exact_ => ⟨_, rfl, exact_⟩⟩
    rw [evaluated, differenceExact_iff (decimals.days_within bound) bound]
    rcases le_or_gt y x with later | earlier
    · exact iff_of_true ((decimals.days_halfUp (sub_nonneg.mpr later) bound).nearest) (Or.inl later)
    · have cut := decimals.days_cut (sub_neg.mpr earlier) bound
      rw [neg_sub] at cut
      rw [or_iff_right (not_le.mpr earlier),
        ← nearest_iff_cutRounds (sub_pos.mpr earlier) (by rwa [abs_sub_comm]) cut]
      have mirrored : ((y - x : Int) : ℚ) / 86400 = -(((x - y : Int) : ℚ) / 86400) := by
        push_cast
        ring
      rw [mirrored]
      exact ⟨Nearest.neg, fun nearest => by simpa using nearest.neg⟩
  · rw [if_neg small]
    refine iff_of_false ?_ fun holds => small holds.1
    rintro ⟨m, evaluated, exact_⟩
    cases evaluated
    have apart := exact_.quotient.within
    rw [decimals.zero_days] at apart
    have same := apart.of_zero (by decide)
    rw [div_eq_zero_iff, or_iff_left (by norm_num), Int.cast_eq_zero] at same
    exact small (by rw [same]; decide)

end Difference

/-! ## Concrete dates -/

/-- The start of the year 2000 and 31 days before it, in either order. -/
theorem date_difference_month :
    (∃ m, arithmetic .dividing .sub (.date ⟨946684800, 0⟩) (.date ⟨944006400, 0⟩) = .ok (.number m) ∧
      DifferenceExact .dividing 946684800 944006400 m) ∧
    ∃ m, arithmetic .dividing .sub (.date ⟨944006400, 0⟩) (.date ⟨946684800, 0⟩) = .ok (.number m) ∧
      DifferenceExact .dividing 944006400 946684800 m :=
  ⟨(date_difference_iff Library.decimals_dividing _ _).mpr ⟨by decide, Or.inl (by decide)⟩,
    (date_difference_iff Library.decimals_dividing _ _).mpr
      ⟨by decide, Or.inr ⟨38, by decide, by decide, by decide⟩⟩⟩

/-- The start of the year 9999 less that of 1970 is zero days; the seconds between them are
those of 2932532 days. -/
theorem date_difference_overflows :
    ((253370764800 - 0 : Int) : ℚ) / 86400 = 2932532 ∧
    ∃ m, arithmetic .dividing .sub (.date ⟨253370764800, 0⟩) (.date ⟨0, 0⟩) = .ok (.number m) ∧
      m.toRat = 0 ∧ ¬ DifferenceExact .dividing 253370764800 0 m := by
  have zero : (MockOracle.roundNumber .dividing (Library.dividing.div
      ⟨nanosBetween ⟨253370764800, 0⟩ ⟨0, 0⟩, 0⟩ ⟨86400000000000, 0⟩)).toRat = 0 := by
    have none_ : nanosBetween ⟨253370764800, 0⟩ ⟨0, 0⟩ = 0 := by decide
    rw [none_]
    exact Library.decimals_dividing.zero_days
  refine ⟨by norm_num, _, arithmetic_dates _ _, zero, fun exact_ => ?_⟩
  have apart := exact_.quotient.within
  rw [zero] at apart
  have same := apart.of_zero (by decide)
  norm_num at same

end MockOracle
