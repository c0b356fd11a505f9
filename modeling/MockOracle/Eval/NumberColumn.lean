import MockOracle.Eval.StoreValue
import MockOracle.Eval.Plain
import MockOracle.Eval.Literal
import MockOracle.Semantics.Rounding

/-!
# NUMBER(p,s) columns

A number is rounded to `s` places and refused when it has more than `p - s` digits before the
point. For `s` at most `p` that accepts exactly the rounded numbers below `10 ^ (p - s)`. For
`s` above `p` no number of digits is allowed, none being one too many, so every number is
refused, those below `10 ^ (p - s)` too.
-/

namespace MockOracle

open Semantics

namespace BigDecimal

theorem length_numeral_le {a k : Nat} (positive : 0 < k) : (toString a).length ≤ k ↔ a < 10 ^ k := by
  rw [← String.length_toList, Nat.toString_eq_ofList_toDigits, String.toList_ofList]
  exact Nat.length_toDigits_le_iff (by decide) positive

/-- The coefficient counts units of the last of `scale` places. -/
theorem toRat_mul_pow (n : BigDecimal) (scale : Int) :
    n.toRat * 10 ^ scale = n.intVal * 10 ^ (scale - n.scale) := by
  rw [toRat, mul_assoc, ← zpow_add₀ ten_ne_zero]
  congr 2
  ring

theorem scale_withScaleRound (n : BigDecimal) (scale : Int) :
    (n.withScaleRound scale).scale = scale := by
  unfold withScaleRound withScale
  split <;> rfl

/-- A number is rounded half away from zero. -/
theorem intVal_withScaleRound (n : BigDecimal) (scale : Int) :
    (n.withScaleRound scale).intVal = roundAway (n.toRat * 10 ^ scale) := by
  rw [toRat_mul_pow]
  by_cases fine : n.scale ≤ scale
  · obtain ⟨k, apart⟩ : ∃ k : Nat, scale - n.scale = k := ⟨(scale - n.scale).toNat, by omega⟩
    have whole : (n.intVal : ℚ) * 10 ^ (scale - n.scale) = ((n.intVal * 10 ^ k : Int) : ℚ) := by
      rw [apart, zpow_natCast]
      push_cast
      rfl
    rw [whole, roundAway_intCast, withScaleRound, if_pos fine, withScale, if_pos fine, apart,
      Int.toNat_natCast]
  · obtain ⟨k, apart⟩ : ∃ k : Nat, n.scale - scale = (k + 1 : Nat) :=
      ⟨(n.scale - scale).toNat - 1, by omega⟩
    have negative : scale - n.scale = -((k + 1 : Nat) : Int) := by omega
    have fraction : (10 : ℚ) ^ (scale - n.scale) = (((10 ^ (k + 1) : Nat) : ℚ))⁻¹ := by
      rw [negative, zpow_neg, zpow_natCast]
      push_cast
      rfl
    have even : 2 ∣ 10 ^ (k + 1) := Dvd.dvd.pow (by decide) (by omega)
    have magnitude : roundAway ((n.intVal.natAbs : ℚ) * 10 ^ (scale - n.scale)) =
        ((n.intVal.natAbs + 10 ^ (k + 1) / 2) / 10 ^ (k + 1) : Nat) := by
      rw [fraction, ← div_eq_mul_inv]
      exact roundAway_div _ (Nat.pow_pos (by decide)) even
    rw [withScaleRound, if_neg fine]
    simp only [apart, Int.toNat_natCast]
    rcases lt_trichotomy n.intVal 0 with below | zero | above
    · have signed : (n.intVal : ℚ) = -(n.intVal.natAbs : ℚ) := by
        have : n.intVal = -(n.intVal.natAbs : Int) := by omega
        exact_mod_cast this
      rw [signed, neg_mul, roundAway_neg, magnitude, Int.sign_eq_neg_one_of_neg below, neg_one_mul]
    · have none_ : roundAway 0 = 0 := roundAway_natCast 0
      simp [zero, none_]
    · have signed : (n.intVal : ℚ) = (n.intVal.natAbs : ℚ) := by
        rw [← Int.cast_natCast, Int.natCast_natAbs, abs_of_pos above]
      rw [signed, magnitude, Int.sign_eq_one_of_pos above, one_mul]

theorem toRat_withScaleRound (n : BigDecimal) (scale : Int) :
    (n.withScaleRound scale).toRat = roundPlaces n.toRat scale := by
  rw [toRat, scale_withScaleRound, intVal_withScaleRound, roundPlaces]

theorem abs_toRat (n : BigDecimal) : |n.toRat| = n.intVal.natAbs * 10 ^ (-n.scale) := by
  rw [toRat, abs_mul, abs_of_pos (ten_zpow_pos _), ← Int.cast_abs, Int.abs_eq_natAbs,
    Int.cast_natCast]

/-- The digits before the point are those of the number's whole part. -/
theorem intDigits_eq (n : BigDecimal) :
    n.intDigits = if ⌊|n.toRat|⌋₊ = 0 then 0 else (toString ⌊|n.toRat|⌋₊).length := by
  have whole : BigDecimal.withScale ⟨n.intVal.natAbs, n.scale⟩ 0 = ⟨(⌊|n.toRat|⌋₊ : Nat), 0⟩ := by
    rw [abs_toRat]
    unfold withScale
    by_cases integral : n.scale ≤ 0
    · obtain ⟨k, apart⟩ : ∃ k : Nat, n.scale = -(k : Int) := ⟨n.scale.natAbs, by omega⟩
      have value : (n.intVal.natAbs : ℚ) * 10 ^ (-n.scale) = ((n.intVal.natAbs * 10 ^ k : Nat) : ℚ) := by
        rw [apart, neg_neg, zpow_natCast]
        push_cast
        rfl
      rw [if_pos integral, value, Nat.floor_natCast, apart]
      simp
    · obtain ⟨k, apart⟩ : ∃ k : Nat, n.scale = (k : Int) := ⟨n.scale.natAbs, by omega⟩
      have value : (n.intVal.natAbs : ℚ) * 10 ^ (-n.scale) =
          (n.intVal.natAbs : ℚ) / ((10 ^ k : Nat) : ℚ) := by
        rw [apart, zpow_neg, zpow_natCast, div_eq_mul_inv]
        push_cast
        rfl
      rw [if_neg integral, value, Nat.floor_div_eq_div, apart]
      simp only [sub_zero, Int.toNat_natCast, mk.injEq, and_true]
      rw [Int.tdiv_eq_ediv_of_nonneg (by omega)]
      push_cast
      rfl
  have text : ∀ w : Nat, (⟨w, 0⟩ : BigDecimal).toText = toString w := by
    intro w
    have nonneg : ¬ ((w : Int) < 0) := by omega
    have digits : plainDigits (toString w) 0 = toString w := by
      rw [plainDigits, if_pos le_rfl]
      exact String.append_empty
    rw [toText_whole rfl]
    simp only [toPlainString, Int.natAbs_natCast, if_neg nonneg, digits]
  unfold intDigits
  rw [whole]
  simp only [text, Nat.cast_eq_zero]

/-- A number has at most `k` digits before the point exactly when it is below `10 ^ k`. -/
theorem intDigits_le_iff (n : BigDecimal) (k : Nat) : n.intDigits ≤ k ↔ |n.toRat| < 10 ^ k := by
  have below : |n.toRat| < 10 ^ k ↔ ⌊|n.toRat|⌋₊ < 10 ^ k := by
    rw [Nat.floor_lt (abs_nonneg _)]
    push_cast
    rfl
  rw [below, intDigits_eq]
  by_cases zero : ⌊|n.toRat|⌋₊ = 0
  · simp [zero]
  · rw [if_neg zero]
    rcases Nat.eq_zero_or_pos k with rfl | positive
    · have digits : 0 < (toString ⌊|n.toRat|⌋₊).length := by
        rw [← String.length_toList, Nat.toString_eq_ofList_toDigits, String.toList_ofList]
        exact List.length_pos_iff.mpr Nat.toDigits_ne_nil
      omega
    · exact length_numeral_le positive

end BigDecimal

namespace TableColumn

variable {dates : DateFormats} {env : Env} {user table : String} {col : TableColumn}
  {precision : Nat} {scale : Int}

/-- A number is rounded to the column's scale and stored if its digits before the point fit. -/
theorem storeValue_number (type : col.sqlType = .number precision scale) (bounded : 1 ≤ precision)
    (n : BigDecimal) :
    col.storeValue dates env user table (.number n) =
      if (precision : Int) - scale < (n.withScaleRound scale).normalized.intDigits then
        .error precisionExceeded
      else .ok (.number (n.withScaleRound scale).normalized) := by
  have constrained : precision ≠ 0 := by omega
  unfold storeValue
  rw [type]
  simp [storeNumber, Value.toNumber, constrained]

/-- The rounded number fits when it is below `10 ^ (precision - scale)`, where that many digits
make sense. -/
theorem fits_iff (n : BigDecimal) (within : scale ≤ precision) :
    ¬ (precision : Int) - scale < (n.withScaleRound scale).normalized.intDigits ↔
      |roundPlaces n.toRat scale| < 10 ^ ((precision : Int) - scale) := by
  obtain ⟨k, apart⟩ : ∃ k : Nat, (precision : Int) - scale = k :=
    ⟨((precision : Int) - scale).toNat, by omega⟩
  rw [apart, zpow_natCast, ← BigDecimal.toRat_withScaleRound, ← BigDecimal.toRat_normalized,
    ← BigDecimal.intDigits_le_iff]
  omega

/-- A NUMBER(p,s) column stores the number rounded half away from zero to `s` places if that is
below `10 ^ (p - s)`, and refuses it with ORA-01438 otherwise: exactly when `s` is at most `p`
or the rounded number is not below `10 ^ (p - s)`. -/
theorem number_column_iff (type : col.sqlType = .number precision scale)
    (bounded : 1 ≤ precision) (n : BigDecimal) :
    ((|roundPlaces n.toRat scale| < 10 ^ ((precision : Int) - scale) →
        ∃ m : BigDecimal, col.storeValue dates env user table (.number n) = .ok (.number m) ∧
          m.toRat = roundPlaces n.toRat scale) ∧
      (¬ |roundPlaces n.toRat scale| < 10 ^ ((precision : Int) - scale) →
        col.storeValue dates env user table (.number n) = .error precisionExceeded)) ↔
    scale ≤ precision ∨ ¬ |roundPlaces n.toRat scale| < 10 ^ ((precision : Int) - scale) := by
  rw [storeValue_number type bounded]
  by_cases within : scale ≤ precision
  · have fits := fits_iff n within
    refine iff_of_true ⟨fun below => ?_, fun above => ?_⟩ (Or.inl within)
    · refine ⟨_, if_neg (fits.mpr below), ?_⟩
      rw [BigDecimal.toRat_normalized, BigDecimal.toRat_withScaleRound]
    · exact if_pos (not_not.mp fun small => above (fits.mp small))
  · have refused : (precision : Int) - scale < (n.withScaleRound scale).normalized.intDigits := by
      omega
    simp only [if_pos refused, reduceCtorEq, false_and, exists_false, imp_false, implies_true,
      and_true, within, false_or]

end TableColumn

namespace NumberColumn

/-- A column `n NUMBER(precision, scale)`. -/
def column (precision : Nat) (scale : Int) : TableColumn :=
  ⟨"N", .number precision scale, none, false, false⟩

/-- The value of `-1234.565`. -/
def amount : BigDecimal := ⟨-1234565, 3⟩

end NumberColumn

open NumberColumn in
/-- A NUMBER(6,2) column stores `-1234.565` as `-1234.57`. -/
theorem number_column_rounds :
    ∃ m : BigDecimal, (column 6 2).storeValue Library.plain.dates (Literal.env "HR") "HR" "T"
      (.number amount) = .ok (.number m) ∧ m.toRat = roundPlaces amount.toRat 2 := by
  have fits : |roundPlaces amount.toRat 2| < 10 ^ (((6 : Nat) : Int) - 2) := by
    rw [← BigDecimal.toRat_withScaleRound, show amount.withScaleRound 2 = ⟨-123457, 2⟩ by decide]
    norm_num [BigDecimal.toRat, abs_lt]
  exact ((TableColumn.number_column_iff rfl (by decide) amount).mpr (Or.inl (by decide))).1 fits

open NumberColumn in
/-- A NUMBER(2,4) column takes numbers below `0.01`, and refuses `0.0012`. -/
theorem number_column_refuses :
    |roundPlaces (⟨12, 4⟩ : BigDecimal).toRat 4| < 10 ^ (((2 : Nat) : Int) - 4) ∧
    (column 2 4).storeValue Library.plain.dates (Literal.env "HR") "HR" "T" (.number ⟨12, 4⟩) =
      .error precisionExceeded := by
  constructor
  · rw [← BigDecimal.toRat_withScaleRound,
      show (⟨12, 4⟩ : BigDecimal).withScaleRound 4 = ⟨12, 4⟩ by decide]
    norm_num [BigDecimal.toRat, abs_lt]
  · have type : (column 2 4).sqlType = .number 2 4 := rfl
    rw [TableColumn.storeValue_number type (by decide)]
    rfl

end MockOracle
