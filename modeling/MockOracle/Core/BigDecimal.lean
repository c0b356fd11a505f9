import MockOracle.Core.Value
import MockOracle.Semantics.Decimal

/-!
# Decimals as numbers

A `BigDecimal` stands for a rational number, and its text denotes that number. Normalizing
keeps the number and makes its representation unique, so the text of a normalized decimal
identifies the number.
-/

namespace MockOracle.BigDecimal

open Nat (ofDigitChars toDigits)
open Semantics

/-- The number a decimal stands for. -/
def toRat (n : BigDecimal) : ℚ := n.intVal * 10 ^ (-n.scale)

/-- Ten is not zero. -/
theorem ten_ne_zero : (10 : ℚ) ≠ 0 := by norm_num

/-- A power of ten is positive. -/
theorem ten_zpow_pos (e : Int) : (0 : ℚ) < 10 ^ e := zpow_pos (by norm_num) e

/-! ## Normalized representations -/

/-- Zero has one normalized representation; any other has no trailing zero. -/
def Normal (n : BigDecimal) : Prop := n = ⟨0, 0⟩ ∨ ¬ (10 : Int) ∣ n.intVal

/-- Stripping zeros keeps the value. -/
theorem stripZeros_value (fuel digits : Nat) (scale : Int) :
    ((stripZeros fuel digits scale).1 : ℚ) * 10 ^ (-(stripZeros fuel digits scale).2) =
      digits * 10 ^ (-scale) := by
  induction fuel generalizing digits scale with
  | zero => rfl
  | succ fuel ih =>
      unfold stripZeros
      split
      · next divides =>
          have whole : digits = 10 * (digits / 10) := by omega
          rw [ih, show -(scale - 1) = -scale + 1 by ring, zpow_add_one₀ ten_ne_zero]
          have cast : (digits : ℚ) = 10 * ((digits / 10 : Nat) : ℚ) := by exact_mod_cast whole
          rw [cast]
          ring
      · rfl

/-- Stripping all zeros leaves a last digit other than zero. -/
theorem stripZeros_normal {fuel digits : Nat} (positive : 0 < digits) (enough : digits ≤ fuel)
    (scale : Int) :
    (stripZeros fuel digits scale).1 % 10 ≠ 0 := by
  induction fuel generalizing digits scale with
  | zero => omega
  | succ fuel ih =>
      unfold stripZeros
      split
      · exact ih (by omega) (by omega) _
      · assumption

/-- A normalized number is normal. -/
theorem normal_normalized (n : BigDecimal) : n.normalized.Normal := by
  unfold normalized
  split
  · exact Or.inl rfl
  · next nonzero =>
      refine Or.inr fun divides => ?_
      have stripped := stripZeros_normal (Int.natAbs_pos.mpr nonzero) (Nat.le_refl _) n.scale
      have divides' := Int.natAbs_dvd_natAbs.mpr divides
      rw [Int.natAbs_mul, Int.natAbs_sign_of_ne_zero nonzero, Nat.one_mul, Int.natAbs_natCast]
        at divides'
      exact stripped (Nat.mod_eq_zero_of_dvd divides')

/-- Normalizing keeps the value. -/
@[simp] theorem toRat_normalized (n : BigDecimal) : n.normalized.toRat = n.toRat := by
  unfold normalized
  split
  · next zero => simp [toRat, zero]
  · have value := stripZeros_value n.intVal.natAbs n.intVal.natAbs n.scale
    have signed : (n.intVal : ℚ) = n.intVal.sign * (n.intVal.natAbs : ℚ) := by
      rw [← Int.cast_natCast, ← Int.cast_mul, Int.sign_mul_natAbs]
    simp only [toRat]
    push_cast
    rw [mul_assoc, value, ← mul_assoc, ← signed]

/-- Equal numbers have equal normalized representations. -/
theorem Normal.eq_of_toRat {a b : BigDecimal} (left : a.Normal) (right : b.Normal)
    (same : a.toRat = b.toRat) : a = b := by
  have zero_iff : ∀ {n : BigDecimal}, n.intVal = 0 ↔ n.toRat = 0 := by
    intro n
    simp only [toRat, mul_eq_zero, Int.cast_eq_zero, (ten_zpow_pos _).ne', or_false]
  have scaled : ∀ {a b : BigDecimal}, a.toRat = b.toRat → ¬ (10 : Int) ∣ b.intVal →
      ¬ a.scale < b.scale := by
    intro a b same last less
    -- The coefficient of the finer representation would be a multiple of ten.
    obtain ⟨k, shift⟩ : ∃ k : Nat, b.scale = a.scale + (k + 1 : Nat) :=
      ⟨(b.scale - a.scale - 1).toNat, by omega⟩
    have coefficient : (b.intVal : ℚ) = a.intVal * 10 ^ (k + 1) := by
      simp only [toRat] at same
      have : (10 : ℚ) ^ (-a.scale) = 10 ^ (-b.scale) * 10 ^ (k + 1) := by
        rw [← zpow_natCast, ← zpow_add₀ ten_ne_zero, shift]
        congr 1
        ring
      rw [this, mul_comm ((10 : ℚ) ^ _), ← mul_assoc] at same
      exact (mul_right_cancel₀ (ten_zpow_pos _).ne' same).symm
    have whole : b.intVal = a.intVal * 10 ^ (k + 1) := by exact_mod_cast coefficient
    exact last ⟨a.intVal * 10 ^ k, by rw [whole, pow_succ]; ring⟩
  rcases left with rfl | left
  · rcases right with rfl | right
    · rfl
    · exact absurd (zero_iff.mpr (same.symm.trans (zero_iff.mp rfl))) fun zero => right (by simp [zero])
  · rcases right with rfl | right
    · exact absurd (zero_iff.mpr (same.trans (zero_iff.mp rfl))) fun zero => left (by simp [zero])
    · have scales : a.scale = b.scale :=
        le_antisymm (not_lt.mp (scaled same.symm left)) (not_lt.mp (scaled same right))
      have coefficients : (a.intVal : ℚ) = b.intVal := by
        simp only [toRat, scales] at same
        exact mul_right_cancel₀ (ten_zpow_pos _).ne' same
      cases a
      cases b
      simp only [mk.injEq]
      exact ⟨by exact_mod_cast coefficients, scales⟩

/-- Normalized numbers are equal if and only if their values are. -/
theorem normalized_eq_iff {a b : BigDecimal} :
    a.normalized = b.normalized ↔ a.toRat = b.toRat := by
  constructor
  · intro same
    rw [← toRat_normalized a, same, toRat_normalized]
  · intro same
    exact (normal_normalized a).eq_of_toRat (normal_normalized b) (by simpa using same)

/-! ## The text of a decimal -/

/-- Zeros pushed to the empty text. -/
theorem toList_pushn (k : Nat) : ("".pushn '0' k).toList = List.replicate k '0' := by
  induction k with
  | zero => rfl
  | succ k ih =>
      rw [List.replicate_succ', ← ih, ← String.toList_push]
      rfl

/-- The value of a sign and the numeral of a coefficient. -/
theorem value_natAbs (n : BigDecimal) {digits : List Char}
    (spells : ofDigitChars 10 digits 0 = n.intVal.natAbs) :
    (Decimal.Parts.mk (decide (n.intVal < 0)) digits (-n.scale)).value = n.toRat := by
  have signed : (if n.intVal < 0 then -1 else 1 : ℚ) * (n.intVal.natAbs : ℚ) = n.intVal := by
    split
    · next negative =>
        have : ((n.intVal.natAbs : Int) : ℚ) = ((-n.intVal : Int) : ℚ) := by
          rw [Int.ofNat_natAbs_of_nonpos negative.le]
        rw [Int.cast_natCast] at this
        rw [this]
        push_cast
        ring
    · next positive =>
        have : ((n.intVal.natAbs : Int) : ℚ) = (n.intVal : ℚ) := by
          rw [Int.natAbs_of_nonneg (not_lt.mp positive)]
        rw [Int.cast_natCast] at this
        rw [this, one_mul]
  simp only [Decimal.Parts.value, spells, decide_eq_true_eq, signed]
  rfl

section Text

variable (negative : Bool) (scale : Int) {text : String}

/-- Plain notation has at least one digit before the point and keeps the value. -/
theorem plainDigits_form (digits : Decimal.AllDigits text.toList) (some_ : text.toList ≠ []) :
    ∃ (whole : List Char) (fraction : Option (List Char)),
      (plainDigits text scale).toList = whole ++ fraction.elim [] ('.' :: ·) ∧
      whole ≠ [] ∧ fraction ≠ some [] ∧ Decimal.AllDigits (whole ++ fraction.getD []) ∧
      ∀ negative, (Decimal.Parts.mk negative (whole ++ fraction.getD [])
          (0 - (fraction.getD []).length)).value =
        (Decimal.Parts.mk negative text.toList (-scale)).value := by
  by_cases noPoint : scale ≤ 0
  · refine ⟨text.toList ++ List.replicate scale.natAbs '0', none, ?_, ?_, by simp, ?_,
      fun negative => ?_⟩
    · simp [plainDigits, noPoint, toList_pushn]
    · simp [some_]
    · simpa using digits.append (Decimal.allDigits_replicate_zero scale.natAbs)
    · have places : ((scale.natAbs : Nat) : Int) = -scale := Int.ofNat_natAbs_of_nonpos noPoint
      simp only [Option.getD_none, List.append_nil, List.length_nil, Int.natCast_zero, sub_zero]
      rw [Decimal.value_append_zeros, places, zero_add]
  · -- Zeros in front of the digits leave a digit before the point and keep the value.
    obtain ⟨places, rfl⟩ : ∃ places : Nat, scale = places := ⟨scale.toNat, by omega⟩
    let padded := List.replicate (places + 1 - text.length) '0' ++ text.toList
    have padding : ("".pushn '0' (places + 1 - text.length) ++ text).toList = padded := by
      simp [padded, toList_pushn]
    have length : ("".pushn '0' (places + 1 - text.length) ++ text).length = padded.length := by
      rw [← String.length_toList, padding]
    have long : places + 1 ≤ padded.length := by
      simp only [padded, List.length_append, List.length_replicate, String.length_toList]
      omega
    refine ⟨padded.take (padded.length - places), some (padded.drop (padded.length - places)),
      ?_, ?_, ?_, ?_, fun negative => ?_⟩
    · simp only [plainDigits, if_neg noPoint, Int.toNat_natCast, padding, length]
      simp
    · intro empty
      have := congrArg List.length empty
      simp only [List.length_take, List.length_nil] at this
      omega
    · intro empty
      have := congrArg List.length (Option.some.inj empty)
      simp only [List.length_drop, List.length_nil] at this
      omega
    · rw [Option.getD_some, List.take_append_drop]
      exact (Decimal.allDigits_replicate_zero _).append digits
    · have rest : padded.length - (padded.length - places) = places := by omega
      simp only [Option.getD_some, List.take_append_drop, List.length_drop, rest, zero_sub]
      simp only [Decimal.Parts.value, padded, Decimal.ofDigitChars_zeros_append]

/-- Plain digits are read as the number they are written from. -/
theorem read_plainDigits (digits : Decimal.AllDigits text.toList) (some_ : text.toList ≠ []) :
    ∃ parts, Decimal.read (Decimal.signText negative ++ (plainDigits text scale).toList) = some parts ∧
      parts.value = (Decimal.Parts.mk negative text.toList (-scale)).value := by
  obtain ⟨whole, fraction, form, nonempty, -, allDigits, value⟩ :=
    plainDigits_form scale digits some_
  have reads := Decimal.read_write negative allDigits.of_append.1 allDigits.of_append.2
    (by simp [nonempty]) Decimal.Marks.none_
  refine ⟨_, ?_, value negative⟩
  rw [← reads, form]
  simp [Decimal.write]

/-- So are digits with an exponent. -/
theorem read_exponentialDigits (digits : Decimal.AllDigits text.toList)
    (some_ : text.toList ≠ []) :
    ∃ parts,
      Decimal.read (Decimal.signText negative ++ (exponentialDigits text scale).toList) = some parts ∧
      parts.value = (Decimal.Parts.mk negative text.toList (-scale)).value := by
  obtain ⟨first, fraction, equal⟩ := List.exists_cons_of_ne_nil some_
  have length : (text.length : Int) = fraction.length + 1 := by
    rw [← String.length_toList, equal]
    simp
  rw [equal] at digits
  obtain ⟨exponent, places⟩ : ∃ exponent : Int, (text.length : Int) - scale - 1 = exponent :=
    ⟨_, rfl⟩
  let mark : Option (List Char) :=
    if exponent = 0 then none
    else some ('E' :: (if 0 < exponent then '+' else '-') :: toDigits 10 exponent.natAbs)
  let tail : Option (List Char) := if fraction = [] then none else some fraction
  have tail_ : tail.getD [] = fraction := by
    by_cases whole : fraction = [] <;> simp [tail, whole]
  have marks : Decimal.Marks mark exponent := by
    by_cases zero : exponent = 0
    · exact Or.inl ⟨if_pos zero, zero⟩
    · exact Or.inr ⟨'E', _, if_neg zero, rfl, Decimal.readInteger_signed _⟩
  have form : Decimal.signText negative ++ (exponentialDigits text scale).toList =
      Decimal.write negative [first] tail mark := by
    simp only [exponentialDigits, equal, places, Decimal.write, Decimal.signText, mark, tail]
    by_cases whole : fraction = [] <;> by_cases zero : exponent = 0 <;>
      by_cases positive : 0 < exponent <;> simp [whole, zero, positive]
  have reads := Decimal.read_write negative
    (fun c member => digits c (List.mem_cons.mpr (Or.inl (List.mem_singleton.mp member))))
    (by rw [tail_]; exact fun c member => digits c (List.mem_cons_of_mem _ member))
    (by simp) marks
  refine ⟨_, (congrArg Decimal.read form).trans reads, ?_⟩
  have shift : exponent - fraction.length = -scale := by omega
  rw [tail_, equal, shift]
  rfl

/-- Without a point the digits are the whole mantissa, and the exponent is the scale's. -/
theorem read_dotlessDigits (digits : Decimal.AllDigits text.toList) (some_ : text.toList ≠ []) :
    ∃ parts,
      Decimal.read (Decimal.signText negative ++ (dotlessDigits text scale).toList) = some parts ∧
      parts.value = (Decimal.Parts.mk negative text.toList (-scale)).value := by
  let mark := 'e' :: (if 0 < -scale then '+' else '-') :: toDigits 10 (-scale).natAbs
  have form : Decimal.signText negative ++ (dotlessDigits text scale).toList =
      Decimal.write negative text.toList none (some mark) := by
    by_cases zeros : scale < 0 <;> simp [dotlessDigits, Decimal.write, mark, zeros]
  have marks : Decimal.Marks (some mark) (-scale) :=
    Or.inr ⟨'e', _, rfl, rfl, Decimal.readInteger_signed _⟩
  refine ⟨_, (congrArg Decimal.read form).trans
    (Decimal.read_write negative digits (by simp [Decimal.AllDigits]) (by simp [some_]) marks), ?_⟩
  simp

end Text

/-- The text of a decimal denotes the number it stands for. -/
theorem denote_toText (n : BigDecimal) : Decimal.denote n.toText.toList = some n.toRat := by
  have digits : Decimal.AllDigits (toString n.intVal.natAbs).toList := by
    simpa using Decimal.allDigits_toDigits n.intVal.natAbs
  have some_ : (toString n.intVal.natAbs).toList ≠ [] := by
    simp
  have signed : ∀ body : String, (if n.intVal < 0 then "-" ++ body else body).toList =
      Decimal.signText (decide (n.intVal < 0)) ++ body.toList := by
    intro body
    by_cases negative : n.intVal < 0 <;> simp [Decimal.signText, negative]
  have reads : ∃ parts, Decimal.read n.toText.toList = some parts ∧
      parts.value = (Decimal.Parts.mk (decide (n.intVal < 0))
        (toString n.intVal.natAbs).toList (-n.scale)).value := by
    simp only [toText, signed]
    split
    · exact read_exponentialDigits _ n.scale digits some_
    · split
      · exact read_dotlessDigits _ n.scale digits some_
      · exact read_plainDigits _ n.scale digits some_
  obtain ⟨parts, reads, value⟩ := reads
  rw [Decimal.denote, reads, Option.map_some, value, value_natAbs n (by simp)]

/-- Normalized decimals have the same text exactly when they stand for one number. -/
theorem normalized_toText_eq_iff {a b : BigDecimal} :
    a.normalized.toText = b.normalized.toText ↔ a.toRat = b.toRat := by
  constructor
  · intro same
    have left := denote_toText a.normalized
    rw [same, denote_toText b.normalized, toRat_normalized, toRat_normalized] at left
    exact (Option.some.inj left).symm
  · intro same
    rw [normalized_eq_iff.mpr same]

end MockOracle.BigDecimal
