import MockOracle.Core.BigDecimal

/-!
# Reading and formatting numbers

`fromStr` is the decimal crate's parser and `formatNumber` is the engine's default text of a
number. On plain decimal text the parser gives the number the text denotes, and the default
text of a number denotes it.
-/

namespace MockOracle

open Semantics

namespace BigDecimal

/-- A run of digits that may hold underscores after the first one. -/
def coefficient (text : List Char) : Option Nat :=
  if text.head? = some '_' then none
  else Decimal.readDigits (text.filter (· ≠ '_'))

/-- An integer with an optional sign, as big integers are parsed: a sign is not followed by
another plus sign. -/
def bigInt : List Char → Option Int
  | '-' :: '+' :: _ => none
  | '-' :: rest => (coefficient rest).map fun n : Nat => -(n : Int)
  | '+' :: '+' :: _ => none
  | '+' :: rest => (coefficient rest).map fun n : Nat => (n : Int)
  | rest => (coefficient rest).map fun n : Nat => (n : Int)

/-- The bounds of a machine integer of `bits` bits. -/
def InBits (bits : Nat) (n : Int) : Prop :=
  -((2 ^ (bits - 1) : Nat) : Int) ≤ n ∧ n < ((2 ^ (bits - 1) : Nat) : Int)

instance (bits : Nat) (n : Int) : Decidable (InBits bits n) :=
  inferInstanceAs (Decidable (_ ∧ _))

/-- Parse a number: digits with an optional sign, point and exponent. The scale has to fit
64 bits. -/
def fromStr (text : String) : Option BigDecimal := do
  let (base, exponentText) := Decimal.cut Decimal.isExponentMark text.toList
  let exponent ← exponentText.elim (some 0) Decimal.readInteger
  if base = [] ∨ ¬ InBits 128 exponent then none
  let (lead, trail) := Decimal.cut Decimal.isPoint base
  let trail := trail.getD []
  let scale := ((trail.filter (· ≠ '_')).length : Int) - exponent
  if ¬ InBits 64 scale then none
  let intVal ← bigInt (lead ++ trail)
  some ⟨intVal, scale⟩

/-- The representation with the given scale: zeros are appended or digits are cut off. -/
def withScale (n : BigDecimal) (scale : Int) : BigDecimal :=
  if n.scale ≤ scale then ⟨n.intVal * 10 ^ (scale - n.scale).toNat, scale⟩
  else ⟨n.intVal.tdiv (10 ^ (n.scale - scale).toNat), scale⟩

/-- Plain notation with a sign, never with an exponent. -/
def toPlainString (n : BigDecimal) : String :=
  let body := plainDigits (toString n.intVal.natAbs) n.scale
  if n.intVal < 0 then "-" ++ body else body

end BigDecimal

namespace Value

/-- Parse a decimal literal such as `42`, `-1.5` or `1e3`. -/
def parseNumber (text : String) : Option Value := (BigDecimal.fromStr text).map number

end Value

/-- Without decimal places `Display` writes plain notation. -/
theorem BigDecimal.toText_whole {n : BigDecimal} (whole : n.scale = 0) :
    n.toText = n.toPlainString := by
  have near : ¬ 5 < n.scale - ((toString n.intVal.natAbs).length : Int) := by omega
  have short : ¬ 15 < -n.scale := by omega
  simp only [toText, toPlainString, if_neg near, if_neg short]

/-- Drop the zero before a leading decimal point. -/
def stripLeadingZero : List Char → List Char
  | '0' :: '.' :: rest => '.' :: rest
  | '-' :: '0' :: '.' :: rest => '-' :: '.' :: rest
  | text => text

/-- The default text of a number: no exponent, no trailing fractional zeros, and no zero
before a leading decimal point. -/
def formatNumber (n : BigDecimal) : String :=
  let n := n.normalized
  let text := if n.scale < 0 then (n.withScale 0).toText else n.toPlainString
  String.ofList (stripLeadingZero text.toList)

namespace BigDecimal

theorem coefficient_digits {digits : List Char} (some_ : digits ≠ [])
    (allDigits : Decimal.AllDigits digits) :
    coefficient digits = some (Nat.ofDigitChars 10 digits 0) := by
  have notUnderscore : ∀ c ∈ digits, c ≠ '_' := by
    rintro c member rfl
    exact absurd (allDigits _ member) (by decide)
  have same : digits.filter (· ≠ '_') = digits :=
    List.filter_eq_self.mpr fun c member => by simpa using notUnderscore c member
  have first : digits.head? ≠ some '_' := fun head =>
    notUnderscore _ (List.mem_of_mem_head? head) rfl
  rw [coefficient, if_neg first, same, Decimal.readDigits, if_pos ⟨some_, allDigits⟩]

/-- A sign and digits are parsed as the integer they spell. -/
theorem bigInt_signed (negative : Bool) {digits : List Char} (some_ : digits ≠ [])
    (allDigits : Decimal.AllDigits digits) :
    bigInt (Decimal.signText negative ++ digits) =
      some ((if negative then -1 else 1) * (Nat.ofDigitChars 10 digits 0 : Int)) := by
  have parsed := coefficient_digits some_ allDigits
  obtain ⟨c, rest, rfl⟩ := List.exists_cons_of_ne_nil some_
  have unsigned : c ≠ '-' ∧ c ≠ '+' := by
    have first := allDigits c List.mem_cons_self
    constructor <;> (rintro rfl; exact absurd first (by decide))
  cases negative with
  | false =>
      simp only [Decimal.signText, Bool.false_eq_true, if_false, List.nil_append]
      rw [bigInt]
      · simp [parsed]
      all_goals simp_all
  | true =>
      simp only [Decimal.signText, if_true, List.singleton_append]
      rw [bigInt]
      · simp [parsed]
      all_goals simp_all

/-- Parsing a decimal text gives the number that its parts spell. -/
theorem fromStr_write {text : String} {negative : Bool} {whole : List Char}
    {fraction exponent : Option (List Char)} {e : Int}
    (form : text.toList = Decimal.write negative whole fraction exponent)
    (wholeDigits : Decimal.AllDigits whole) (fractionDigits : Decimal.AllDigits (fraction.getD []))
    (some_ : whole ++ fraction.getD [] ≠ []) (marks : Decimal.Marks exponent e)
    (exponentFits : InBits 128 e) (scaleFits : InBits 64 ((fraction.getD []).length - e)) :
    fromStr text = some ⟨(if negative then -1 else 1) *
      (Nat.ofDigitChars 10 (whole ++ fraction.getD []) 0 : Int), (fraction.getD []).length - e⟩ := by
  have digits := wholeDigits.append fractionDigits
  obtain ⟨mantissa, exponent_⟩ :=
    Decimal.cut_exponent (Decimal.unmarked_mantissa negative wholeDigits fractionDigits) marks
  have point : Decimal.cut Decimal.isPoint
      (Decimal.signText negative ++ whole ++ fraction.elim [] ('.' :: ·)) =
      (Decimal.signText negative ++ whole, fraction) :=
    Decimal.cut_point (Decimal.pointless_whole negative wholeDigits)
  have nonempty : Decimal.signText negative ++ whole ++ fraction.elim [] ('.' :: ·) ≠ [] := by
    intro empty
    simp only [List.append_eq_nil_iff] at empty
    cases fraction with
    | none => exact some_ (by simp [empty.1.2])
    | some f => simp at empty
  have noUnderscore : (fraction.getD []).filter (· ≠ '_') = fraction.getD [] := by
    refine List.filter_eq_self.mpr fun c member => ?_
    have digit := fractionDigits c member
    simp only [ne_eq, decide_not, Bool.not_eq_eq_eq_not, Bool.not_true, decide_eq_false_iff_not]
    rintro rfl
    exact absurd digit (by decide)
  have whole_ := bigInt_signed negative some_ digits
  rw [← List.append_assoc] at whole_
  rw [fromStr, form, Decimal.write]
  simp only [mantissa, exponent_, nonempty, exponentFits, point, noUnderscore, scaleFits, whole_,
    not_true_eq_false, or_self, if_false, Option.bind_eq_bind, Option.bind_some]

/-- What is parsed after a minus sign is not positive. -/
theorem bigInt_nonpos {digits : List Char} {n : Int} (parsed : bigInt ('-' :: digits) = some n) :
    n ≤ 0 := by
  unfold bigInt at parsed
  split at parsed
  · cases parsed
  · obtain ⟨k, -, rfl⟩ := Option.map_eq_some_iff.mp parsed
    omega
  all_goals simp_all

/-- What is parsed without a minus sign is not negative. -/
theorem bigInt_nonneg {text : List Char} {n : Int} (unsigned : text.head? ≠ some '-')
    (parsed : bigInt text = some n) : 0 ≤ n := by
  unfold bigInt at parsed
  split at parsed
  · simp at unsigned
  · simp at unsigned
  · cases parsed
  all_goals
    obtain ⟨k, -, rfl⟩ := Option.map_eq_some_iff.mp parsed
    omega

/-- The first character of a parsed text decides the sign, unless it is a point. -/
theorem sign_fromStr {text : String} {c : Char} {rest : List Char} {n : BigDecimal}
    (starts : text.toList = c :: rest) (point : Decimal.isPoint c = false)
    (mark : Decimal.isExponentMark c = false) (parsed : fromStr text = some n) :
    (c = '-' → n.intVal ≤ 0) ∧ (c ≠ '-' → 0 ≤ n.intVal) := by
  obtain ⟨more, coefficient⟩ : ∃ more, bigInt (c :: more) = some n.intVal := by
    rw [fromStr, starts] at parsed
    simp only [Decimal.cut, mark, point, Bool.false_eq_true, if_false, Option.bind_eq_bind,
      Option.bind_eq_some_iff] at parsed
    obtain ⟨e, -, parsed⟩ := parsed
    split at parsed
    · cases parsed
    · split at parsed
      · cases parsed
      · obtain ⟨intVal, coefficient, result⟩ := Option.bind_eq_some_iff.mp parsed
        cases result
        exact ⟨_, coefficient⟩
  constructor
  · rintro rfl
    exact bigInt_nonpos coefficient
  · intro other
    exact bigInt_nonneg (by simpa using other) coefficient

theorem toRat_withScale (n : BigDecimal) {scale : Int} (le : n.scale ≤ scale) :
    (n.withScale scale).toRat = n.toRat := by
  obtain ⟨k, rfl⟩ : ∃ k : Nat, scale = n.scale + k := ⟨(scale - n.scale).toNat, by omega⟩
  have places : (n.scale + k - n.scale).toNat = k := by omega
  rw [withScale, if_pos le, places]
  simp only [toRat]
  push_cast
  rw [mul_assoc, ← zpow_natCast, ← zpow_add₀ ten_ne_zero]
  congr 2
  ring

end BigDecimal

theorem value_zero_cons (negative : Bool) (digits : List Char) (e : Int) :
    (Decimal.Parts.mk negative ('0' :: digits) e).value = (Decimal.Parts.mk negative digits e).value := by
  simp [Decimal.Parts.value, Nat.ofDigitChars_cons]

/-- Digits before a point that begin with a zero and the point are that zero. -/
theorem whole_eq_zero {whole rest : List Char} {fraction : Option (List Char)}
    (digits : Decimal.AllDigits whole) (nonempty : whole ≠ [])
    (starts : whole ++ fraction.elim [] ('.' :: ·) = '0' :: '.' :: rest) :
    whole = ['0'] ∧ fraction = some rest := by
  obtain ⟨c, more, rfl⟩ := List.exists_cons_of_ne_nil nonempty
  simp only [List.cons_append, List.cons.injEq] at starts
  obtain ⟨rfl, starts⟩ := starts
  cases more with
  | nil =>
      cases fraction with
      | none => simp at starts
      | some f => simpa using starts
  | cons d more =>
      simp only [List.cons_append, List.cons.injEq] at starts
      exact absurd (digits d (by simp)) (by rw [starts.1]; decide)

/-- Without the zero before a leading point a text denotes the same number. -/
theorem denote_stripLeadingZero {negative : Bool} {whole : List Char}
    {fraction : Option (List Char)} (nonempty : whole ≠ []) (places : fraction ≠ some [])
    (digits : Decimal.AllDigits (whole ++ fraction.getD [])) :
    Decimal.denote (stripLeadingZero (Decimal.write negative whole fraction none)) =
      Decimal.denote (Decimal.write negative whole fraction none) := by
  have stripped : ∀ negative rest, whole = ['0'] → fraction = some rest →
      Decimal.denote (Decimal.write negative [] (some rest) none) =
        Decimal.denote (Decimal.write negative whole fraction none) := by
    rintro negative rest rfl rfl
    have fractionDigits := digits.of_append.2
    rw [Decimal.denote, Decimal.denote,
      Decimal.read_write negative (by simp [Decimal.AllDigits]) fractionDigits
        (by simpa using places) Decimal.Marks.none_,
      Decimal.read_write negative digits.of_append.1 fractionDigits (by simp)
        Decimal.Marks.none_]
    exact congrArg some (value_zero_cons _ _ _).symm
  have form : Decimal.write negative whole fraction none =
      Decimal.signText negative ++ (whole ++ fraction.elim [] ('.' :: ·)) := by
    simp [Decimal.write]
  have wholeDigits := digits.of_append.1
  unfold stripLeadingZero
  split
  · next rest equal =>
      cases negative with
      | true => simp [form, Decimal.signText] at equal
      | false =>
          obtain ⟨zero, fraction_⟩ := whole_eq_zero wholeDigits nonempty (by
            simpa [form, Decimal.signText] using equal)
          rw [← stripped false rest zero fraction_]
          simp [Decimal.write, Decimal.signText]
  · next rest equal =>
      cases negative with
      | true =>
          obtain ⟨zero, fraction_⟩ := whole_eq_zero wholeDigits nonempty (by
            simpa [form, Decimal.signText] using equal)
          rw [← stripped true rest zero fraction_]
          simp [Decimal.write, Decimal.signText]
      | false =>
          obtain ⟨c, more, rfl⟩ := List.exists_cons_of_ne_nil nonempty
          simp only [form, Decimal.signText, Bool.false_eq_true, if_false, List.nil_append,
            List.cons_append, List.cons.injEq] at equal
          exact absurd (wholeDigits c List.mem_cons_self) (by rw [equal.1]; decide)
  · rfl

/-- Plain notation denotes the number, also without the zero before a leading point. -/
theorem denote_stripLeadingZero_toPlainString (n : BigDecimal) :
    Decimal.denote (stripLeadingZero n.toPlainString.toList) = some n.toRat := by
  have digits : Decimal.AllDigits (toString n.intVal.natAbs).toList := by
    simpa using Decimal.allDigits_toDigits n.intVal.natAbs
  obtain ⟨whole, fraction, form, nonempty, places, allDigits, value⟩ :=
    BigDecimal.plainDigits_form n.scale digits (by simp)
  have written : n.toPlainString.toList =
      Decimal.write (decide (n.intVal < 0)) whole fraction none := by
    by_cases negative : n.intVal < 0 <;>
      simp [BigDecimal.toPlainString, Decimal.write, Decimal.signText, negative, ← form]
  rw [written, denote_stripLeadingZero nonempty places allDigits, Decimal.denote,
    Decimal.read_write _ allDigits.of_append.1 allDigits.of_append.2 (by simp [nonempty])
      Decimal.Marks.none_, Option.map_some, value, BigDecimal.value_natAbs n (by simp)]

/-- The default text of a number denotes it. -/
theorem denote_formatNumber (n : BigDecimal) :
    Decimal.denote (formatNumber n).toList = some n.toRat := by
  rw [← BigDecimal.toRat_normalized]
  simp only [formatNumber, String.toList_ofList]
  split
  · next negative =>
      have scale : (n.normalized.withScale 0).scale = 0 := by
        rw [BigDecimal.withScale, if_pos negative.le]
      rw [BigDecimal.toText_whole scale, denote_stripLeadingZero_toPlainString,
        BigDecimal.toRat_withScale _ negative.le]
  · exact denote_stripLeadingZero_toPlainString _

end MockOracle
