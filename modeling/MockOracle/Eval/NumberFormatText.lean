import MockOracle.Eval.NumberColumn
import MockOracle.Eval.NumberFormatDigits
import MockOracle.Eval.NumberFormatTemplate

/-!
# Numbers in a format

What `formatNumberWith` shows of a number in a format of digit places, group marks and a point is the
number rounded to the places after the point, or `#` where its integer part has more digits than the
format. The exception is a zero for which the format shows no digit at all.
-/

namespace MockOracle.NumberFormat

open Semantics

variable {t : Template} {unicode : Unicode} {fmt : String}

/-! ## The number that is shown -/

/-- The number a text denotes, with a plus or a minus sign in front or none. -/
def numeral : List Char → Option ℚ
  | '+' :: rest => if rest.head? = some '-' then none else Decimal.denote rest
  | text => Decimal.denote text

/-- The number of digits before the point; none for a number below one. -/
def integerDigits (q : ℚ) : Nat := (Nat.digits 10 ⌊|q|⌋₊).length

theorem not_isWhitespace_of_isDigit {c : Char} (digit : c.isDigit = true) : isWhitespace c = false := by
  have range := Decimal.digit_range digit
  rw [Bool.eq_false_iff]
  intro blank
  simp only [isWhitespace, Bool.or_eq_true, Bool.and_eq_true, decide_eq_true_eq] at blank
  omega

/-- Dropping the blanks in front changes only the blanks. -/
theorem bare_drop_blanks {text : List Char} (digits : Decimal.AllDigits (bare text)) :
    bare (text.drop (text.takeWhile isWhitespace).length) = bare text := by
  have blanks : bare (text.takeWhile isWhitespace) = [] := by
    refine List.eq_nil_iff_forall_not_mem.mpr fun c member => ?_
    have blank := List.mem_takeWhile_imp (List.mem_of_mem_filter member)
    have digit : c.isDigit = true := digits c (((List.takeWhile_prefix _).sublist.filter _).subset member)
    rw [not_isWhitespace_of_isDigit digit] at blank
    cases blank
  have parts : text.drop (text.takeWhile isWhitespace).length = text.dropWhile isWhitespace := by
    conv_lhs =>
      arg 2
      rw [← List.takeWhile_append_dropWhile (p := isWhitespace) (l := text)]
    rw [List.drop_left]
  rw [parts]
  conv_rhs => rw [← List.takeWhile_append_dropWhile (p := isWhitespace) (l := text), bare_append, blanks]
  rfl

/-- The sign without blanks. -/
theorem bare_signBefore (sign negative fm : Bool) :
    bare (signBefore sign false negative fm) =
      if sign = true ∧ negative = false then ['+'] else Decimal.signText negative := by
  cases sign <;> cases negative <;> cases fm <;> rfl

section Shown

variable {m : Nat} {intDigits fractionPart : List Char}

theorem places_none (none_ : t.fraction = none) : t.places = 0 := by
  rw [Template.places, Template.fractionFormat, none_]
  rfl

theorem places_some {f : Char × List Char} (some_ : t.fraction = some f) : t.places = f.2.length := by
  rw [Template.places, Template.fractionFormat, some_]
  rfl

/-- The format shows no digit of a zero: its integer part has no zero, and what follows its point
keeps none. -/
def Template.HidesZero (t : Template) : Prop :=
  '0' ∉ t.whole ∧ ∃ f ∈ t.fraction, f.2 = [] ∨ t.fm = true ∧ '0' ∉ f.2

/-- A format without a fraction has an integer part. -/
theorem Template.whole_ne_nil (t : Template) (none_ : t.fractionFormat.isSome = false) :
    t.whole ≠ [] := by
  obtain ⟨c, member, -⟩ := t.some_
  have fraction : t.fraction = none := by
    cases fraction : t.fraction with
    | none => rfl
    | some f => simp [Template.fractionFormat, fraction] at none_
  rw [fraction] at member
  exact List.ne_nil_of_mem (by simpa using member)

/-- What is shown, without blanks, dollar signs and group marks. -/
theorem bare_shown (digits : Digits m t.places intDigits fractionPart)
    (fits : intDigits.length ≤ t.slots) (dollar negative : Bool) :
    ∃ (whole : List Char) (fraction : Option (List Char)) (zeros trailing : Nat),
      bare (shown t dollar negative intDigits fractionPart) =
        (if t.sign = true ∧ negative = false then ['+'] else Decimal.signText negative) ++
          (whole ++ fraction.elim [] ('.' :: ·)) ∧
      whole = List.replicate zeros '0' ++ intDigits ∧
      fractionPart = fraction.getD [] ++ List.replicate trailing '0' ∧
      (m = 0 → (whole ++ fraction.getD [] = [] ↔ t.HidesZero)) ∧
      (whole ++ fraction.getD [] = [] → fraction = some []) := by
  obtain ⟨zeros, int, noDigits⟩ := bare_wholeText digits.wholeDigits fits t.whole_ne_nil
  have intAll : Decimal.AllDigits (bare (wholeText t.whole intDigits t.fractionFormat.isSome)) := by
    rw [int]
    exact (Decimal.allDigits_replicate_zero zeros).append digits.wholeDigits
  have parts : bare (shown t dollar negative intDigits fractionPart) =
      (if t.sign = true ∧ negative = false then ['+'] else Decimal.signText negative) ++
        (List.replicate zeros '0' ++ intDigits ++
          bare (fractionText t.fm t.fractionFormat fractionPart)) := by
    have padding : bare (if t.fm then [] else
        List.replicate ((wholeText t.whole intDigits t.fractionFormat.isSome).takeWhile
          isWhitespace).length ' ') = [] := by
      split
      · rfl
      · simp [bare]
    have currency : bare (if dollar then ['$'] else []) = [] := by cases dollar <;> rfl
    rw [shown]
    simp only [bare_append, padding, currency, bare_signBefore, bare_drop_blanks intAll, int,
      List.nil_append, List.append_assoc]
  have ofZero (zero : m = 0) : intDigits = [] ∧ fractionPart = List.replicate t.places '0' :=
    digits.of_zero zero
  cases fraction : t.fraction with
  | none =>
      have format : t.fractionFormat = none := by rw [Template.fractionFormat, fraction]; rfl
      have noFraction : fractionPart = [] := by
        rw [← List.length_eq_zero_iff, digits.length, places_none fraction]
      rw [format] at parts noDigits
      have some_ : List.replicate zeros '0' ++ intDigits ≠ [] := by
        intro empty
        obtain ⟨noZeros, noInt⟩ := List.append_eq_nil_iff.mp empty
        exact absurd ((noDigits noInt).mp ((List.replicate_eq_nil_iff '0').mp noZeros)).1 (by decide)
      refine ⟨_, none, zeros, 0, parts, rfl, by simpa using noFraction, fun _ => ?_, fun empty => ?_⟩
      · refine iff_of_false (by simpa using some_) ?_
        rintro ⟨-, f, member, -⟩
        rw [fraction] at member
        cases member
      · exact absurd (by simpa using empty) some_
  | some f =>
      have format : t.fractionFormat = some f.2 := by rw [Template.fractionFormat, fraction]; rfl
      have length : fractionPart.length = f.2.length := by rw [digits.length, places_some fraction]
      obtain ⟨kept, trailing, form, rest, none_iff⟩ := fractionText_some t.fm length
      rw [format] at parts noDigits
      have keptDigits : Decimal.AllDigits kept := by
        have all := digits.fractionDigits
        rw [rest] at all
        exact all.of_append.1
      have point : bare (fractionText t.fm (some f.2) fractionPart) = '.' :: kept := by
        rw [form, ← List.singleton_append, bare_append, bare_of_allDigits keptDigits]
        rfl
      rw [point] at parts
      refine ⟨_, some kept, zeros, trailing, parts, rfl, rest, fun zero => ?_, fun empty => ?_⟩
      · obtain ⟨noInt, onlyZeros⟩ := ofZero zero
        rw [places_some fraction] at onlyZeros
        rw [Option.getD_some, List.append_eq_nil_iff, List.append_eq_nil_iff,
          List.replicate_eq_nil_iff, noDigits noInt, none_iff onlyZeros, Template.HidesZero, fraction]
        simp [noInt]
      · rw [Option.getD_some, List.append_eq_nil_iff] at empty
        rw [empty.2]

/-- The places of a numeral begin with a digit or the point. -/
theorem head_places {whole : List Char} {fraction : Option (List Char)}
    (digits : Decimal.AllDigits whole) (some_ : whole ++ fraction.getD [] ≠ []) :
    ∃ c rest, whole ++ fraction.elim [] ('.' :: ·) = c :: rest ∧ (c.isDigit = true ∨ c = '.') := by
  cases whole with
  | cons c more => exact ⟨c, _, rfl, Or.inl (digits c List.mem_cons_self)⟩
  | nil =>
      cases fraction with
      | none => exact absurd rfl some_
      | some f => exact ⟨'.', f, rfl, Or.inr rfl⟩

/-- A plus sign in front of a number that is not negative is allowed. -/
theorem numeral_signed {places : List Char} {c : Char} {rest : List Char} (form : places = c :: rest)
    (first : c.isDigit = true ∨ c = '.') (plus negative : Bool) :
    numeral ((if plus = true ∧ negative = false then ['+'] else Decimal.signText negative) ++ places) =
      Decimal.denote (Decimal.signText negative ++ places) := by
  have unsigned : c ≠ '+' ∧ c ≠ '-' := by
    constructor <;> (rintro rfl; revert first; decide)
  subst form
  cases negative with
  | true =>
      rw [if_neg (by simp)]
      rfl
  | false =>
      cases plus with
      | true =>
          rw [if_pos ⟨rfl, rfl⟩, List.singleton_append, numeral, if_neg (by simpa using unsigned.2)]
          rfl
      | false =>
          rw [if_neg (by simp)]
          simp only [Decimal.signText, Bool.false_eq_true, if_false, List.nil_append]
          unfold numeral
          split
          · next same => exact absurd (List.cons.inj same).1 unsigned.1
          · rfl

/-- Without the blanks and marks the text denotes the number, unless it shows no digit. -/
theorem numeral_shown {rounded : BigDecimal} (scale : rounded.scale = t.places)
    (digits : Digits rounded.intVal.natAbs t.places intDigits fractionPart)
    (fits : intDigits.length ≤ t.slots) (dollar : Bool) :
    let text := bare (shown t dollar (decide (rounded.intVal < 0)) intDigits fractionPart)
    (rounded.intVal = 0 ∧ t.HidesZero → numeral text = none) ∧
      (¬ (rounded.intVal = 0 ∧ t.HidesZero) →
        numeral text = some rounded.toRat ∧ ∃ c ∈ text, c ≠ '#') := by
  obtain ⟨whole, fraction, zeros, trailing, form, isWhole, rest, hides, lonePoint⟩ :=
    bare_shown digits fits dollar (decide (rounded.intVal < 0))
  have wholeDigits : Decimal.AllDigits whole := by
    rw [isWhole]
    exact (Decimal.allDigits_replicate_zero zeros).append digits.wholeDigits
  have fractionDigits : Decimal.AllDigits (fraction.getD []) := by
    have all := digits.fractionDigits
    rw [rest] at all
    exact all.of_append.1
  -- the zeros in front and those dropped behind leave the number as it is
  have value : Nat.ofDigitChars 10 (whole ++ fraction.getD [] ++ List.replicate trailing '0') 0 =
      rounded.intVal.natAbs := by
    rw [List.append_assoc, ← rest, isWhole, List.append_assoc, Decimal.ofDigitChars_zeros_append,
      digits.value]
  have hidden : whole ++ fraction.getD [] = [] ↔ rounded.intVal = 0 ∧ t.HidesZero := by
    constructor
    · intro empty
      rw [empty, List.nil_append, Nat.ofDigitChars_replicate_zero, Nat.mul_zero] at value
      exact ⟨Int.natAbs_eq_zero.mp value.symm, (hides value.symm).mp empty⟩
    · rintro ⟨zero, hidesZero⟩
      exact (hides (by rw [zero]; rfl)).mpr hidesZero
  rw [← hidden, form]
  constructor
  · intro empty
    have zero := (hidden.mp empty).1
    have noWhole : whole = [] := (List.append_eq_nil_iff.mp empty).1
    rw [lonePoint empty, noWhole, zero]
    cases t.sign <;> decide
  · intro some_
    obtain ⟨c, more, places, first⟩ := head_places wholeDigits some_
    have lengths := congrArg List.length rest
    rw [digits.length, List.length_append, List.length_replicate] at lengths
    have exponent : (0 : Int) - (fraction.getD []).length = -rounded.scale + trailing := by
      rw [scale, lengths]
      push_cast
      ring
    refine ⟨?_, c, ?_, ?_⟩
    · rw [numeral_signed places first, ← List.append_assoc]
      have read := Decimal.read_write (decide (rounded.intVal < 0)) wholeDigits fractionDigits some_
        Decimal.Marks.none_
      rw [Decimal.write, Option.elim_none, List.append_nil] at read
      rw [Decimal.denote, read, Option.map_some, exponent, ← Decimal.value_append_zeros,
        BigDecimal.value_natAbs rounded value]
    · rw [places]
      simp
    · rintro rfl
      revert first
      decide

end Shown

/-- The digits before the point are the number's integer digits. -/
theorem integerDigits_le {rounded : BigDecimal} (scale : rounded.scale = t.places)
    {intDigits fractionPart : List Char}
    (digits : Digits rounded.intVal.natAbs t.places intDigits fractionPart) :
    integerDigits rounded.toRat ≤ t.slots ↔ intDigits.length ≤ t.slots := by
  have floor : ⌊|rounded.toRat|⌋₊ = rounded.intVal.natAbs / 10 ^ t.places := by
    rw [BigDecimal.abs_toRat, scale, zpow_neg, zpow_natCast, ← div_eq_mul_inv]
    have quotient := Nat.floor_div_eq_div (K := ℚ) rounded.intVal.natAbs (10 ^ t.places)
    push_cast at quotient
    exact quotient
  rw [digits.length_le, integerDigits, Nat.digits_length_le_iff (by decide), floor]

/-- A text shows the number rounded to the format's decimals: `#` alone when the integer part of the
format is too short for it, else a numeral among blanks, dollar signs and group marks. -/
def ShowsNumber (unicode : Unicode) (t : Template) (n : BigDecimal) (fmt : String) : Prop :=
  let rounded := roundPlaces n.toRat t.places
  ∃ text, formatNumberWith unicode n fmt = .ok text ∧
    ((∀ c ∈ text.toList, c = '#') ↔ t.slots < integerDigits rounded) ∧
    (t.slots < integerDigits rounded ∨ numeral (bare text.toList) = some rounded)

/-- TO_CHAR of a number shows the number, except a zero of which the format shows no digit. -/
theorem format_number_with_shows_iff (spells : t.Spells unicode fmt) (n : BigDecimal) :
    ShowsNumber unicode t n fmt ↔ ¬ (roundPlaces n.toRat t.places = 0 ∧ t.HidesZero) := by
  have value := BigDecimal.toRat_withScaleRound n t.places
  have scale := BigDecimal.scale_withScaleRound n t.places
  obtain ⟨dollar, format⟩ := formatNumberWith_spells spells n
  have zero_iff : (n.withScaleRound t.places).toRat = 0 ↔ (n.withScaleRound t.places).intVal = 0 := by
    rw [BigDecimal.toRat, mul_eq_zero, Int.cast_eq_zero, or_iff_left (BigDecimal.ten_zpow_pos _).ne']
  generalize n.withScaleRound t.places = rounded at value scale format zero_iff
  have digits := digitsOf_spec scale
  have room := integerDigits_le scale digits
  simp only at format
  unfold ShowsNumber
  rw [← value, zero_iff]
  split at format
  · next long =>
      have tooLong : t.slots < integerDigits rounded.toRat :=
        not_le.mp fun short => (room.mp short).not_gt long
      refine iff_of_true ⟨_, format, iff_of_true ?_ tooLong, Or.inl tooLong⟩ ?_
      · intro c member
        rw [String.toList_ofList] at member
        exact List.eq_of_mem_replicate member
      · rintro ⟨zero, -⟩
        rw [(digits.of_zero (by rw [zero]; rfl)).1] at long
        exact Nat.not_lt_zero _ long
  · next fits =>
      have short : ¬ t.slots < integerDigits rounded.toRat :=
        not_lt.mpr (room.mpr (not_lt.mp fits))
      obtain ⟨hidden, faithful⟩ := numeral_shown scale digits (not_lt.mp fits) dollar
      constructor
      · rintro ⟨text, result, -, shows_⟩ hides
        obtain rfl := Except.ok.inj (format.symm.trans result)
        rw [String.toList_ofList, hidden hides] at shows_
        exact shows_.elim short fun impossible => by cases impossible
      · intro visible
        obtain ⟨numeral_, c, member, other⟩ := faithful visible
        refine ⟨_, format, iff_of_false ?_ short, Or.inr ?_⟩
        · intro marks
          rw [String.toList_ofList] at marks
          exact other (marks c (List.mem_of_mem_filter member))
        · rw [String.toList_ofList]
          exact numeral_

/-- The format `FM9.9`. -/
def packed : Template where
  fm := true
  sign := false
  whole := ['9']
  fraction := some ('.', ['9'])
  isWhole := List.all_eq_true.mp rfl
  isPoint := by
    rintro f ⟨⟩
    exact ⟨rfl, List.all_eq_true.mp rfl⟩
  some_ := ⟨'9', List.mem_cons_self, rfl⟩

/-- The format `S$9G990.00`. -/
def signed : Template where
  fm := false
  sign := true
  whole := ['9', 'G', '9', '9', '0']
  fraction := some ('.', ['0', '0'])
  isWhole := List.all_eq_true.mp rfl
  isPoint := by
    rintro f ⟨⟩
    exact ⟨rfl, List.all_eq_true.mp rfl⟩
  some_ := ⟨'9', List.mem_cons_self, rfl⟩

theorem format_number_with_shows_amount :
    ShowsNumber Unicode.sample signed ⟨-1234565, 3⟩ "S$9g990.00" ↔
      ¬ (roundPlaces (⟨-1234565, 3⟩ : BigDecimal).toRat signed.places = 0 ∧ signed.HidesZero) :=
  format_number_with_shows_iff ⟨"$9G990.00".toList, by decide, by decide⟩ ⟨-1234565, 3⟩

/-- Zero in the format `FM9.9` is shown as a point. -/
theorem format_number_with_of_zero :
    packed.Spells Unicode.sample "FM9.9" ∧
      formatNumberWith Unicode.sample ⟨0, 0⟩ "FM9.9" = .ok "." ∧
      ¬ ShowsNumber Unicode.sample packed ⟨0, 0⟩ "FM9.9" := by
  have text : formatNumberWith Unicode.sample ⟨0, 0⟩ "FM9.9" = .ok "." := by decide
  refine ⟨⟨"9.9".toList, by decide, by decide⟩, text, ?_⟩
  rintro ⟨shown_, result, -, shows_⟩
  obtain rfl := Except.ok.inj (text.symm.trans result)
  have zero : roundPlaces (⟨0, 0⟩ : BigDecimal).toRat packed.places = 0 := by
    norm_num [BigDecimal.toRat, roundPlaces, roundAway]
  have point : numeral (bare ".".toList) = none := by decide
  rw [zero, point] at shows_
  simp [integerDigits] at shows_

end MockOracle.NumberFormat
