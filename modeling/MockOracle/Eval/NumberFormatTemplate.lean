import MockOracle.Eval.NumberFormat
import MockOracle.Semantics.Decimal

/-!
# Formats of digit places

The number formats made of places for digits, group marks and a point, and what `formatNumberWith`
finds in them: whether they begin with FM and with a sign, the integer part and the fraction.
-/

namespace MockOracle.NumberFormat

open Semantics

/-- A format of digit places, with group marks in its integer part and a point. -/
structure Template where
  fm : Bool
  sign : Bool
  whole : List Char
  fraction : Option (Char × List Char)
  isWhole : ∀ c ∈ whole, isWholeMark c = true
  isPoint : ∀ f ∈ fraction, isPointMark f.1 = true ∧ ∀ c ∈ f.2, isSlot c = true
  some_ : ∃ c ∈ whole ++ (fraction.elim [] Prod.snd), isSlot c = true

namespace Template

variable (t : Template)

/-- The digits after the decimal point, if the template has a point. -/
def fractionFormat : Option (List Char) := t.fraction.map Prod.snd

/-- The digit places after the point. -/
def places : Nat := (t.fractionFormat.getD []).length

/-- The digit places before the point. -/
def slots : Nat := t.whole.countP isSlot

/-- The places and marks of the format. -/
def core : List Char := t.whole ++ t.fraction.elim [] fun f => f.1 :: f.2

/-- The format has these places and marks, after FM and S if it has them, and dollar signs anywhere
among them. -/
def Spells (unicode : Unicode) (fmt : String) : Prop :=
  ∃ body, unicode.toUppercase fmt.toList
      = (if t.fm then ['F', 'M'] else []) ++ ((if t.sign then ['S'] else []) ++ body) ∧
    body.filter (· ≠ '$') = t.core

end Template

variable {t : Template} {unicode : Unicode} {fmt : String}

/-! ## The parts of a format -/

/-- The characters of a format of digit places. -/
def bodyChars : List Char := ['9', '0', ',', 'G', '.', 'D', '$']

/-- The marks of the integer part. -/
theorem isWholeMark_cases {c : Char} (mark : isWholeMark c = true) :
    c = '9' ∨ c = '0' ∨ c = ',' ∨ c = 'G' := by
  simpa only [isWholeMark, isSlot, Bool.or_eq_true, decide_eq_true_eq, or_assoc] using mark

/-- The marks that stand for a digit. -/
theorem isSlot_cases {c : Char} (slot : isSlot c = true) : c = '9' ∨ c = '0' := by
  simpa only [isSlot, Bool.or_eq_true, decide_eq_true_eq] using slot

/-- The marks of the decimal point. -/
theorem isPointMark_cases {c : Char} (point : isPointMark c = true) : c = '.' ∨ c = 'D' := by
  simpa only [isPointMark, Bool.or_eq_true, decide_eq_true_eq] using point

/-- The characters of the core are digits, marks or the point. -/
theorem mem_core {c : Char} (member : c ∈ t.core) : c ∈ bodyChars := by
  rcases List.mem_append.mp member with inWhole | inFraction
  · rcases isWholeMark_cases (t.isWhole c inWhole) with rfl | rfl | rfl | rfl <;> decide
  · cases fraction : t.fraction with
    | none =>
        rw [fraction] at inFraction
        cases inFraction
    | some f =>
        rw [fraction] at inFraction
        obtain ⟨point, slots⟩ := t.isPoint f fraction
        rcases List.mem_cons.mp inFraction with rfl | inPlaces
        · rcases isPointMark_cases point with same | same <;> rw [same] <;> decide
        · rcases isSlot_cases (slots c inPlaces) with rfl | rfl <;> decide

/-- So are those of a body whose core this is, the dollar sign apart. -/
theorem mem_body {body : List Char} (isCore : body.filter (· ≠ '$') = t.core) {c : Char}
    (member : c ∈ body) : c ∈ bodyChars := by
  by_cases dollar : c = '$'
  · rw [dollar]
    decide
  · refine mem_core (t := t) ?_
    rw [← isCore]
    exact List.mem_filter.mpr ⟨member, by simpa using dollar⟩

/-- The body of a template is not empty. -/
theorem body_ne_nil {body : List Char} (isCore : body.filter (· ≠ '$') = t.core) : body ≠ [] := by
  rintro rfl
  obtain ⟨c, member, -⟩ := t.some_
  have inCore : c ∈ t.core := by
    rcases List.mem_append.mp member with inWhole | inFraction
    · exact List.mem_append_left _ inWhole
    · cases fraction : t.fraction with
      | none =>
          rw [fraction] at inFraction
          cases inFraction
      | some f =>
          rw [fraction] at inFraction
          refine List.mem_append_right _ ?_
          rw [fraction]
          exact List.mem_cons_of_mem _ inFraction
  rw [← isCore] at inCore
  cases inCore

/-- A format without an M has no MI to remove. -/
theorem removeMi_of_not_mem {text : List Char} (none : 'M' ∉ text) : removeMi text = text := by
  induction text with
  | nil => rfl
  | cons c rest ih =>
      have other : c ≠ 'M' := fun same => none (same ▸ List.mem_cons_self)
      unfold removeMi
      split
      · next same => exact absurd (List.cons.inj same).1 other
      · next same =>
          obtain ⟨rfl, rfl⟩ := List.cons.inj same
          rw [ih fun member => none (List.mem_cons_of_mem _ member)]
      · next same => cases same

/-- The integer part and the fraction of a format are found. -/
theorem cut_core (t : Template) : Decimal.cut isPointMark t.core = (t.whole, t.fractionFormat) := by
  have noPoint : ∀ c ∈ t.whole, isPointMark c = false := by
    intro c member
    rcases isWholeMark_cases (t.isWhole c member) with rfl | rfl | rfl | rfl <;> decide
  unfold Template.core Template.fractionFormat
  cases fraction : t.fraction with
  | none =>
      rw [Option.elim_none, List.append_nil]
      exact Decimal.cut_of_none noPoint
  | some f => exact Decimal.cut_append noPoint (t.isPoint f fraction).1

/-- The format without the FM is a sign and a body of the format's characters. -/
structure Body (t : Template) (f body : List Char) : Prop where
  isSigned : f = (if t.sign then ['S'] else []) ++ body
  isCore : body.filter (· ≠ '$') = t.core

namespace Body

variable {f body : List Char}

/-- A character that is no mark is not in the body. -/
theorem not_mem_body (parts : Body t f body) {c : Char} (other : c ∉ bodyChars) : c ∉ body :=
  fun member => other (mem_body parts.isCore member)

/-- Nor is it in the format, unless it is the sign. -/
theorem not_mem (parts : Body t f body) {c : Char} (other : c ∉ bodyChars) (sign : c ≠ 'S') :
    c ∉ f := by
  intro member
  rw [parts.isSigned] at member
  rcases List.mem_append.mp member with inSign | inBody
  · cases signed : t.sign <;> simp [signed] at inSign
    exact sign inSign
  · exact parts.not_mem_body other inBody

/-- A format starts with S only by its sign. -/
theorem head_eq (parts : Body t f body) : (f.head? == some 'S') = t.sign := by
  rw [parts.isSigned]
  cases t.sign with
  | true => rfl
  | false =>
      obtain ⟨first, more, isBody⟩ := List.exists_cons_of_ne_nil (body_ne_nil parts.isCore)
      have other : first ≠ 'S' := by
        rintro rfl
        exact parts.not_mem_body (by decide) (isBody ▸ List.mem_cons_self)
      simpa [isBody] using other

/-- A format ends in S only where its template has a sign. -/
theorem getLast_eq (parts : Body t f body) : (!t.sign && f.getLast? == some 'S') = false := by
  cases signed : t.sign with
  | true => rfl
  | false =>
      have other : f.getLast? ≠ some 'S' := by
        intro last
        have member := List.mem_of_getLast? last
        rw [parts.isSigned, signed] at member
        exact parts.not_mem_body (by decide) member
      simpa using other

/-- Without its dollar and sign, the format is its core. -/
theorem filter_eq (parts : Body t f body) :
    removeMi (f.filter fun c => c != '$' && c != 'S') = t.core := by
  have noSign : ∀ c ∈ body, (c != '$' && c != 'S') = decide (c ≠ '$') := by
    intro c member
    have other : c ≠ 'S' := by
      rintro rfl
      exact parts.not_mem_body (by decide) member
    rw [bne_iff_ne.mpr other, Bool.and_true, Bool.eq_iff_iff]
    simp
  have filtered : f.filter (fun c => c != '$' && c != 'S') = t.core := by
    rw [parts.isSigned, List.filter_append, List.filter_congr noSign, parts.isCore]
    cases t.sign <;> rfl
  rw [filtered]
  exact removeMi_of_not_mem fun member => absurd (mem_core member) (by decide)

/-- The body does not start with FM. -/
theorem not_prefix_fm (parts : Body t f body) : "FM".toList.isPrefixOf f = false := by
  rw [Bool.eq_false_iff]
  intro starts
  have member : 'F' ∈ f := (List.isPrefixOf_iff_prefix.mp starts).subset (by decide)
  exact parts.not_mem (by decide) (by decide) member

/-- The body does not end in MI. -/
theorem not_suffix_mi (parts : Body t f body) : "MI".toList.isSuffixOf f = false := by
  rw [Bool.eq_false_iff]
  intro suffix
  have member : 'I' ∈ f := (List.isSuffixOf_iff_suffix.mp suffix).subset (by decide)
  exact parts.not_mem (by decide) (by decide) member

end Body

/-- Every template passes the check of the marks. -/
theorem isValid (t : Template) :
    (t.whole.all isWholeMark && (t.fractionFormat.getD []).all isSlot) = true := by
  rw [Bool.and_eq_true, List.all_eq_true, List.all_eq_true]
  refine ⟨t.isWhole, ?_⟩
  unfold Template.fractionFormat
  cases fraction : t.fraction with
  | none => intro c member; cases member
  | some f => exact (t.isPoint f fraction).2

/-- The text shown of a number that the format has the places for. -/
def shown (t : Template) (dollar negative : Bool) (intDigits fractionPart : List Char) : List Char :=
  let int := wholeText t.whole intDigits t.fractionFormat.isSome
  let lead := (int.takeWhile isWhitespace).length
  let padding := if t.fm then [] else List.replicate lead ' '
  padding ++ signBefore t.sign false negative t.fm ++ (if dollar then ['$'] else []) ++ int.drop lead
    ++ fractionText t.fm t.fractionFormat fractionPart

/-- What is shown of a number in a format of digit places. -/
theorem formatNumberWith_spells (spells : t.Spells unicode fmt) (n : BigDecimal) :
    ∃ dollar : Bool, formatNumberWith unicode n fmt =
      let rounded := n.withScaleRound t.places
      let (intDigits, fractionPart) := digitsOf rounded t.places
      .ok (String.ofList (if t.slots < intDigits.length then
        List.replicate (fmt.utf8ByteSize + 1) '#'
      else shown t dollar (decide (rounded.intVal < 0)) intDigits fractionPart)) := by
  obtain ⟨body, isUpper, isCore⟩ := spells
  obtain ⟨f, isF⟩ : ∃ f, (if t.sign then ['S'] else []) ++ body = f := ⟨_, rfl⟩
  rw [isF] at isUpper
  have parts : Body t f body := ⟨isF.symm, isCore⟩
  have isFm : "FM".toList.isPrefixOf (unicode.toUppercase fmt.toList) = t.fm := by
    rw [isUpper]
    cases t.fm with
    | true => rfl
    | false => exact parts.not_prefix_fm
  have rest : (if t.fm then (unicode.toUppercase fmt.toList).drop 2
      else unicode.toUppercase fmt.toList) = f := by
    rw [isUpper]
    cases t.fm <;> rfl
  refine ⟨f.contains '$', ?_⟩
  unfold formatNumberWith
  simp only [isFm, rest, parts.head_eq, parts.not_suffix_mi, parts.getLast_eq, parts.filter_eq,
    cut_core, isValid, Bool.not_true, Bool.false_eq_true, if_false, Bool.or_false, signAfter,
    List.append_nil]
  rw [apply_ite String.ofList, apply_ite (Except.ok (ε := OraError))]
  rfl

end MockOracle.NumberFormat
