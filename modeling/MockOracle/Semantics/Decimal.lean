import Mathlib

/-!
# Decimal text

What a text of decimal digits denotes, with an optional sign, point and exponent. The
reading is the usual one and is independent of any program that writes such texts; a
writer is correct when reading its output gives back the number it was given.
-/

namespace MockOracle.Semantics.Decimal

open Nat (ofDigitChars toDigits)

/-- Only decimal digits. -/
def AllDigits (text : List Char) : Prop := ∀ c ∈ text, c.isDigit = true

/-- Whether a text has only digits can be decided. -/
instance (text : List Char) : Decidable (AllDigits text) :=
  decidable_of_iff (text.all Char.isDigit = true) List.all_eq_true

/-- The text before the first character that satisfies `p`, and the text after it. -/
def cut (p : Char → Bool) : List Char → List Char × Option (List Char)
  | [] => ([], none)
  | c :: rest =>
      if p c then ([], some rest)
      else (c :: (cut p rest).1, (cut p rest).2)

/-- The mark in front of an exponent. -/
def isExponentMark (c : Char) : Bool := c = 'e' || c = 'E'

/-- The decimal point. -/
def isPoint (c : Char) : Bool := c = '.'

/-- A run of at least one digit. -/
def readDigits (text : List Char) : Option Nat :=
  if text ≠ [] ∧ AllDigits text then some (ofDigitChars 10 text 0) else none

/-- A run of digits with an optional sign, as exponents are written. -/
def readInteger : List Char → Option Int
  | '-' :: rest => (readDigits rest).map fun n : Nat => -(n : Int)
  | '+' :: rest => (readDigits rest).map fun n : Nat => (n : Int)
  | rest => (readDigits rest).map fun n : Nat => (n : Int)

/-- A sign, digits, and the power of ten that the last digit counts. -/
structure Parts where
  negative : Bool
  digits : List Char
  exponent : Int
  deriving DecidableEq, Repr

/-- The number with these parts. -/
def Parts.value (p : Parts) : ℚ :=
  (if p.negative then -1 else 1) * (ofDigitChars 10 p.digits 0 : ℚ) * 10 ^ p.exponent

/-- A leading minus sign and the text without it. -/
def readSign : List Char → Bool × List Char
  | '-' :: rest => (true, rest)
  | rest => (false, rest)

/-- The parts of a text `[-]digits[.digits][e[+|-]digits]`; the digits on one side of the
point may be missing. -/
def read (text : List Char) : Option Parts :=
  let (negative, rest) := readSign text
  let (mantissa, exponent) := cut isExponentMark rest
  let (whole, fraction) := cut isPoint mantissa
  let digits := whole ++ fraction.getD []
  if digits ≠ [] ∧ AllDigits digits then
    (exponent.elim (some 0) readInteger).map fun e =>
      ⟨negative, digits, e - (fraction.getD []).length⟩
  else none

/-- The number a text denotes. -/
def denote (text : List Char) : Option ℚ := (read text).map Parts.value

section Cut

variable {p : Char → Bool} {before after : List Char} {c : Char}

/-- A text without a cutting character is not cut. -/
theorem cut_of_none (none_ : ∀ c ∈ before, p c = false) : cut p before = (before, none) := by
  induction before with
  | nil => rfl
  | cons c rest ih =>
      simp only [List.forall_mem_cons] at none_
      simp [cut, none_.1, ih none_.2]

/-- A text is cut at its first cutting character. -/
theorem cut_append (none_ : ∀ c ∈ before, p c = false) (here : p c = true) :
    cut p (before ++ c :: after) = (before, some after) := by
  induction before with
  | nil => simp [cut, here]
  | cons d rest ih =>
      simp only [List.forall_mem_cons] at none_
      simp [cut, none_.1, ih none_.2]

/-- Cutting loses nothing: the text is its parts around a character that satisfies `p`. -/
theorem cut_spec (text : List Char) :
    (cut p text = (text, none) ∧ ∀ c ∈ text, p c = false) ∨
    ∃ before c after, text = before ++ c :: after ∧ p c = true ∧
      (∀ c ∈ before, p c = false) ∧ cut p text = (before, some after) := by
  induction text with
  | nil => exact Or.inl ⟨rfl, by simp⟩
  | cons c rest ih =>
      by_cases here : p c = true
      · exact Or.inr ⟨[], c, rest, rfl, here, by simp, by simp [cut, here]⟩
      · rw [Bool.not_eq_true] at here
        rcases ih with ⟨eq, none_⟩ | ⟨before, d, after, rfl, hit, none_, eq⟩
        · refine Or.inl ⟨by simp [cut, here, eq], ?_⟩
          simpa [here] using none_
        · exact Or.inr ⟨c :: before, d, after, rfl, hit, by simpa [here] using none_,
            by simp [cut, here, eq]⟩

end Cut

/-- A digit is no exponent mark. -/
theorem not_isExponentMark_of_isDigit {c : Char} (digit : c.isDigit = true) :
    isExponentMark c = false := by
  by_contra mark
  simp only [isExponentMark, Bool.not_eq_false, Bool.or_eq_true, decide_eq_true_eq] at mark
  rcases mark with rfl | rfl <;> exact absurd digit (by decide)

/-- A digit is no decimal point. -/
theorem not_isPoint_of_isDigit {c : Char} (digit : c.isDigit = true) : isPoint c = false := by
  by_contra point
  simp only [isPoint, Bool.not_eq_false, decide_eq_true_eq] at point
  subst point
  exact absurd digit (by decide)

/-- A text that does not start with a minus sign has none to read. -/
theorem readSign_of_ne {text : List Char} (plain : text.head? ≠ some '-') :
    readSign text = (false, text) := by
  unfold readSign
  split
  · exact absurd rfl plain
  · rfl

/-- The sign in front of a number's text. -/
def signText (negative : Bool) : List Char := if negative then ['-'] else []

/-- A text with the given sign, digits before and after the point, and exponent text. -/
def write (negative : Bool) (whole : List Char) (fraction exponent : Option (List Char)) :
    List Char :=
  signText negative ++ whole ++ fraction.elim [] ('.' :: ·) ++ exponent.elim [] id

/-- An exponent text is a mark and an integer; without one the exponent is zero. -/
def Marks (exponent : Option (List Char)) (e : Int) : Prop :=
  exponent = none ∧ e = 0 ∨
    ∃ mark text, exponent = some (mark :: text) ∧ isExponentMark mark = true ∧
      readInteger text = some e

/-- No exponent text stands for the exponent zero. -/
theorem Marks.none_ : Marks none 0 := Or.inl ⟨rfl, rfl⟩

section Write

variable {lead whole : List Char} {fraction exponent : Option (List Char)} {e : Int}

/-- Behind a lead without a mark, the exponent is cut off and read. -/
theorem cut_exponent (unmarked : ∀ c ∈ lead, isExponentMark c = false)
    (marks : Marks exponent e) :
    cut isExponentMark (lead ++ exponent.elim [] id) = (lead, exponent.map List.tail) ∧
      (exponent.map List.tail).elim (some 0) readInteger = some e := by
  rcases marks with ⟨rfl, rfl⟩ | ⟨mark, text, rfl, isMark, reads⟩
  · exact ⟨by simpa using cut_of_none unmarked, rfl⟩
  · exact ⟨cut_append unmarked isMark, reads⟩

/-- Behind a lead without a point, the fraction is cut off. -/
theorem cut_point (pointless : ∀ c ∈ lead, isPoint c = false) :
    cut isPoint (lead ++ fraction.elim [] ('.' :: ·)) = (lead, fraction) := by
  cases fraction with
  | none => simpa using cut_of_none pointless
  | some f => exact cut_append pointless rfl

/-- There is no exponent mark in front of the exponent. -/
theorem unmarked_mantissa (negative : Bool) (wholeDigits : AllDigits whole)
    (fractionDigits : AllDigits (fraction.getD [])) :
    ∀ c ∈ signText negative ++ whole ++ fraction.elim [] ('.' :: ·),
      isExponentMark c = false := by
  intro c member
  simp only [List.mem_append] at member
  rcases member with (sign | inWhole) | inFraction
  · cases negative with
    | false => simp [signText] at sign
    | true =>
        rw [List.mem_singleton.mp sign]
        rfl
  · exact not_isExponentMark_of_isDigit (wholeDigits c inWhole)
  · cases fraction with
    | none => simp at inFraction
    | some f =>
        rcases List.mem_cons.mp inFraction with rfl | inFraction
        · rfl
        · exact not_isExponentMark_of_isDigit (fractionDigits c inFraction)

/-- There is no point in front of the fraction. -/
theorem pointless_whole (negative : Bool) (wholeDigits : AllDigits whole) :
    ∀ c ∈ signText negative ++ whole, isPoint c = false := by
  intro c member
  rcases List.mem_append.mp member with sign | inWhole
  · cases negative with
    | false => simp [signText] at sign
    | true =>
        rw [List.mem_singleton.mp sign]
        rfl
  · exact not_isPoint_of_isDigit (wholeDigits c inWhole)

/-- The sign of a written number is read, and the rest is the number without it. -/
theorem readSign_write (negative : Bool) (wholeDigits : AllDigits whole)
    (some_ : whole ++ fraction.getD [] ≠ []) :
    readSign (write negative whole fraction exponent) =
      (negative, write false whole fraction exponent) := by
  cases negative with
  | true => simp [write, signText, readSign]
  | false =>
      refine readSign_of_ne ?_
      cases whole with
      | nil =>
          cases fraction with
          | none => exact absurd rfl some_
          | some f => simp [write, signText]
      | cons c rest =>
          intro head
          simp only [write, signText, Bool.false_eq_true, if_false, List.nil_append,
            List.cons_append, List.head?_cons, Option.some.injEq] at head
          exact absurd (wholeDigits c List.mem_cons_self) (by rw [head]; decide)

/-- Reading what was written gives its parts. -/
theorem read_write (negative : Bool) (wholeDigits : AllDigits whole)
    (fractionDigits : AllDigits (fraction.getD [])) (some_ : whole ++ fraction.getD [] ≠ [])
    (marks : Marks exponent e) :
    read (write negative whole fraction exponent) =
      some ⟨negative, whole ++ fraction.getD [], e - (fraction.getD []).length⟩ := by
  have digits : AllDigits (whole ++ fraction.getD []) := by
    intro c member
    rcases List.mem_append.mp member with member | member
    exacts [wholeDigits c member, fractionDigits c member]
  obtain ⟨mantissa, exponent_⟩ :=
    cut_exponent (unmarked_mantissa false wholeDigits fractionDigits) marks
  have point : cut isPoint (signText false ++ whole ++ fraction.elim [] ('.' :: ·)) =
      (whole, fraction) := cut_point (pointless_whole false wholeDigits)
  rw [read, readSign_write negative wholeDigits some_, write]
  simp only [mantissa, point, exponent_, some_, digits, ne_eq, not_false_eq_true, and_self,
    if_true, Option.map_some]

end Write

/-! ## The characters of decimal text -/

/-- The characters decimal text is made of. -/
def IsDecimalChar (c : Char) : Prop :=
  c.isDigit = true ∨ isExponentMark c = true ∨ isPoint c = true ∨ c = '-' ∨ c = '+'

/-- A run of digits has decimal characters only. -/
theorem chars_of_readDigits {text : List Char} {n : Nat} (reads : readDigits text = some n) :
    ∀ c ∈ text, IsDecimalChar c := by
  unfold readDigits at reads
  split at reads
  · next digits => exact fun c member => Or.inl (digits.2 c member)
  · cases reads

/-- An integer text has decimal characters only. -/
theorem chars_of_readInteger {text : List Char} {n : Int} (reads : readInteger text = some n) :
    ∀ c ∈ text, IsDecimalChar c := by
  unfold readInteger at reads
  split at reads <;> obtain ⟨k, digits, -⟩ := Option.map_eq_some_iff.mp reads <;>
    have chars := chars_of_readDigits digits
  · exact List.forall_mem_cons.mpr ⟨by simp [IsDecimalChar], chars⟩
  · exact List.forall_mem_cons.mpr ⟨by simp [IsDecimalChar], chars⟩
  · exact chars

/-- A text that can be read has only digits, marks, points and signs. -/
theorem chars_of_read {text : List Char} {p : Parts} (reads : read text = some p) :
    ∀ c ∈ text, IsDecimalChar c := by
  obtain ⟨negative, rest, sign, whole⟩ : ∃ negative rest, readSign text = (negative, rest) ∧
      ∀ c ∈ text, c ∈ rest ∨ c = '-' := by
    unfold readSign
    split
    · exact ⟨true, _, rfl, fun c member => (List.mem_cons.mp member).symm⟩
    · exact ⟨false, _, rfl, fun c member => Or.inl member⟩
  have restChars : ∀ c ∈ rest, IsDecimalChar c := by
    simp only [read, sign] at reads
    split at reads
    · next digits =>
        obtain ⟨e, exponent, -⟩ := Option.map_eq_some_iff.mp reads
        have mantissa : ∀ c ∈ (cut isExponentMark rest).1, IsDecimalChar c := by
          intro c member
          rcases cut_spec (p := isPoint) (cut isExponentMark rest).1 with
            ⟨equal, -⟩ | ⟨before, d, after, split, point, -, equal⟩
          · exact Or.inl (digits.2 c (by simp [equal, member]))
          · rw [split, List.mem_append, List.mem_cons] at member
            rcases member with member | rfl | member
            · exact Or.inl (digits.2 c (by simp [equal, member]))
            · exact Or.inr (Or.inr (Or.inl point))
            · exact Or.inl (digits.2 c (by simp [equal, member]))
        rcases cut_spec (p := isExponentMark) rest with
          ⟨equal, -⟩ | ⟨before, d, after, split, mark, -, equal⟩
        · rw [equal] at mantissa
          exact mantissa
        · rw [equal] at mantissa exponent
          intro c member
          rw [split, List.mem_append, List.mem_cons] at member
          rcases member with member | rfl | member
          · exact mantissa c member
          · exact Or.inr (Or.inl mark)
          · exact chars_of_readInteger exponent c member
    · cases reads
  intro c member
  rcases whole c member with inRest | minus
  · exact restChars c inRest
  · exact Or.inr (Or.inr (Or.inr (Or.inl minus)))

/-- What is read as digits are digits. -/
theorem allDigits_of_read {text : List Char} {p : Parts} (reads : read text = some p) :
    AllDigits p.digits := by
  simp only [read] at reads
  split at reads
  · next digits =>
      obtain ⟨e, -, rfl⟩ := Option.map_eq_some_iff.mp reads
      exact digits.2
  · cases reads

/-! ## Numerals -/

/-- The digits of a number are digits. -/
theorem allDigits_toDigits (n : Nat) : AllDigits (toDigits 10 n) := fun _ member =>
  Nat.isDigit_of_mem_toDigits (by decide) (by decide) member

/-- Zeros are digits. -/
theorem allDigits_replicate_zero (k : Nat) : AllDigits (List.replicate k '0') := by
  intro c member
  rw [List.eq_of_mem_replicate member]
  rfl

/-- Digits behind digits are digits. -/
theorem AllDigits.append {left right : List Char} (first : AllDigits left)
    (second : AllDigits right) : AllDigits (left ++ right) := by
  intro c member
  rcases List.mem_append.mp member with member | member
  exacts [first c member, second c member]

/-- Parts of digits are digits. -/
theorem AllDigits.of_append {left right : List Char} (digits : AllDigits (left ++ right)) :
    AllDigits left ∧ AllDigits right :=
  ⟨fun c member => digits c (List.mem_append_left _ member),
    fun c member => digits c (List.mem_append_right _ member)⟩

/-- The digits of a number are read as this number. -/
theorem readDigits_toDigits (n : Nat) : readDigits (toDigits 10 n) = some n := by
  simp [readDigits, Nat.toDigits_ne_nil, allDigits_toDigits]

/-- A signed numeral reads as the integer it was made of. -/
theorem readInteger_signed (n : Int) :
    readInteger ((if 0 < n then '+' else '-') :: toDigits 10 n.natAbs) = some n := by
  by_cases positive : 0 < n
  · have reads : readInteger ('+' :: toDigits 10 n.natAbs) = some (n.natAbs : Int) := by
      simp [readInteger, readDigits_toDigits]
    rw [if_pos positive, reads, Int.natAbs_of_nonneg positive.le]
  · have reads : readInteger ('-' :: toDigits 10 n.natAbs) = some (-(n.natAbs : Int)) := by
      simp [readInteger, readDigits_toDigits]
    rw [if_neg positive, reads, Int.ofNat_natAbs_of_nonpos (not_lt.mp positive), neg_neg]

/-- The text of an integer is its sign and digits. -/
theorem toList_toString_int (n : Int) :
    (toString n).toList = write (decide (n < 0)) (toDigits 10 n.natAbs) none none := by
  rw [Int.toString_eq_repr, Int.repr_eq_if]
  by_cases negative : n < 0
  · have size : (-n).toNat = n.natAbs := by omega
    simp [negative, negative.not_ge, write, signText, size]
  · have size : n.toNat = n.natAbs := by omega
    simp [negative, not_lt.mp negative, write, signText, size]

/-- Different integers have different texts. -/
theorem toString_int_inj {m n : Int} (same : (toString m).toList = (toString n).toList) :
    m = n := by
  have reads : ∀ n : Int, read (toString n).toList =
      some ⟨decide (n < 0), toDigits 10 n.natAbs, 0⟩ := by
    intro n
    rw [toList_toString_int, read_write _ (allDigits_toDigits _)
      (by simp [AllDigits]) (by simp) Marks.none_]
    simp
  have parts := reads m
  rw [same, reads n] at parts
  simp only [Option.some.injEq, Parts.mk.injEq, and_true, decide_eq_decide] at parts
  have sizes := congrArg (ofDigitChars 10 · 0) parts.2
  simp only [Nat.ofDigitChars_ten_toDigits] at sizes
  omega

/-- Digits without a sign. -/
theorem readInteger_digits {text : List Char} (nonempty : text ≠ []) (digits : AllDigits text) :
    readInteger text = some (ofDigitChars 10 text 0 : Int) := by
  have unsigned : ∀ c rest, text = c :: rest → c ≠ '-' ∧ c ≠ '+' := by
    intro c rest equal
    have digit := digits c (by simp [equal])
    constructor <;> (rintro rfl; exact absurd digit (by decide))
  rw [readInteger]
  · rw [readDigits, if_pos ⟨nonempty, digits⟩, Option.map_some]
  · exact fun rest equal => (unsigned _ _ equal).1 rfl
  · exact fun rest equal => (unsigned _ _ equal).2 rfl

/-- The text of an integer is read as this integer. -/
theorem readInteger_toString (n : Int) : readInteger (toString n).toList = some n := by
  have form := toList_toString_int n
  simp only [write, Option.elim_none, List.append_nil] at form
  rw [form]
  by_cases negative : n < 0
  · simp only [signText, negative, decide_true, if_true, List.singleton_append, readInteger,
      readDigits_toDigits, Option.map_some, Int.ofNat_natAbs_of_nonpos negative.le, neg_neg]
  · simp only [signText, negative, decide_false, Bool.false_eq_true, if_false, List.nil_append]
    rw [readInteger_digits Nat.toDigits_ne_nil (allDigits_toDigits n.natAbs),
      Nat.ofDigitChars_ten_toDigits, Int.natAbs_of_nonneg (not_lt.mp negative)]

/-- The number of digits in front of digits. -/
theorem ofDigitChars_append_zero (left right : List Char) :
    ofDigitChars 10 (left ++ right) 0 =
      10 ^ right.length * ofDigitChars 10 left 0 + ofDigitChars 10 right 0 := by
  rw [Nat.ofDigitChars_append, Nat.ofDigitChars_eq_ofDigitChars_zero]

/-- Leading zeros count nothing. -/
theorem ofDigitChars_zeros_append (k : Nat) (text : List Char) :
    ofDigitChars 10 (List.replicate k '0' ++ text) 0 = ofDigitChars 10 text 0 := by
  simp [Nat.ofDigitChars_append]

/-- The codes of digits. -/
theorem digit_range {c : Char} (digit : c.isDigit = true) : 48 ≤ c.toNat ∧ c.toNat ≤ 57 := by
  simp only [Char.isDigit, Bool.and_eq_true, decide_eq_true_eq] at digit
  exact ⟨digit.1, digit.2⟩

/-- The number of digits behind a first one. -/
theorem ofDigitChars_cons_zero (c : Char) (digits : List Char) :
    ofDigitChars 10 (c :: digits) 0 =
      10 ^ digits.length * (c.toNat - 48) + ofDigitChars 10 digits 0 := by
  rw [Nat.ofDigitChars_cons, Nat.ofDigitChars_eq_ofDigitChars_zero]
  simp

/-- Digits make a number below the power of ten of their length. -/
theorem ofDigitChars_lt {digits : List Char} (allDigits : AllDigits digits) :
    ofDigitChars 10 digits 0 < 10 ^ digits.length := by
  induction digits with
  | nil => simp
  | cons c rest ih =>
      have range := digit_range (allDigits c List.mem_cons_self)
      have below := ih fun d member => allDigits d (List.mem_cons_of_mem _ member)
      have digit : c.toNat - 48 ≤ 9 := by omega
      rw [ofDigitChars_cons_zero, List.length_cons, pow_succ]
      calc 10 ^ rest.length * (c.toNat - 48) + ofDigitChars 10 rest 0
          < 10 ^ rest.length * 9 + 10 ^ rest.length :=
            Nat.add_lt_add_of_le_of_lt (Nat.mul_le_mul_left _ digit) below
        _ = 10 ^ rest.length * 10 := by ring

/-- A first digit other than zero counts. -/
theorem le_ofDigitChars {c : Char} {digits : List Char} (digit : c.isDigit = true)
    (nonzero : c ≠ '0') : 10 ^ digits.length ≤ ofDigitChars 10 (c :: digits) 0 := by
  have range := digit_range digit
  have positive : 1 ≤ c.toNat - 48 := by
    have other : c.toNat ≠ '0'.toNat := fun same => nonzero (Char.toNat_inj.mp same)
    simp only [Char.reduceToNat] at other
    omega
  rw [ofDigitChars_cons_zero]
  exact (Nat.le_mul_of_pos_right _ positive).trans (Nat.le_add_right _ _)

/-- Runs of digits of one length spell different numbers unless they are equal. -/
theorem ofDigitChars_inj_of_length {left right : List Char} (leftDigits : AllDigits left)
    (rightDigits : AllDigits right) (length : left.length = right.length)
    (same : ofDigitChars 10 left 0 = ofDigitChars 10 right 0) : left = right := by
  induction left generalizing right with
  | nil => exact (List.length_eq_zero_iff.mp length.symm).symm
  | cons c left ih =>
      cases right with
      | nil => simp at length
      | cons d right =>
          rw [AllDigits, List.forall_mem_cons] at leftDigits rightDigits
          simp only [List.length_cons, Nat.add_right_cancel_iff] at length
          rw [ofDigitChars_cons_zero, ofDigitChars_cons_zero, ← length] at same
          have below := ofDigitChars_lt leftDigits.2
          have below' := ofDigitChars_lt rightDigits.2
          rw [← length] at below'
          have first := congrArg (· / 10 ^ left.length) same
          simp only [Nat.mul_add_div (Nat.pow_pos (by decide : 0 < 10)),
            Nat.div_eq_of_lt below, Nat.div_eq_of_lt below', Nat.add_zero] at first
          rw [first, Nat.add_left_cancel_iff] at same
          have range := digit_range leftDigits.1
          have range' := digit_range rightDigits.1
          rw [ih leftDigits.2 rightDigits.2 length same,
            Char.toNat_inj.mp (by omega : c.toNat = d.toNat)]

/-- Runs of digits that begin with other digits than zero spell different numbers unless they
are equal. -/
theorem ofDigitChars_inj {left right : List Char} (leftDigits : AllDigits left)
    (rightDigits : AllDigits right) (leftFirst : left.head? ≠ some '0')
    (rightFirst : right.head? ≠ some '0')
    (same : ofDigitChars 10 left 0 = ofDigitChars 10 right 0) : left = right := by
  have shorter : ∀ {left right : List Char}, AllDigits left → AllDigits right →
      right.head? ≠ some '0' → ofDigitChars 10 left 0 = ofDigitChars 10 right 0 →
      right.length ≤ left.length := by
    intro left right leftDigits rightDigits first same
    cases right with
    | nil => simp
    | cons d right =>
        have above : 10 ^ right.length ≤ ofDigitChars 10 (d :: right) 0 :=
          le_ofDigitChars (rightDigits d List.mem_cons_self) (by simpa using first)
        have below := ofDigitChars_lt leftDigits
        rw [same] at below
        exact (Nat.pow_lt_pow_iff_right (by decide : 1 < 10)).mp (above.trans_lt below)
  exact ofDigitChars_inj_of_length leftDigits rightDigits
    (le_antisymm (shorter rightDigits leftDigits leftFirst same.symm)
      (shorter leftDigits rightDigits rightFirst same)) same

/-- A last digit other than zero makes the number no multiple of ten. -/
theorem not_dvd_ofDigitChars {digits : List Char} (allDigits : AllDigits digits)
    (nonempty : digits ≠ []) (last : digits.getLast? ≠ some '0') :
    ¬ 10 ∣ ofDigitChars 10 digits 0 := by
  obtain ⟨front, c, rfl⟩ := (List.eq_nil_or_concat digits).resolve_left nonempty
  have range := digit_range (allDigits c (by simp))
  have nonzero : c.toNat ≠ '0'.toNat := by
    intro same
    rw [Char.toNat_inj] at same
    simp [same] at last
  simp only [Char.reduceToNat] at nonzero
  rw [List.concat_eq_append, ofDigitChars_append_zero, ofDigitChars_cons_zero]
  simp only [List.length_singleton, pow_one, List.length_nil, pow_zero, one_mul,
    Nat.ofDigitChars_nil, add_zero]
  omega

/-- Appending zeros to the digits is the same as raising the exponent. -/
theorem value_append_zeros (negative : Bool) (digits : List Char) (k : Nat) (e : Int) :
    (Parts.mk negative (digits ++ List.replicate k '0') e).value =
      (Parts.mk negative digits (e + k)).value := by
  have ten : (10 : ℚ) ≠ 0 := by norm_num
  simp only [Parts.value, Nat.ofDigitChars_append, Nat.ofDigitChars_replicate_zero,
    zpow_add₀ ten, zpow_natCast]
  push_cast
  ring

end MockOracle.Semantics.Decimal
