import MockOracle.Eval.DatetimeFormats
import MockOracle.Eval.DatetimeReading

/-!
# Keywords of date formats, written and read

Each keyword is written as one word of letters or digits. Where the word is followed by nothing that
belongs to a longer number or the longer name of a month, reading the keyword takes just this word
and records the part of the date/time that was written.
-/

namespace MockOracle.Datetime

open Semantics Semantics.Text

variable (unicode : Unicode) (d : NaiveDateTime)

/-! ## What is written -/

/-- The text of a date/time in the format with these pieces. -/
def output (pieces : List Piece) : List Char := formatFrom d false (tokens unicode pieces)

/-- What a piece is written as; the case is that of the format from it on. -/
def written (piece : Piece) (rest : List Piece) : List Char :=
  elemText d false (caseOf unicode (formatText (piece :: rest))) piece.elem

/-- What a format prints is what its first piece prints and the rest. -/
theorem output_cons (piece : Piece) (rest : List Piece) :
    output unicode d (piece :: rest) = written unicode d piece rest ++ output unicode d rest := by
  have padded : piece.elem ≠ .fm := by
    cases piece with
    | keyword k spelling spelled => cases k <;> exact fun same => nomatch same
    | mark c isMark => exact fun same => nomatch same
  show _ ++ formatFrom d (if piece.elem = .fm then !false else false) _ = _
  rw [if_neg padded]
  rfl

namespace Keyword

/-- The number that a keyword is written as, and its width. -/
def number? : Keyword → Option (Nat × Nat)
  | yyyy => some (d.year.toNat, 4)
  | rr => some ((d.year % 100).toNat, 2)
  | mm => some (d.month, 2)
  | dd => some (d.day, 2)
  | hh24 => some (d.hour, 2)
  | hh12 => some (clockHour d.hour, 2)
  | mi => some (d.minute, 2)
  | ss => some (d.second, 2)
  | mon | meridian _ => none

/-- Written as a number. -/
def IsNumeric : Keyword → Prop
  | mon | meridian _ => False
  | _ => True

/-- The year is one that the keyword can tell. -/
def Tells : Keyword → Prop
  | yyyy => 0 ≤ d.year ∧ d.year ≤ 9999
  | rr => 1950 ≤ d.year ∧ d.year ≤ 2049
  | _ => True

/-- What reading a keyword records. -/
def record (k : Keyword) (r : Reading) : Reading :=
  match k with
  | yyyy | rr => { r with year := some d.year }
  | mm | mon => { r with month := d.month }
  | dd => { r with day := d.day }
  | hh24 => { r with hour := d.hour }
  | hh12 => { r with hour := clockHour d.hour, hour12 := true }
  | mi => { r with minute := d.minute }
  | ss => { r with second := d.second }
  | meridian _ => { r with pm := some (12 ≤ d.hour : Bool) }

end Keyword

variable {d}

/-- Numeric keywords are written as their number, which fits its width. -/
theorem elemText_number {k : Keyword} {n width : Nat} (isNumber : k.number? d = some (n, width))
    (tells : k.Tells d) (case : Case) :
    elemText d false case k.elem = zeroPadded width n ∧ n < 10 ^ width ∧ 0 < width ∧ width ≤ 4 := by
  have month := d.month_bounds
  have day := d.day_bounds
  have hour := d.hour_lt
  have minute := d.minute_lt
  have second := d.second_lt
  have clock : clockHour d.hour ≤ 12 := by
    unfold clockHour
    split <;> omega
  cases k with
  | yyyy =>
      obtain ⟨rfl, rfl⟩ := Prod.mk.inj (Option.some.inj isNumber)
      have year : (d.year % 2 ^ 32).toNat = d.year.toNat := by
        unfold Keyword.Tells at tells
        omega
      have small : d.year.toNat < 10 ^ 4 := by
        unfold Keyword.Tells at tells
        omega
      refine ⟨?_, small, by decide, by decide⟩
      show zeroPadded 4 (d.year % 2 ^ 32).toNat = _
      rw [year]
  | rr =>
      obtain ⟨rfl, rfl⟩ := Prod.mk.inj (Option.some.inj isNumber)
      have year : d.year.tmod 100 = d.year % 100 := by
        unfold Keyword.Tells at tells
        exact Int.tmod_eq_emod_of_nonneg (by omega)
      refine ⟨?_, by omega, by decide, by decide⟩
      show signedPair (d.year.tmod 100) = _
      rw [year, signedPair, if_neg (by omega)]
      congr 1
      omega
  | mm | dd | hh24 | hh12 | mi | ss =>
      obtain ⟨rfl, rfl⟩ := Prod.mk.inj (Option.some.inj isNumber)
      exact ⟨rfl, by omega, by decide, by decide⟩
  | mon => cases isNumber
  | meridian mark => cases isNumber

/-- A numeric keyword has a number and a width. -/
theorem number?_of_isNumeric {k : Keyword} (numeric : k.IsNumeric) (d : NaiveDateTime) :
    ∃ n width, k.number? d = some (n, width) := by
  cases k with
  | mon => exact numeric.elim
  | meridian mark => exact numeric.elim
  | _ => exact ⟨_, _, rfl⟩

/-- A word of letters that is a name when it is put in capitals. -/
def Spells (word name : List Char) : Prop :=
  word.map Char.toUpper = name ∧ word.all Char.isAlpha = true

/-- The short name of a month spells the month, in any case. -/
theorem spells_month (d : NaiveDateTime) (case : Case) :
    Spells (applyCase ((months.getD (d.month - 1) []).take 3) case)
      ((months.getD (d.month - 1) []).take 3) := by
  have all : ∀ index < 12, (applyCase ((months.getD index []).take 3) case).map Char.toUpper
        = (months.getD index []).take 3 ∧
      (applyCase ((months.getD index []).take 3) case).all Char.isAlpha = true := by
    cases case <;> decide
  have month := d.month_bounds
  exact all (d.month - 1) (by omega)

/-- AM and PM spell themselves, in any case. -/
theorem spells_meridian {half : List Char} (isHalf : half = "AM".toList ∨ half = "PM".toList)
    (case : Case) : Spells (applyCase half case) half := by
  unfold Spells
  rcases isHalf with rfl | rfl <;> cases case <;> decide

/-- The half of the day that is printed goes by the hour. -/
theorem half_cases (d : NaiveDateTime) (case : Case) :
    d.hour < 12 ∧ elemText d false case .am = applyCase "AM".toList case ∨
      12 ≤ d.hour ∧ elemText d false case .am = applyCase "PM".toList case := by
  by_cases morning : d.hour < 12
  · exact Or.inl ⟨morning, by rw [elemText, if_pos morning]⟩
  · exact Or.inr ⟨Nat.le_of_not_lt morning, by rw [elemText, if_neg morning]⟩

/-- Digits have no case. -/
theorem toUpper_of_isDigit {c : Char} (digit : c.isDigit = true) : c.toUpper = c := by
  have range := Decimal.digit_range digit
  have same : c.val.toNat = c.toNat := rfl
  rw [Char.toUpper, dif_neg]
  have large : 'a'.val.toNat = 97 := rfl
  simp only [UInt32.le_iff_toNat_le, same, large]
  omega

/-- No digit is a letter of a month. -/
theorem not_fourth_of_isDigit {c : Char} (digit : c.isDigit = true) :
    c.toUpper ∉ fourthLetters := by
  rw [toUpper_of_isDigit digit]
  intro member
  simp only [fourthLetters, List.mem_cons, List.not_mem_nil, or_false] at member
  rcases member with rfl | rfl | rfl | rfl | rfl | rfl | rfl | rfl <;>
    exact absurd digit (by decide)

/-- A letter is not a digit. -/
theorem isDigit_of_isAlpha {c : Char} (letter : c.isAlpha = true) : c.isDigit = false := by
  by_contra digit
  have range := Decimal.digit_range (Bool.eq_true_of_not_eq_false digit)
  have same : c.val.toNat = c.toNat := rfl
  have large : 'A'.val.toNat = 65 ∧ 'a'.val.toNat = 97 := ⟨rfl, rfl⟩
  simp only [Char.isAlpha, Char.isUpper, Char.isLower, Bool.or_eq_true, Bool.and_eq_true,
    decide_eq_true_eq, ge_iff_le, UInt32.le_iff_toNat_le, same, large] at letter
  omega

/-- A keyword is written as one word of letters or digits, which begins with a digit for numbers
only, and with a fourth letter of a month only for months. -/
theorem elemText_word {k : Keyword} (tells : k.Tells d) (case : Case) :
    (∀ c ∈ elemText d false case k.elem, c.isAlphanum = true) ∧
      ∃ first more, elemText d false case k.elem = first :: more ∧
        (¬ k.IsNumeric → first.isDigit = false) ∧
        (k ≠ .mon → first.toUpper ∉ fourthLetters) := by
  have named {word name : List Char} (spells : Spells word name) {first : Char}
      (isFirst : name.head? = some first) (isMonth : k ≠ .mon → first ∉ fourthLetters) :
      (∀ c ∈ word, c.isAlphanum = true) ∧ ∃ first more, word = first :: more ∧
        (¬ k.IsNumeric → first.isDigit = false) ∧ (k ≠ .mon → first.toUpper ∉ fourthLetters) := by
    obtain ⟨rfl, letters⟩ := spells
    rw [List.all_eq_true] at letters
    refine ⟨fun c member => by rw [Char.isAlphanum, letters c member, Bool.true_or], ?_⟩
    cases word with
    | nil => cases isFirst
    | cons c more =>
        cases isFirst
        exact ⟨c, more, rfl, fun _ => isDigit_of_isAlpha (letters c List.mem_cons_self), isMonth⟩
  by_cases numeric : k.IsNumeric
  · obtain ⟨n, width, isNumber⟩ := number?_of_isNumeric numeric d
    obtain ⟨isText, small, positive, -⟩ := elemText_number isNumber tells case
    have digits := allDigits_zeroPadded width n
    have length := length_zeroPadded small positive
    rw [isText]
    obtain ⟨first, more, isFirst⟩ : ∃ first more, zeroPadded width n = first :: more := by
      refine List.exists_cons_of_ne_nil fun empty => ?_
      rw [empty] at length
      exact positive.ne length
    refine ⟨fun c member => ?_, first, more, isFirst, fun other => absurd numeric other, fun _ => ?_⟩
    · rw [Char.isAlphanum, digits c member, Bool.or_true]
    · exact not_fourth_of_isDigit (digits first (isFirst ▸ List.mem_cons_self))
  · cases k with
    | mon =>
        obtain ⟨first, isFirst⟩ : ∃ first,
            ((months.getD (d.month - 1) []).take 3).head? = some first := by
          have all : ∀ index < 12, (((months.getD index []).take 3).head?).isSome = true := by decide
          have month := d.month_bounds
          exact Option.isSome_iff_exists.mp (all (d.month - 1) (by omega))
        exact named (spells_month d case) isFirst fun other => absurd rfl other
    | meridian mark =>
        show (∀ c ∈ elemText d false case .am, _) ∧ ∃ _ _, elemText d false case .am = _ ∧ _
        rcases half_cases d case with ⟨-, isText⟩ | ⟨-, isText⟩ <;> rw [isText]
        · exact named (spells_meridian (Or.inl rfl) case) rfl fun _ => by decide
        · exact named (spells_meridian (Or.inr rfl) case) rfl fun _ => by decide
    | _ => exact absurd trivial numeric

/-! ## What is read -/

section Read

variable {unicode} {input rest : List Char} {r : Reading} {case : Case}

/-- A number below 2^31 fits i32. -/
theorem asI32_small {n : Nat} (small : n < 2 ^ 31) : asI32 n = n := by
  unfold asI32
  rw [Int.bmod_eq_of_le] <;> omega

/-- So does an integer. -/
theorem i32_small {n : Int} (low : 0 ≤ n) (high : n < 2 ^ 31) : i32 n = .ok n :=
  if_pos ⟨by omega, high⟩

/-- Two digits tell a year of the hundred years. -/
theorem rrYear_tells (tells : Keyword.rr.Tells d) :
    rrYear (d.year % 100).toNat 2 = .ok d.year := by
  unfold Keyword.Tells at tells
  rw [rrYear, if_neg (by decide), asI32_small (by omega)]
  split
  · rw [i32_small (by omega) (by omega)]
    congr 1
    omega
  · rw [i32_small (by omega) (by omega)]
    congr 1
    omega

/-- A number that is written with as many digits as are read is recorded. -/
theorem readNumber_padded {k : Keyword} {n width : Nat} (isNumber : k.number? d = some (n, width))
    (tells : k.Tells d)
    (found : dropBytes input r.offset = some (elemText d false case k.elem ++ rest))
    (record : Nat → Reading → Reading) :
    readNumber input r width record
      = .ok { record n r with offset := r.offset + (elemText d false case k.elem).length } := by
  obtain ⟨isText, small, positive, few⟩ := elemText_number isNumber tells case
  rw [isText] at found ⊢
  rw [readNumber, number_padded found small positive (by omega), length_zeroPadded small positive]
  rfl

/-- A keyword's word is read as what it records, unless a longer number or name is found there. -/
theorem readElem_keyword {k : Keyword} (tells : k.Tells d)
    (ascii : Ascii (elemText d false case k.elem ++ rest))
    (found : dropBytes input r.offset = some (elemText d false case k.elem ++ rest))
    (noDigit : k = .rr → ∀ c ∈ rest.head?, c.isDigit = false)
    (noLetter : k = .mon → ∀ c ∈ rest.head?, c.toUpper ∉ fourthLetters) :
    readElem unicode input r k.elem
      = .ok { k.record d r with offset := r.offset + (elemText d false case k.elem).length } := by
  have upper := upperRest_at unicode found
  rw [toUppercase_ascii unicode ascii, List.map_append] at upper
  cases k with
  | yyyy =>
      have year : asI32 d.year.toNat = d.year := by
        unfold Keyword.Tells at tells
        rw [asI32_small (by omega)]
        omega
      rw [Keyword.elem, readElem, readNumber_padded (k := .yyyy) rfl tells found, year]
      rfl
  | rr =>
      obtain ⟨isText, small, positive, -⟩ := elemText_number (k := .rr) rfl tells case
      rw [isText] at found ⊢
      rw [Keyword.elem, readElem, number_short found small positive (by decide) (by decide)
        (noDigit rfl), length_zeroPadded small positive]
      show (do
        return { r with offset := r.offset + 2, year := some (← rrYear (d.year % 100).toNat 2) }
          : Outcome Reading) = _
      rw [rrYear_tells tells]
      rfl
  | mm =>
      rw [Keyword.elem, readElem, readNumber_padded (k := .mm) rfl tells found]
      rfl
  | dd =>
      rw [Keyword.elem, readElem, readNumber_padded (k := .dd) rfl tells found]
      rfl
  | hh24 =>
      rw [Keyword.elem, readElem, readNumber_padded (k := .hh24) rfl tells found]
      rfl
  | hh12 =>
      rw [Keyword.elem, readElem, readNumber_padded (k := .hh12) rfl tells found]
      rfl
  | mi =>
      rw [Keyword.elem, readElem, readNumber_padded (k := .mi) rfl tells found]
      rfl
  | ss =>
      rw [Keyword.elem, readElem, readNumber_padded (k := .ss) rfl tells found]
      rfl
  | mon =>
      obtain ⟨name, -⟩ := spells_month d case
      have month := d.month_bounds
      have length : (elemText d false case .mon).length = 3 := by
        have three : ∀ index < 12, ((months.getD index []).take 3).length = 3 := by decide
        have named := congrArg List.length name
        rwa [List.length_map, three (d.month - 1) (by omega)] at named
      have stops : ∀ c ∈ (rest.map Char.toUpper).head?, c ∉ fourthLetters := by
        intro c isHead
        rw [List.head?_map] at isHead
        obtain ⟨first, isFirst, rfl⟩ := Option.map_eq_some_iff.mp isHead
        exact noLetter rfl first isFirst
      have isName : (elemText d false case .mon).map Char.toUpper
          = (months.getD (d.month - 1) []).take 3 := name
      have number : u32 (d.month - 1 + 1) = .ok d.month := by
        rw [u32, if_pos (by omega), Nat.sub_add_cancel month.1]
      rw [Keyword.elem, isName] at upper
      rw [Keyword.elem, readElem, upper, length]
      simp only [bind, Except.bind]
      rw [findName_month month stops]
      show (do return { r with offset := r.offset + 3, month := ← u32 (d.month - 1 + 1) }
        : Outcome Reading) = _
      rw [number]
      rfl
  | meridian mark =>
      rw [Keyword.elem] at upper
      rcases half_cases d case with ⟨morning, isText⟩ | ⟨afternoon, isText⟩
      · obtain ⟨name, -⟩ := spells_meridian (Or.inl rfl) case
        have length := congrArg List.length name
        have isFalse : (12 ≤ d.hour : Bool) = false := decide_eq_false (by omega)
        rw [isText, name] at upper
        rw [List.length_map] at length
        rw [Keyword.elem, readElem, upper, isText, length, Keyword.record, isFalse]
        rfl
      · obtain ⟨name, -⟩ := spells_meridian (Or.inr rfl) case
        have length := congrArg List.length name
        have isTrue : (12 ≤ d.hour : Bool) = true := decide_eq_true afternoon
        rw [isText, name] at upper
        rw [List.length_map] at length
        rw [Keyword.elem, readElem, upper, isText, length, Keyword.record, isTrue]
        rfl

end Read

end MockOracle.Datetime
