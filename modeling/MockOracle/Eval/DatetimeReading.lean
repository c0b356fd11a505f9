import MockOracle.Eval.Datetime

/-!
# Reading the elements of a date format

What the readers of `parse` do at an offset where a character starts, in terms of the characters
from there on: a number takes digits up to its limit, a name takes its letters and punctuation takes
everything that is neither letter nor digit.
-/

namespace MockOracle.Datetime

open Semantics Semantics.Text

/-! ## Numbers -/

/-- Bytes and characters agree on the ASCII digits. -/
theorem isAsciiDigit_ofNat {c : Char} (ascii : c.toNat < 128) :
    isAsciiDigit (UInt8.ofNat c.toNat) = c.isDigit := by
  have low : c.toNat % 256 = c.toNat := Nat.mod_eq_of_lt (by omega)
  have isDigit : c.isDigit = (48 ≤ c.toNat && c.toNat ≤ 57 : Bool) := rfl
  rw [isDigit, isAsciiDigit, UInt8.toNat_ofNat', low]

/-- Bytes and characters agree on ASCII letters and digits. -/
theorem isAsciiAlphanumeric_ofNat {c : Char} (ascii : c.toNat < 128) :
    isAsciiAlphanumeric (UInt8.ofNat c.toNat) = c.isAlphanum := by
  have low : c.toNat % 256 = c.toNat := Nat.mod_eq_of_lt (by omega)
  have isUpper : c.isUpper = (65 ≤ c.toNat && c.toNat ≤ 90 : Bool) := by
    simp [Char.isUpper, UInt32.le_iff_toNat_le, ← Char.toNat_val]
  have isLower : c.isLower = (97 ≤ c.toNat && c.toNat ≤ 122 : Bool) := by
    simp [Char.isLower, UInt32.le_iff_toNat_le, ← Char.toNat_val]
  rw [Char.isAlphanum, Char.isAlpha, isUpper, isLower, isAsciiAlphanumeric,
    isAsciiDigit_ofNat ascii, UInt8.toNat_ofNat', low]
  ac_rfl

/-- A run of digits in the bytes is one of characters. -/
theorem takeWhile_digits (text : List Char) :
    (bytes text).takeWhile isAsciiDigit = bytes (text.takeWhile Char.isDigit) := by
  induction text with
  | nil => rfl
  | cons c rest ih =>
      by_cases ascii : c.toNat < 128
      · rw [bytes_cons, utf8EncodeChar_ascii ascii, List.singleton_append, List.takeWhile_cons,
          isAsciiDigit_ofNat ascii, List.takeWhile_cons, ih]
        split
        · rw [bytes_cons, utf8EncodeChar_ascii ascii, List.singleton_append]
        · rfl
      · have notDigit : ¬ c.isDigit = true := by
          intro digit
          have := Decimal.digit_range digit
          omega
        rw [bytes_cons, List.takeWhile_cons, if_neg notDigit]
        obtain ⟨b, more, encoded⟩ := List.exists_cons_of_ne_nil (String.utf8EncodeChar_ne_nil (c := c))
        have high : 128 ≤ b.toNat :=
          high_of_mem (Nat.le_of_not_lt ascii) (encoded ▸ List.mem_cons_self)
        have other : ¬ isAsciiDigit b = true := by
          simp only [isAsciiDigit, Bool.and_eq_true, decide_eq_true_eq, not_and]
          omega
        rw [encoded, List.cons_append, List.takeWhile_cons, if_neg other]
        rfl

/-- ORA-01858, a character where a digit was expected. -/
def notNumeric : OraError := ⟨1858, "a non-numeric character was found where a numeric was expected"⟩

/-- Digits are ASCII. -/
theorem ascii_digits {digits : List Char} (allDigits : Decimal.AllDigits digits) : Ascii digits := by
  intro c member
  have := Decimal.digit_range (allDigits c member)
  omega

/-- Few digits are read as their number. -/
theorem parseU32_digits {digits : List Char} (allDigits : Decimal.AllDigits digits)
    (some_ : digits ≠ []) (few : digits.length ≤ 9) :
    parseU32 digits = some (Nat.ofDigitChars 10 digits 0) := by
  have small : Nat.ofDigitChars 10 digits 0 < 2 ^ 32 := by
    have below := Decimal.ofDigitChars_lt allDigits
    have := Nat.pow_le_pow_right (show 0 < 10 by decide) few
    omega
  have unsigned : dropPlus digits = digits := by
    unfold dropPlus
    split
    · exact absurd (allDigits '+' List.mem_cons_self) (by decide)
    · rfl
  rw [parseU32, unsigned, Decimal.readDigits, if_pos ⟨some_, allDigits⟩, Option.filter_some,
    if_pos (decide_eq_true small)]

/-- A number is read off the digits at the front, at most as many as are asked for. -/
theorem number_length (input : List Char) (offset max : Nat) :
    number input offset max =
      (let length := (((bytes input).drop offset).takeWhile isAsciiDigit).length
      if min max length = 0 then .error (.error notNumeric)
      else do
        let digits ← orPanic (Text.slice input offset (offset + min max length))
        return (← orPanic (parseU32 digits), min max length)) := by
  rw [number, ← List.take_takeWhile]
  simp only [List.length_take]
  rfl

/-- Where a character starts, a number is the digits from there on, up to its limit. -/
theorem number_at {input rest : List Char} {offset max : Nat}
    (found : dropBytes input offset = some rest) (few : max ≤ 9) :
    number input offset max =
      match (rest.takeWhile Char.isDigit).take max with
      | [] => .error (.error notNumeric)
      | digits => .ok (Nat.ofDigitChars 10 digits 0, digits.length) := by
  obtain ⟨before, rfl, rfl⟩ := dropBytes_eq_some found
  obtain ⟨digits, isDigits⟩ : ∃ digits, (rest.takeWhile Char.isDigit).take max = digits := ⟨_, rfl⟩
  have runDigits : Decimal.AllDigits (rest.takeWhile Char.isDigit) :=
    fun c member => List.mem_takeWhile_imp member
  have allDigits : Decimal.AllDigits digits := by
    intro c member
    rw [← isDigits] at member
    exact runDigits c (List.mem_of_mem_take member)
  have length : min max (((bytes (before ++ rest)).drop (size before)).takeWhile isAsciiDigit).length
      = digits.length := by
    rw [bytes_append, size, List.drop_left, takeWhile_digits, bytes_ascii (ascii_digits runDigits),
      List.length_map, ← isDigits, List.length_take]
  have split : rest = digits ++ rest.drop digits.length := by
    have front : digits <+: rest := isDigits ▸ (List.take_prefix _ _).trans (List.takeWhile_prefix _)
    exact (List.prefix_iff_eq_append.mp front).symm
  rw [number_length]
  simp only [length, isDigits]
  cases digits with
  | nil => rfl
  | cons first more =>
      have sliced : Text.slice (before ++ rest) (size before) (size before + (first :: more).length)
          = some (first :: more) := by
        rw [← size_ascii (ascii_digits allDigits), split]
        simpa using slice_size before (first :: more) (rest.drop (first :: more).length)
      have few' : (first :: more).length ≤ 9 := by
        rw [← isDigits, List.length_take]
        omega
      rw [if_neg (by simp), sliced]
      show (do return (← orPanic (parseU32 (first :: more)), (first :: more).length)) = _
      rw [parseU32_digits allDigits (List.cons_ne_nil _ _) few']
      rfl

/-- Elsewhere there is no digit. -/
theorem number_elsewhere {input : List Char} {offset : Nat} (missed : dropBytes input offset = none)
    (max : Nat) : number input offset max = .error (.error notNumeric) := by
  have none : ((bytes input).drop offset).takeWhile isAsciiDigit = [] := by
    cases left : (bytes input).drop offset with
    | nil => rfl
    | cons b after =>
        rw [List.takeWhile_cons]
        split
        · next digit =>
            have low : b.toNat < 128 := by
              simp only [isAsciiDigit, Bool.and_eq_true, decide_eq_true_eq] at digit
              omega
            obtain ⟨before, c, rest, rfl, length, -⟩ := start_of_ascii left low
            rw [← length, dropBytes_size] at missed
            cases missed
        · rfl
  rw [number_length, none]
  simp

/-! ## Padded numbers -/

section Padded

variable {width n : Nat}

/-- A zero-padded number has digits only. -/
theorem allDigits_zeroPadded (width n : Nat) : Decimal.AllDigits (zeroPadded width n) := by
  intro c member
  rcases List.mem_append.mp member with zero | digit
  · rw [List.eq_of_mem_replicate zero]
    rfl
  · exact Decimal.allDigits_toDigits n c digit

/-- A number that fits its width has that many digits. -/
theorem length_zeroPadded (small : n < 10 ^ width) (some_ : 0 < width) :
    (zeroPadded width n).length = width := by
  have short : (Nat.toDigits 10 n).length ≤ width :=
    (Nat.length_toDigits_le_iff (by decide) some_).mpr small
  rw [zeroPadded, List.length_leftpad]
  exact max_eq_left short

/-- A zero-padded number is read as itself. -/
theorem ofDigitChars_zeroPadded (width n : Nat) :
    Nat.ofDigitChars 10 (zeroPadded width n) 0 = n := by
  rw [zeroPadded, List.leftpad, Decimal.ofDigitChars_zeros_append]
  exact Nat.ofDigitChars_toDigits (by decide) (by decide)

end Padded

/-- A padded number is read where the limit is its width. -/
theorem number_padded {input rest : List Char} {offset width n : Nat}
    (found : dropBytes input offset = some (zeroPadded width n ++ rest)) (small : n < 10 ^ width)
    (some_ : 0 < width) (few : width ≤ 9) : number input offset width = .ok (n, width) := by
  have length := length_zeroPadded small some_
  have front : ((zeroPadded width n ++ rest).takeWhile Char.isDigit).take width
      = zeroPadded width n := by
    rw [List.takeWhile_append_of_pos (allDigits_zeroPadded width n)]
    exact List.take_left' length
  rw [number_at found few, front]
  split
  · next none =>
      rw [none] at length
      exact absurd length some_.ne
  · rw [ofDigitChars_zeroPadded, length]

/-- Where no digit follows, a number is read that has fewer digits than the limit. -/
theorem number_short {input rest : List Char} {offset width max n : Nat}
    (found : dropBytes input offset = some (zeroPadded width n ++ rest)) (small : n < 10 ^ width)
    (some_ : 0 < width) (shorter : width ≤ max) (few : max ≤ 9)
    (stops : ∀ c ∈ rest.head?, c.isDigit = false) : number input offset max = .ok (n, width) := by
  have length := length_zeroPadded small some_
  have after : rest.takeWhile Char.isDigit = [] := by
    cases rest with
    | nil => rfl
    | cons c rest => rw [List.takeWhile_cons, stops c rfl, if_neg Bool.false_ne_true]
  have front : ((zeroPadded width n ++ rest).takeWhile Char.isDigit).take max
      = zeroPadded width n := by
    rw [List.takeWhile_append_of_pos (allDigits_zeroPadded width n), after, List.append_nil]
    exact List.take_of_length_le (length.le.trans shorter)
  rw [number_at found few, front]
  split
  · next none =>
      rw [none] at length
      exact absurd length some_.ne
  · rw [ofDigitChars_zeroPadded, length]

/-- Where a character other than a digit stands, there is no number. -/
theorem number_missing {input rest : List Char} {offset max : Nat}
    (found : dropBytes input offset = some rest) (few : max ≤ 9)
    (none : ∀ c ∈ rest.head?, c.isDigit = false) :
    number input offset max = .error (.error notNumeric) := by
  have empty : rest.takeWhile Char.isDigit = [] := by
    cases rest with
    | nil => rfl
    | cons c rest => rw [List.takeWhile_cons, none c rfl, if_neg Bool.false_ne_true]
  rw [number_at found few, empty, List.take_nil]

/-! ## Names -/

/-- Past a first part is the rest. -/
theorem dropBytes_past {input part rest : List Char} {offset : Nat}
    (found : dropBytes input offset = some (part ++ rest)) :
    dropBytes input (offset + size part) = some rest := by
  obtain ⟨before, rfl, rfl⟩ := dropBytes_eq_some found
  rw [← List.append_assoc, ← size_append]
  exact dropBytes_size (before ++ part) rest

/-- An ASCII text is uppercased character by character. -/
theorem toUppercase_ascii (unicode : Unicode) {text : List Char} (ascii : Ascii text) :
    unicode.toUppercase text = text.map Char.toUpper := by
  induction text with
  | nil => rfl
  | cons c rest ih =>
      have more : unicode.toUppercase rest = rest.map Char.toUpper :=
        ih fun d member => ascii d (List.mem_cons_of_mem _ member)
      show unicode.upper c ++ unicode.toUppercase rest = _
      rw [unicode.upper_ascii c (ascii c List.mem_cons_self), more]
      rfl

/-- The rest of the input from a place between two characters is uppercased. -/
theorem upperRest_at (unicode : Unicode) {input rest : List Char} {offset : Nat}
    (found : dropBytes input offset = some rest) :
    upperRest unicode input offset = .ok (unicode.toUppercase rest) := by
  rw [upperRest, found]
  rfl

/-- Conditions that agree on the members find the same one. -/
theorem findIdx?_congr {α : Type} {p q : α → Bool} {xs : List α} (same : ∀ x ∈ xs, p x = q x) :
    xs.findIdx? p = xs.findIdx? q := by
  induction xs with
  | nil => rfl
  | cons x xs ih =>
      rw [List.findIdx?_cons, List.findIdx?_cons, same x List.mem_cons_self,
        ih fun y member => same y (List.mem_cons_of_mem _ member)]

/-- Names are found by their first three letters. -/
theorem findName_three {names : List (List Char)} (long : ∀ name ∈ names, 3 ≤ name.length)
    {three : List Char} (isThree : three.length = 3) (rest : List Char) :
    findName names (three ++ rest) =
      (names.findIdx? fun name => name.take 3 = three).map fun index =>
        (index, if (names.getD index []).isPrefixOf (three ++ rest)
          then (names.getD index []).length else 3) := by
  have same : ∀ name ∈ names,
      (name.isPrefixOf (three ++ rest) || (name.take 3).isPrefixOf (three ++ rest))
        = decide (name.take 3 = three) := by
    intro name member
    have short : (name.take 3).length = three.length := by
      rw [List.length_take, isThree]
      exact min_eq_left (long name member)
    have front : name.take 3 <+: three ++ rest ↔ name.take 3 = three := by
      constructor
      · intro front
        exact (List.prefix_of_prefix_length_le front (List.prefix_append _ _) short.le).eq_of_length
          short
      · intro equal
        rw [equal]
        exact List.prefix_append _ _
    rw [Bool.eq_iff_iff, Bool.or_eq_true, List.isPrefixOf_iff_prefix, List.isPrefixOf_iff_prefix,
      decide_eq_true_iff, front, or_iff_right_iff_imp]
    exact fun whole => front.mp ((List.take_prefix 3 name).trans whole)
  rw [findName, findIdx?_congr same]

/-- The fourth letters of the months. -/
def fourthLetters : List Char := ['U', 'R', 'C', 'I', 'E', 'Y', 'T', 'O']

/-- A short month name is found as such where no fourth letter of a month follows. -/
theorem findName_month {month : Nat} (isMonth : 1 ≤ month ∧ month ≤ 12) {rest : List Char}
    (stops : ∀ c ∈ rest.head?, c ∉ fourthLetters) :
    findName months ((months.getD (month - 1) []).take 3 ++ rest) = some (month - 1, 3) := by
  obtain ⟨index, rfl⟩ : ∃ index, month = index + 1 := ⟨month - 1, by omega⟩
  have small : index < 12 := by omega
  rw [Nat.add_sub_cancel]
  have long : ∀ name ∈ months, 3 ≤ name.length := by decide
  have three : ∀ index < 12, ((months.getD index []).take 3).length = 3 := by decide
  have found :
      months.findIdx? (fun name => name.take 3 = (months.getD index []).take 3) = some index := by
    interval_cases index <;> rfl
  have fourth : ∀ index < 12, (months.getD index []).length = 3 ∨
      (((months.getD index []).drop 3).head?.any fun c => fourthLetters.contains c) = true := by
    decide
  rw [findName_three long (three index small), found, Option.map_some]
  rcases fourth index small with short | longer
  · rw [short, ite_self]
  · obtain ⟨c, isHead, isFourth⟩ := (Option.any_eq_true _ _).mp longer
    have longer : ¬ (months.getD index []).isPrefixOf ((months.getD index []).take 3 ++ rest)
        = true := by
      rw [List.isPrefixOf_iff_prefix]
      intro front
      have longer : (months.getD index []).take 3 ++ (months.getD index []).drop 3
          <+: (months.getD index []).take 3 ++ rest := by
        rwa [List.take_append_drop]
      obtain ⟨more, isRest⟩ := (List.prefix_append_right_inj _).mp longer
      refine stops c ?_ (List.contains_iff_mem.mp isFourth)
      rw [← isRest, List.head?_append, isHead]
      rfl
    rw [if_neg longer]

/-! ## Punctuation -/

/-- Where a character starts, punctuation takes what is neither letter nor digit. -/
theorem skip_at {input rest : List Char} {offset : Nat} (ascii : Ascii rest)
    (found : dropBytes input offset = some rest) :
    ((bytes input).drop offset).takeWhile (fun b => !isAsciiAlphanumeric b)
      = bytes (rest.takeWhile fun c => !c.isAlphanum) := by
  obtain ⟨before, rfl, rfl⟩ := dropBytes_eq_some found
  rw [bytes_append, size, List.drop_left]
  clear found
  induction rest with
  | nil => rfl
  | cons c rest ih =>
      have low : c.toNat < 128 := ascii c List.mem_cons_self
      rw [bytes_cons, utf8EncodeChar_ascii low, List.singleton_append, List.takeWhile_cons,
        isAsciiAlphanumeric_ofNat low, List.takeWhile_cons,
        ih fun d member => ascii d (List.mem_cons_of_mem _ member)]
      split
      · rw [bytes_cons, utf8EncodeChar_ascii low, List.singleton_append]
      · rfl

end MockOracle.Datetime
