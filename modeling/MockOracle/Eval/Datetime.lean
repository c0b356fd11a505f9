import MockOracle.Core.Chrono
import MockOracle.Core.Unicode
import MockOracle.Eval.StoreValue
import MockOracle.Semantics.Decimal
import MockOracle.Semantics.Text

/-!
# Date format models

`datetime.rs`: TO_CHAR and TO_DATE of date/times. A format is split into elements; `format` writes
each of them and `parse` reads them in turn. Texts are read at byte offsets into their UTF-8 form,
and whatever would be a panic of the process is an outcome of its own.
-/

namespace MockOracle.Datetime

open Semantics

variable (unicode : Unicode)

/-- The names of the months, as formats print and read them. -/
def months : List (List Char) :=
  ["JANUARY", "FEBRUARY", "MARCH", "APRIL", "MAY", "JUNE", "JULY", "AUGUST", "SEPTEMBER",
    "OCTOBER", "NOVEMBER", "DECEMBER"].map String.toList

/-- The names of the days, from Monday on. -/
def days : List (List Char) :=
  ["MONDAY", "TUESDAY", "WEDNESDAY", "THURSDAY", "FRIDAY", "SATURDAY", "SUNDAY"].map String.toList

/-- The elements of a date format. -/
inductive Elem where
  | yyyy | yy | rr | mm | mon | month | dd | ddd | d | dy | day | hh24 | hh12 | mi | ss
  | ff (precision : Nat)
  | am
  /-- The local radix character. -/
  | x
  | fm
  | literal (text : List Char)
  deriving DecidableEq, Repr

/-- Letter case of a format element, which is mirrored in month and day names. -/
inductive Case where
  | upper | capital | lower
  deriving DecidableEq, Repr

/-- The case a name is printed in, read off the first two characters of its element. -/
def caseOf (text : List Char) : Case :=
  match text[0]?.any unicode.isUppercase, text[1]?.any unicode.isUppercase with
  | true, true => .upper
  | true, false => .capital
  | _, _ => .lower

/-- The names that are put in a case are ASCII. -/
def applyCase (text : List Char) : Case → List Char
  | .upper => text.map Char.toUpper
  | .lower => text.map Char.toLower
  | .capital =>
      match text.map Char.toLower with
      | [] => []
      | first :: rest => first.toUpper :: rest

/-! ## Elements of a format -/

/-- The text begins with a keyword, in any letter case of ASCII. -/
def starts (text keyword : List Char) : Bool := keyword.isPrefixOf (text.map Char.toUpper)

/-- Keywords in the order they are tried. -/
def table : List (List Char × Elem) :=
  [("YYYY", Elem.yyyy), ("RRRR", .yyyy), ("YY", .yy), ("RR", .rr), ("MONTH", .month), ("MON", .mon),
    ("MM", .mm), ("DDD", .ddd), ("DD", .dd), ("DAY", .day), ("DY", .dy), ("D", .d), ("HH24", .hh24),
    ("HH12", .hh12), ("HH", .hh12), ("MI", .mi), ("SS", .ss), ("AM", .am), ("PM", .am),
    ("A.M.", .am), ("P.M.", .am), ("FM", .fm), ("X", .x)].map fun entry => (entry.1.toList, entry.2)

/-- The punctuation that a date format may hold. -/
def isPunctuation (c : Char) : Bool :=
  c = '-' || c = '/' || c = ',' || c = '.' || c = ';' || c = ':' || c = ' '

/-- ORA-01821, for a format with an unknown element. -/
def badFormat : OraError := ⟨1821, "date format not recognized"⟩

/-- The first element of what is left of a format, and its length. -/
def nextElem : List Char → Except OraError (Elem × Nat)
  | [] => .error badFormat
  | c :: rest =>
      if c = '"' then
        match rest.findIdx? (· = '"') with
        | some stop => .ok (.literal (rest.take stop), stop + 2)
        | none => .error badFormat
      else if isPunctuation c then .ok (.literal [c], 1)
      else if starts (c :: rest) "FF".toList then
        match rest[1]? with
        | some digit =>
            if digit.isDigit && digit != '0' then .ok (.ff (digit.toNat - 48), 3)
            else .ok (.ff 9, 2)
        | none => .ok (.ff 9, 2)
      else
        match table.find? fun entry => starts (c :: rest) entry.1 with
        | some (keyword, e) => .ok (e, keyword.length)
        | none => .error badFormat

/-- The elements of a format from some character on. -/
def tokenizeFrom : Nat → List Char → Except OraError (List (Elem × Case))
  | _, [] => .ok []
  | skip + 1, _ :: rest => tokenizeFrom skip rest
  | 0, c :: rest => do
      let (e, length) ← nextElem (c :: rest)
      return (e, caseOf unicode (c :: rest)) :: (← tokenizeFrom (length - 1) rest)

/-- The elements of a format, each with the case it is written in. -/
def tokenize (fmt : List Char) : Except OraError (List (Elem × Case)) := tokenizeFrom unicode 0 fmt

/-! ## TO_CHAR -/

/-- At least `width` digits. -/
def zeroPadded (width n : Nat) : List Char := (Nat.toDigits 10 n).leftpad width '0'

/-- A number, filled up with zeros unless FM is on. -/
def pad (n width : Nat) (fm : Bool) : List Char :=
  if fm then Nat.toDigits 10 n else zeroPadded width n

/-- `{:02}` of a number with a sign, which counts as one of the places. -/
def signedPair (n : Int) : List Char :=
  if n < 0 then '-' :: zeroPadded 1 n.natAbs else zeroPadded 2 n.natAbs

/-- `{:<9}`. -/
def nameField (name : List Char) (fm : Bool) : List Char := if fm then name else name.rightpad 9 ' '

/-- The hour on a clock face. -/
def clockHour (hour : Nat) : Nat := if hour % 12 = 0 then 12 else hour % 12

/-- What one element prints of a date. -/
def elemText (d : NaiveDateTime) (fm : Bool) (case : Case) : Elem → List Char
  | .yyyy => pad (d.year % 2 ^ 32).toNat 4 fm
  | .yy | .rr => signedPair (d.year.tmod 100)
  | .mm => pad d.month 2 fm
  | .mon => applyCase ((months.getD (d.month - 1) []).take 3) case
  | .month => nameField (applyCase (months.getD (d.month - 1) []) case) fm
  | .dd => pad d.day 2 fm
  | .ddd => pad d.ordinal 3 fm
  | .d => Nat.toDigits 10 ((d.weekday + 1) % 7 + 1)
  | .dy => applyCase ((days.getD d.weekday []).take 3) case
  | .day => nameField (applyCase (days.getD d.weekday []) case) fm
  | .hh24 => pad d.hour 2 fm
  | .hh12 => pad (clockHour d.hour) 2 fm
  | .mi => pad d.minute 2 fm
  | .ss => pad d.second 2 fm
  | .ff precision => (zeroPadded 9 (d.nanos % 1000000000)).take precision
  | .am => applyCase (if d.hour < 12 then "AM".toList else "PM".toList) case
  | .x => ['.']
  | .fm => []
  | .literal text => text

/-- The texts of the elements; FM switches padding off and on again. -/
def formatFrom (d : NaiveDateTime) : Bool → List (Elem × Case) → List Char
  | _, [] => []
  | fm, (e, case) :: rest =>
      elemText d fm case e ++ formatFrom d (if e = .fm then !fm else fm) rest

/-- How a date/time is shown when there is no format: years outside four digits have a sign, and
the fraction has as many groups of three digits as it needs. -/
def displayed (d : NaiveDateTime) : List Char :=
  let year :=
    if 0 ≤ d.year ∧ d.year ≤ 9999 then zeroPadded 4 d.year.toNat
    else (if d.year < 0 then '-' else '+') :: zeroPadded 4 d.year.natAbs
  let (second, nano) :=
    if 1000000000 ≤ d.nanos then (d.second + 1, d.nanos - 1000000000) else (d.second, d.nanos)
  let fraction :=
    if nano = 0 then []
    else if nano % 1000000 = 0 then '.' :: zeroPadded 3 (nano / 1000000)
    else if nano % 1000 = 0 then '.' :: zeroPadded 6 (nano / 1000)
    else '.' :: zeroPadded 9 nano
  year ++ '-' :: zeroPadded 2 d.month ++ '-' :: zeroPadded 2 d.day ++ ' ' :: zeroPadded 2 d.hour
    ++ ':' :: zeroPadded 2 d.minute ++ ':' :: zeroPadded 2 second ++ fraction

/-- The text of a date in a format; a bad format falls back to the displayed date. -/
def format (d : NaiveDateTime) (fmt : String) : String :=
  match tokenize unicode fmt.toList with
  | .ok elems => String.ofList (formatFrom d false elems)
  | .error _ => String.ofList (displayed d)

/-! ## TO_DATE -/

/-- How a call ends that does not return a value. -/
inductive Failure where
  | error (e : OraError)
  | panic
  deriving DecidableEq, Repr

/-- What reading a date ends in: a result, an error or a panic. -/
abbrev Outcome := Except Failure

/-- Reading that ends in an error. -/
def fail (code : Nat) (message : String) : Outcome α := .error (.error ⟨code, message⟩)

/-- `unwrap`, and slices and arithmetic that have no result. -/
def orPanic : Option α → Outcome α
  | some a => .ok a
  | none => .error .panic

/-- The result of an operation on `u32`. -/
def u32 (n : Nat) : Outcome Nat := if n < 2 ^ 32 then .ok n else .error .panic

/-- The result of an operation on `i32`. -/
def i32 (n : Int) : Outcome Int := if -2 ^ 31 ≤ n ∧ n < 2 ^ 31 then .ok n else .error .panic

/-- A `u32` as an `i32`. -/
def asI32 (n : Nat) : Int := (n : Int).bmod (2 ^ 32)

/-- A text without a leading plus sign. -/
def dropPlus : List Char → List Char
  | '+' :: rest => rest
  | text => text

/-- The number of a text, if it fits in a `u32`. -/
def parseU32 (text : List Char) : Option Nat :=
  (Decimal.readDigits (dropPlus text)).filter (· < 2 ^ 32)

def isAsciiDigit (b : UInt8) : Bool := 48 ≤ b.toNat && b.toNat ≤ 57

def isAsciiAlphanumeric (b : UInt8) : Bool :=
  isAsciiDigit b || (65 ≤ b.toNat && b.toNat ≤ 90) || (97 ≤ b.toNat && b.toNat ≤ 122)

/-- What was read so far, and where the rest starts. -/
structure Reading where
  offset : Nat := 0
  year : Option Int := none
  month : Nat := 1
  day : Nat := 1
  hour : Nat := 0
  minute : Nat := 0
  second : Nat := 0
  nanos : Nat := 0
  pm : Option Bool := none
  hour12 : Bool := false
  deriving DecidableEq, Repr

section Read

variable (input : List Char)

/-- A number of at most `max` digits and how many it has. -/
def number (offset max : Nat) : Outcome (Nat × Nat) := do
  let length := ((((Text.bytes input).drop offset).take max).takeWhile isAsciiDigit).length
  if length = 0 then
    fail 1858 "a non-numeric character was found where a numeric was expected"
  else
    let digits ← orPanic (Text.slice input offset (offset + length))
    return (← orPanic (parseU32 digits), length)

/-- `input[i..].to_uppercase()` -/
def upperRest (offset : Nat) : Outcome (List Char) := do
  return unicode.toUppercase (← orPanic (Text.dropBytes input offset))

/-- The first of the names that the text begins with, or with its first three letters, and the
length of what was found. -/
def findName (names : List (List Char)) (rest : List Char) : Option (Nat × Nat) :=
  (names.findIdx? fun name => name.isPrefixOf rest || (name.take 3).isPrefixOf rest).map fun index =>
    let name := names.getD index []
    (index, if name.isPrefixOf rest then name.length else 3)

/-- Whether it is a PM mark, and its length. -/
def findMeridian (rest : List Char) : Option (Bool × Nat) :=
  if "PM".toList.isPrefixOf rest then some (true, 2)
  else if "AM".toList.isPrefixOf rest then some (false, 2)
  else if "P.M.".toList.isPrefixOf rest then some (true, 4)
  else if "A.M.".toList.isPrefixOf rest then some (false, 4)
  else none

/-- Reads a number and records it. -/
def readNumber (r : Reading) (max : Nat) (record : Nat → Reading → Reading) : Outcome Reading := do
  let (n, length) ← number input r.offset max
  return { record n r with offset := r.offset + length }

/-- The year of RR: two digits are of the years from 1950 on. -/
def rrYear (n length : Nat) : Outcome Int :=
  if 2 < length then .ok (asI32 n)
  else if n < 50 then i32 (2000 + asI32 n)
  else i32 (1900 + asI32 n)

/-- The nanoseconds of a fraction with so many digits. -/
def fractionNanos (n length : Nat) : Outcome Nat :=
  if length ≤ 9 then do u32 (n * (← u32 (10 ^ (9 - length)))) else .error .panic

/-- One element of the format reads its part of the input. -/
def readElem (r : Reading) : Elem → Outcome Reading
  | .yyyy => readNumber input r 4 fun n r => { r with year := some (asI32 n) }
  | .yy => do
      let (n, length) ← number input r.offset 2
      return { r with offset := r.offset + length, year := some (← i32 (2000 + asI32 n)) }
  | .rr => do
      let (n, length) ← number input r.offset 4
      return { r with offset := r.offset + length, year := some (← rrYear n length) }
  | .mm => readNumber input r 2 fun n r => { r with month := n }
  | .mon | .month => do
      let rest ← upperRest unicode input r.offset
      match findName months rest with
      | some (index, length) =>
          return { r with offset := r.offset + length, month := ← u32 (index + 1) }
      | none => fail 1843 "not a valid month"
  | .dd => readNumber input r 2 fun n r => { r with day := n }
  | .ddd | .d => readNumber input r 3 fun _ r => r
  | .dy | .day => do
      let rest ← upperRest unicode input r.offset
      match findName days rest with
      | some (_, length) => return { r with offset := r.offset + length }
      | none => fail 1846 "not a valid day of the week"
  | .hh24 => readNumber input r 2 fun n r => { r with hour := n }
  | .hh12 => readNumber input r 2 fun n r => { r with hour := n, hour12 := true }
  | .mi => readNumber input r 2 fun n r => { r with minute := n }
  | .ss => readNumber input r 2 fun n r => { r with second := n }
  | .ff _ => do
      let (n, length) ← number input r.offset 9
      return { r with offset := r.offset + length, nanos := ← fractionNanos n length }
  | .am => do
      let rest ← upperRest unicode input r.offset
      match findMeridian rest with
      | some (isPm, length) => return { r with offset := r.offset + length, pm := some isPm }
      | none => fail 1855 "AM/A.M. or PM/P.M. required"
  | .x =>
      if (Text.bytes input)[r.offset]? = some 46 then .ok { r with offset := r.offset + 1 }
      else .ok r
  | .fm => .ok r
  | .literal text =>
      -- Any punctuation matches any punctuation.
      if text.all fun c => !unicode.isAlphanumeric c then
        let skipped := ((Text.bytes input).drop r.offset).takeWhile fun b => !isAsciiAlphanumeric b
        .ok { r with offset := r.offset + skipped.length }
      else do
        let rest ← upperRest unicode input r.offset
        if (unicode.toUppercase text).isPrefixOf rest then
          return { r with offset := r.offset + Text.size text }
        else fail 1861 "literal does not match format string"

/-- The hour of the day, from the one that was read. -/
def hourOfDay (r : Reading) : Outcome Nat :=
  if r.hour12 || r.pm.isSome then
    if 1 ≤ r.hour ∧ r.hour ≤ 12 then
      if r.pm = some true then u32 (r.hour % 12 + 12) else .ok (r.hour % 12)
    else fail 1849 "hour must be between 1 and 12"
  else .ok r.hour

/-- The date/time of what was read. A date without a year is in the current one. -/
def finish (currentYear : Int) (r : Reading) : Outcome NaiveDateTime := do
  if r.offset < (Text.bytes input).length then
    fail 1830 "date format picture ends before converting entire input string"
  else
    let hour ← hourOfDay r
    if 23 < hour then fail 1850 "hour must be between 0 and 23"
    else if 59 < r.minute then fail 1851 "minutes must be between 0 and 59"
    else if 59 < r.second then fail 1852 "seconds must be between 0 and 59"
    else if ¬ (1 ≤ r.month ∧ r.month ≤ 12) then fail 1843 "not a valid month"
    else
      match fromYmdOpt (r.year.getD currentYear) r.month r.day with
      | none => fail 1839 "date not valid for month specified"
      | some date => orPanic (andHmsNanoOpt date hour r.minute r.second r.nanos)

/-- The elements of the format read the input, one after the other. -/
def readElems (r : Reading) (elems : List (Elem × Case)) : Outcome Reading :=
  elems.foldlM (fun r e => readElem unicode input r e.1) r

end Read

/-- Lenient about separators and zero padding. -/
def parse (currentYear : Int) (s fmt : String) : Outcome NaiveDateTime := do
  let elems ← (tokenize unicode fmt.toList).mapError Failure.error
  let input := (trim s).toList
  finish input currentYear (← readElems unicode input {} elems)

end MockOracle.Datetime
