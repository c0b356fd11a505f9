import Mathlib

/-!
# SQL values, column types and row keys

`Value` follows `value.rs`. Numbers and date/times come from third-party crates;
they are kept here in the representation those crates document, with exactly the
operations the engine applies to them. `keyString` is the text under which rows
are grouped, indexed and matched against parent keys.
-/

namespace MockOracle

/-- An Oracle error, rendered by the source as `ORA-{code}: {message}`. -/
structure OraError where
  code : Nat
  message : String
  deriving DecidableEq, Repr

namespace OraError

def tableNotFound : OraError := ⟨942, "table or view does not exist"⟩

def invalidIdentifier (name : String) : OraError := ⟨904, name ++ ": invalid identifier"⟩

end OraError

/-- An arbitrary precision decimal: `intVal` times ten to the power `-scale`. -/
structure BigDecimal where
  intVal : Int
  scale : Int
  deriving DecidableEq, Repr

namespace BigDecimal

/-- Drop trailing decimal zeros of a non-zero coefficient, at most `fuel` of them. -/
def stripZeros : Nat → Nat → Int → Nat × Int
  | 0, digits, scale => (digits, scale)
  | fuel + 1, digits, scale =>
      if digits % 10 = 0 then stripZeros fuel (digits / 10) (scale - 1) else (digits, scale)

/-- The representation without trailing zeros; zero has scale zero. -/
def normalized (n : BigDecimal) : BigDecimal :=
  if n.intVal = 0 then ⟨0, 0⟩
  else
    let stripped := stripZeros n.intVal.natAbs n.intVal.natAbs n.scale
    ⟨n.intVal.sign * stripped.1, stripped.2⟩

/-- Plain notation: zeros are appended for a negative scale, otherwise a decimal
point is placed `scale` digits from the right. -/
def plainDigits (digits : String) (scale : Int) : String :=
  if scale ≤ 0 then digits ++ "".pushn '0' scale.natAbs
  else
    let places := scale.toNat
    let padded := ("".pushn '0' (places + 1 - digits.length)) ++ digits
    String.ofList (padded.toList.take (padded.length - places)) ++ "." ++
      String.ofList (padded.toList.drop (padded.length - places))

/-- Scientific notation with one digit before the point. -/
def exponentialDigits (digits : String) (scale : Int) : String :=
  let fraction := digits.toList.drop 1
  let mantissa := String.ofList (digits.toList.take 1) ++
    (if fraction.isEmpty then "" else "." ++ String.ofList fraction)
  let exponent : Int := (digits.length : Int) - scale - 1
  if exponent = 0 then mantissa
  else mantissa ++ "E" ++ (if 0 < exponent then "+" else "-") ++ toString exponent.natAbs

/-- The digits without a point, and the zeros that follow them as an exponent. -/
def dotlessDigits (digits : String) (scale : Int) : String :=
  digits ++ "e" ++ (if scale < 0 then "+" else "-") ++ toString scale.natAbs

/-- `Display`: plain notation unless more than five zeros stand between the point and the
digits, or more than fifteen follow them. -/
def toText (n : BigDecimal) : String :=
  let digits := toString n.intVal.natAbs
  let leadingZeros : Int := n.scale - digits.length
  let body :=
    if 5 < leadingZeros then exponentialDigits digits n.scale
    else if 15 < -n.scale then dotlessDigits digits n.scale
    else plainDigits digits n.scale
  if n.intVal < 0 then "-" ++ body else body

end BigDecimal

/-- A date and time without time zone: the Unix timestamp in seconds and the
nanoseconds within that second. -/
structure NaiveDateTime where
  timestamp : Int
  nanos : Nat
  deriving DecidableEq, Repr

/-- A SQL value. The empty string is NULL; see `Value.varchar`. -/
inductive Value where
  | null
  | number (n : BigDecimal)
  | varchar2 (s : String)
  | date (d : NaiveDateTime)
  | timestamp (d : NaiveDateTime)
  | boolean (b : Bool)
  deriving DecidableEq, Repr

/-- The values of one row, by column position. -/
abbrev Row := List Value

namespace Value

def isNull : Value → Bool
  | null => true
  | _ => false

/-- Build a VARCHAR2 value, turning the empty string into NULL. -/
def varchar (s : String) : Value := if s.isEmpty then null else varchar2 s

/-- An integer as a NUMBER value. -/
def ofInt (n : Int) : Value := number ⟨n, 0⟩

@[simp] theorem isNull_null : null.isNull = true := rfl

theorem isNull_iff {v : Value} : v.isNull = true ↔ v = null := by
  cases v <;> simp [isNull]

end Value

/-- Seconds and nine digits of nanoseconds, as keys spell an instant. -/
def NaiveDateTime.keyText (d : NaiveDateTime) : String :=
  let nanos := toString d.nanos
  toString d.timestamp ++ "." ++ "".pushn '0' (9 - nanos.length) ++ nanos

/-- The tagged text of one value inside a key, where `display` writes decimals. -/
def Value.keyTextWith (display : BigDecimal → String) : Value → String
  | .null => "~"
  | .number n => "n" ++ display n.normalized
  | .varchar2 s => "s" ++ s
  | .date d => "d" ++ d.keyText
  | .timestamp d => "d" ++ d.keyText
  | .boolean b => if b then "T" else "F"

/-- The key of a list of values: each tagged text followed by U+0001. NULLs are
equal to each other here. -/
def keyStringWith (display : BigDecimal → String) (values : List Value) : String :=
  values.foldl (fun key v => key ++ v.keyTextWith display ++ "\x01") ""

/-- The tagged text with the `Display` of the decimal library. -/
def Value.keyText (v : Value) : String := v.keyTextWith BigDecimal.toText

/-- The key of the values of a row, with the `Display` of the decimal library. -/
def keyString (values : List Value) : String := keyStringWith BigDecimal.toText values

/-- The SQL type of a column. -/
inductive SqlType where
  | number (precision : Nat) (scale : Int)
  | varchar2 (length : Nat)
  | char (length : Nat)
  | date
  | timestamp (precision : Nat)
  deriving DecidableEq, Repr

end MockOracle
