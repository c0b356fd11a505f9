import MockOracle.Eval.StoreValue

/-!
# Operators on values

Comparison, membership, LIKE and arithmetic, as `value.rs` and `eval.rs` define them on
values. `Library` collects what the engine takes from elsewhere: the calendar, and the
division and rounding of the decimal crate.
-/

namespace MockOracle

/-- What evaluation takes from other libraries. -/
structure Library where
  dates : DateFormats
  /-- The year of a date/time. -/
  year : NaiveDateTime → Int
  /-- The quotient of two decimals, to the precision of the decimal crate. -/
  div : BigDecimal → BigDecimal → BigDecimal
  /-- A decimal rounded to a number of significant digits. -/
  withPrec : BigDecimal → Nat → BigDecimal
  /-- The square root of a decimal that is not negative. -/
  sqrt : BigDecimal → BigDecimal
  toUppercase : String → String
  toLowercase : String → String
  isAlphanumeric : Char → Bool

namespace BigDecimal

/-- The coefficient at a scale that is not smaller. -/
def coefficientAt (n : BigDecimal) (scale : Int) : Int := n.intVal * 10 ^ (scale - n.scale).toNat

def add (a b : BigDecimal) : BigDecimal :=
  let scale := max a.scale b.scale
  ⟨a.coefficientAt scale + b.coefficientAt scale, scale⟩

def neg (n : BigDecimal) : BigDecimal := ⟨-n.intVal, n.scale⟩

def sub (a b : BigDecimal) : BigDecimal := a.add b.neg

def mul (a b : BigDecimal) : BigDecimal := ⟨a.intVal * b.intVal, a.scale + b.scale⟩

def sum (ns : List BigDecimal) : BigDecimal := ns.foldl add ⟨0, 0⟩

/-- Compare two numbers. -/
def cmp (a b : BigDecimal) : Ordering :=
  let scale := max a.scale b.scale
  compare (a.coefficientAt scale) (b.coefficientAt scale)

/-- The digits of the coefficient. -/
def digits (n : BigDecimal) : Nat := (toString n.intVal.natAbs).length

end BigDecimal

/-- Round to the 40 significant digits a NUMBER holds. -/
def roundNumber (lib : Library) (n : BigDecimal) : BigDecimal :=
  if 40 < n.digits then (lib.withPrec n 40).normalized else n

/-! ## Comparison -/

/-- Compare two texts by their UTF-8 bytes. -/
def compareBytes (a b : String) : Ordering :=
  compareOfLessAndEq (a.toUTF8.toList.map UInt8.toNat) (b.toUTF8.toList.map UInt8.toNat)

/-- The text without the blanks at its end. -/
def trimEnd (text : String) : String := String.ofList (text.toList.rdropWhile (· = ' '))

def compareInstants (a b : NaiveDateTime) : Ordering :=
  (compare a.timestamp b.timestamp).then (compare a.nanos b.nanos)

/-- A conversion that gives a value for every operand but NULL. -/
def convert {α : Type} (default : α) (result : Except OraError (Option α)) : Except OraError α :=
  result.map (·.getD default)

/-- Compare two values, converting a text to a number or date/time when the other side is
one. There is no result when either is NULL. -/
def compareValues (dates : DateFormats) (format : String) (a b : Value) :
    Except OraError (Option Ordering) :=
  match a, b with
  | .null, _ | _, .null => .ok none
  | .boolean x, .boolean y => .ok (some (compare x.toNat y.toNat))
  | .boolean _, _ | _, .boolean _ =>
      .error ⟨6550, "PLS-00306: wrong number or types of arguments in call to '='"⟩
  | .varchar2 x, .varchar2 y => .ok (some (compareBytes (trimEnd x) (trimEnd y)))
  | .number _, _ | _, .number _ => do
      let x ← convert ⟨0, 0⟩ a.toNumber
      let y ← convert ⟨0, 0⟩ b.toNumber
      return some (x.cmp y)
  | _, _ => do
      let x ← convert ⟨0, 0⟩ (a.toDatetime dates format)
      let y ← convert ⟨0, 0⟩ (b.toDatetime dates format)
      return some (compareInstants x y)

/-- `v IN (candidates)`. -/
def inValues (dates : DateFormats) (format : String) (v : Value) (candidates : List Value) :
    Except OraError (Option Bool) :=
  if v.isNull then .ok none else search candidates false
where
  search : List Value → Bool → Except OraError (Option Bool)
    | [], unknown => .ok (if unknown then none else some false)
    | c :: rest, unknown => do
        match ← compareValues dates format v c with
        | some .eq => return some true
        | none => search rest true
        | some _ => search rest unknown

/-! ## LIKE -/

/-- An element of a LIKE pattern. -/
inductive LikePart where
  | any
  | one
  | lit (c : Char)
  deriving DecidableEq, Repr

def likeParts (escape : Option Char) : List Char → Except OraError (List LikePart)
  | [] => .ok []
  | c :: rest =>
      if some c = escape then
        match rest with
        | next :: rest =>
            if next = '%' ∨ next = '_' ∨ some next = escape then
              return .lit next :: (← likeParts escape rest)
            else .error ⟨1424, "missing or illegal character following the escape character"⟩
        | [] => .error ⟨1424, "missing or illegal character following the escape character"⟩
      else do
        let part := if c = '%' then LikePart.any else if c = '_' then .one else .lit c
        return part :: (← likeParts escape rest)

/-- Match with backtracking to the last `%`; `star` holds what followed it and the text it
was last tried on. A step uses up a part of the pattern, or the text left to the last `%`. -/
def likeMatch (text : List Char) (parts : List LikePart)
    (star : Option (List LikePart × List Char)) : Bool :=
  match text, parts, star with
  | [], parts, _ => parts.all (· = .any)
  | _ :: text, .one :: parts, star => likeMatch text parts star
  | c :: text, .any :: parts, _ => likeMatch (c :: text) parts (some (parts, c :: text))
  | c :: text, .lit l :: rest, star =>
      if l = c then likeMatch text rest star
      else
        match star with
        | some (after, _ :: tried) => likeMatch tried after (some (after, tried))
        | _ => false
  | _ :: _, [], some (after, _ :: tried) => likeMatch tried after (some (after, tried))
  | _ :: _, [], _ => false
termination_by
  (star.elim (text.length + 1) fun last => max last.2.length text.length, parts.length)
decreasing_by
  all_goals
    simp only [Prod.lex_def, Option.elim_some, List.length_cons]
    first
      | omega
      | cases ‹Option _› <;> simp only [Option.elim_none, Option.elim_some] <;> omega

/-- LIKE with `%`, `_` and an optional escape character. -/
def like (text pattern : String) (escape : Option Char) : Except OraError Bool := do
  let parts ← likeParts escape pattern.toList
  return likeMatch text.toList parts none

/-! ## Arithmetic -/

/-- An error of date arithmetic. -/
def outOfRange : OraError := ⟨1841, "(full) year must be between -4713 and +9999, and not be 0"⟩

def Value.isDate : Value → Bool
  | .date _ | .timestamp _ => true
  | _ => false

/-- The nanoseconds between two instants; zero when they do not fit 64 bits. -/
def nanosBetween (a b : NaiveDateTime) : Int :=
  let nanos := (a.timestamp - b.timestamp) * 1000000000 + ((a.nanos : Int) - b.nanos)
  if BigDecimal.InBits 64 nanos then nanos else 0

/-- A date some days later, or earlier, rounded to seconds. -/
def addDays (lib : Library) (d : NaiveDateTime) (days : BigDecimal) (negate : Bool) :
    Except OraError Value :=
  let secs := ((days.mul ⟨86400, 0⟩).withScaleRound 0).intVal
  if ¬ BigDecimal.InBits 64 secs then .error outOfRange
  else
    let secs := if negate then -secs else secs
    let moved : NaiveDateTime := ⟨d.timestamp + secs, 0⟩
    if ¬ BigDecimal.InBits 64 secs ∨ ¬ (-4713 ≤ lib.year moved ∧ lib.year moved ≤ 9999) then
      .error outOfRange
    else .ok (.date moved)

/-- The number of an arithmetic operator on two numbers. -/
def numberOp (lib : Library) (op : BinaryOp) (a b : BigDecimal) : Except OraError BigDecimal :=
  match op with
  | .add => .ok (a.add b)
  | .sub => .ok (a.sub b)
  | .mul => .ok (roundNumber lib (a.mul b))
  | _ =>
      if b.intVal = 0 then .error ⟨1476, "divisor is equal to zero"⟩
      else .ok (roundNumber lib (lib.div a b))

/-- `+`, `-`, `*` and `/`. -/
def arithmetic (lib : Library) (op : BinaryOp) (x y : Value) : Except OraError Value :=
  if x.isNull || y.isNull then .ok .null
  else
    match op, x.isDate, y.isDate with
    | .sub, true, true => do
        let a ← convert ⟨0, 0⟩ (x.toDatetime lib.dates "")
        let b ← convert ⟨0, 0⟩ (y.toDatetime lib.dates "")
        return .number (roundNumber lib (lib.div ⟨nanosBetween a b, 0⟩ ⟨86400000000000, 0⟩))
    | .add, true, false | .sub, true, false => do
        let d ← convert ⟨0, 0⟩ (x.toDatetime lib.dates "")
        let days ← convert ⟨0, 0⟩ y.toNumber
        addDays lib d days (op = .sub)
    | .add, false, true => do
        let d ← convert ⟨0, 0⟩ (y.toDatetime lib.dates "")
        let days ← convert ⟨0, 0⟩ x.toNumber
        addDays lib d days false
    | _, true, _ | _, _, true => .error (.inconsistent "NUMBER" "DATE")
    | op, false, false => do
        let a ← convert ⟨0, 0⟩ x.toNumber
        let b ← convert ⟨0, 0⟩ y.toNumber
        return .number (← numberOp lib op a b)

/-- Implicit conversion to VARCHAR2, by the session's date formats. -/
def toText (dates : DateFormats) (env : Env) : Value → Option String
  | .null => none
  | .number n => some (formatNumber n)
  | .varchar2 s => some s
  | .date d => some (dates.format d env.nlsDateFormat)
  | .timestamp d => some (dates.format d env.nlsTimestampFormat)
  | .boolean b => some (if b then "TRUE" else "FALSE")

end MockOracle
