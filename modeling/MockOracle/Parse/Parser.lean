import MockOracle.Core.Number
import MockOracle.Parse.Lexer
import MockOracle.Semantics.Codec

/-!
# Parser

The reading of tokens in `parser.rs`, integers, and the data types of columns and variables.
-/

namespace MockOracle

open Semantics

/-- A reader of the tokens that are left. -/
abbrev Parser (α : Type) := Codec.Reader Tok OraError α

/-- `str::parse::<i64>`. -/
def parseI64 (text : String) : Option Int :=
  (Decimal.readInteger text.toList).filter fun n => BigDecimal.InBits 64 n

namespace Parser

/-- ORA-00905, a keyword that is not there. -/
def missingKeyword : OraError := ⟨905, "missing keyword"⟩

/-- ORA-00907, a parenthesis that is not closed. -/
def missingParen : OraError := ⟨907, "missing right parenthesis"⟩

/-- ORA-00906, a parenthesis that is not opened. -/
def missingLeftParen : OraError := ⟨906, "missing left parenthesis"⟩

/-- ORA-01722, a number that is not there. -/
def invalidNumber : OraError := ⟨1722, "invalid number"⟩

/-- ORA-00902, a type that is not known. -/
def invalidDatatype : OraError := ⟨902, "invalid datatype"⟩

/-- ORA-00910, a length over the limit of its type. -/
def lengthTooLong : OraError := ⟨910, "specified length too long for its datatype"⟩

/-- The next token, taken off. -/
def advance : Parser (Option Tok) := modifyGet fun tokens => (tokens.head?, tokens.tail)

/-- Reads the given token if it is the next. -/
def eat (tok : Tok) : Parser Bool := modifyGet fun tokens =>
  if tokens.head? = some tok then (true, tokens.tail) else (false, tokens)

/-- A token that comes next is eaten. -/
@[simp] theorem eat_cons_self (tok : Tok) (tokens : List Tok) :
    (eat tok).run (tok :: tokens) = .ok (true, tokens) := by
  simp [eat, pure, Except.pure]

/-- Another token stays. -/
theorem eat_of_ne {tok : Tok} {tokens : List Tok} (other : tokens.head? ≠ some tok) :
    (eat tok).run tokens = .ok (false, tokens) := by
  simp [eat, other, pure, Except.pure]

/-- Eats a keyword if it comes next. -/
def eatKw (kw : String) : Parser Bool := eat (.ident kw)

/-- Eats a symbol if it comes next. -/
def eatSym (sym : String) : Parser Bool := eat (.symbol sym)

/-- Eats a keyword that must come next. -/
def expectKw (kw : String) : Parser Unit := do
  unless ← eatKw kw do throw missingKeyword

/-- Eats a symbol that must come next. -/
def expectSym (sym : String) : Parser Unit := do
  unless ← eatSym sym do
    if sym = ")" then throw missingParen
    else if sym = "(" then throw missingLeftParen
    else throw ⟨933, "SQL command not properly ended"⟩

/-- An integer with its sign. -/
def integer : Parser Int := do
  let neg ← eatSym "-"
  match ← advance with
  | some (.number text) =>
      match parseI64 text with
      | some v => return if neg then -v else v
      | none => throw invalidNumber
  | _ => throw invalidNumber

/-- The tokens behind as many closing parentheses as are open. -/
def closeParens : Nat → List Tok → Except OraError (List Tok)
  | 0, tokens => .ok tokens
  | _ + 1, [] => .error missingParen
  | depth + 1, .symbol "(" :: tokens => closeParens (depth + 2) tokens
  | depth + 1, .symbol ")" :: tokens => closeParens depth tokens
  | depth + 1, _ :: tokens => closeParens (depth + 1) tokens

/-- A group in parentheses, if one starts here. -/
def skipParens : Parser Unit := do
  if ← eatSym "(" then set (← closeParens 1 (← get))

/-- An optional unit. -/
def lengthUnit : Parser Unit := do
  unless ← eatKw "BYTE" do
    discard (eatKw "CHAR")

/-- A length in parentheses, if one starts here. The integer is cast to 32 bits. -/
def length : Parser (Option Nat) := do
  if ← eatSym "(" then
    let n ← integer
    lengthUnit
    expectSym ")"
    if n ≤ 0 then throw ⟨1724, "zero-length columns are not allowed"⟩
    return some (n.toNat % 2 ^ 32)
  else return none

/-- The precision and scale of a `NUMBER`. -/
def precisionAndScale : Parser SqlType := do
  let precision ← if ← eatSym "*" then pure 38 else integer
  unless 1 ≤ precision ∧ precision ≤ 38 do
    throw ⟨1727, "numeric precision specifier is out of range (1 to 38)"⟩
  let scale ← if ← eatSym "," then integer else pure 0
  unless -84 ≤ scale ∧ scale ≤ 127 do
    throw ⟨1728, "numeric scale specifier is out of range (-84 to 127)"⟩
  expectSym ")"
  return .number precision.toNat scale

/-- The precision of a `TIMESTAMP`, and its time zone. -/
def timestamp : Parser SqlType := do
  let precision ← if ← eatSym "(" then do
      let p ← integer
      expectSym ")"
      unless 0 ≤ p ∧ p ≤ 9 do throw ⟨30088, "datetime/interval precision is out of range"⟩
      pure p.toNat
    else pure 6
  if ← eatKw "WITH" then
    discard (eatKw "LOCAL")
    expectKw "TIME"
    expectKw "ZONE"
  return .timestamp precision

/-- The type behind its first name. -/
def typeNamed (name : String) : Parser SqlType := do
  if name ∈ ["NUMBER", "NUMERIC", "DECIMAL", "DEC"] then
    if ← eatSym "(" then precisionAndScale
    else if name = "NUMBER" then return .number 0 (-127)
    else return .number 38 0
  else if name ∈ ["INTEGER", "INT", "SMALLINT"] then return .number 38 0
  else if name ∈ ["FLOAT", "REAL", "BINARY_DOUBLE", "BINARY_FLOAT"] then
    skipParens
    return .number 0 (-127)
  else if name = "DOUBLE" then
    expectKw "PRECISION"
    return .number 0 (-127)
  else if name ∈ ["VARCHAR2", "VARCHAR", "NVARCHAR2"] then
    match ← length with
    | none => throw missingLeftParen
    | some n =>
        if 32767 < n then throw lengthTooLong
        else return .varchar2 n
  else if name ∈ ["CHAR", "NCHAR", "CHARACTER"] then
    if ← eatKw "VARYING" then
      match ← length with
      | none => throw missingLeftParen
      | some n => return .varchar2 n
    else
      let n := (← length).getD 1
      if 2000 < n then throw lengthTooLong
      else return .char n
  else if name ∈ ["CLOB", "NCLOB", "LONG"] then return .varchar2 32767
  else if name = "DATE" then return .date
  else if name = "TIMESTAMP" then timestamp
  else throw invalidDatatype

/-- The type of a column, from its name on. -/
def dataType : Parser SqlType := do
  match (← get).head? with
  | some (.ident name) =>
      discard advance
      typeNamed name
  | _ => throw invalidDatatype

end Parser

end MockOracle
