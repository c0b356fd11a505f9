import MockOracle.Parse.Lexer

/-!
# Lexer over bytes

`tokenize` from `lexer.rs` as it runs: by byte offsets into a text in UTF-8. Slices that are out of
range or inside a character panic.
-/

namespace MockOracle.ByteLexer

open Semantics Lexer

/-- How a call ends that does not return tokens. -/
inductive Failure where
  | error (e : OraError)
  | panic
  /-- A loop is not at its end. -/
  | endless
  deriving DecidableEq, Repr

abbrev Outcome := Except Failure

/-- Slices that are out of range or inside a character. -/
def orPanic {α : Type} : Option α → Outcome α
  | some a => .ok a
  | none => .error .panic

def isWhitespaceByte (b : UInt8) : Bool := b = 32 || b = 9 || b = 10 || b = 12 || b = 13

def isDigitByte (b : UInt8) : Bool := 48 ≤ b.toNat && b.toNat ≤ 57

def isAlphabeticByte (b : UInt8) : Bool :=
  (65 ≤ b.toNat && b.toNat ≤ 90) || (97 ≤ b.toNat && b.toNat ≤ 122)

def isAlphanumericByte (b : UInt8) : Bool := isAlphabeticByte b || isDigitByte b

def isBindByte (b : UInt8) : Bool := isAlphanumericByte b || b = 95

def isIdentByte (b : UInt8) : Bool :=
  isAlphanumericByte b || b = 95 || b = 36 || b = 35 || 128 ≤ b.toNat

/-- How many bytes of digits and one decimal point there are; `1..10` is a range. -/
def numberLength : Bool → List UInt8 → Nat
  | _, [] => 0
  | seenPoint, b :: rest =>
      if isDigitByte b || (b = 46 && !seenPoint && rest.head? ≠ some 46) then
        numberLength (seenPoint || b = 46) rest + 1
      else 0

/-- How many bytes an exponent with a digit has. -/
def exponentLength : List UInt8 → Nat
  | [] => 0
  | b :: rest =>
      if b = 101 || b = 69 then
        let sign := if rest.head? = some 43 ∨ rest.head? = some 45 then 1 else 0
        let digits := ((rest.drop sign).takeWhile isDigitByte).length
        if 0 < digits then 1 + sign + digits else 0
      else 0

section Read

variable (unicode : Unicode) (sql : List Char)

def byteAt (i : Nat) : Option UInt8 := (Text.bytes sql)[i]?

/-- Where a run of bytes of one kind ends. -/
def runEnd (p : UInt8 → Bool) (i : Nat) : Nat :=
  i + (((Text.bytes sql).drop i).takeWhile p).length

/-- A string behind its opening quote or a part of it, and where it ends. -/
def stringAt : Nat → Nat → List Char → Outcome (List Char × Nat)
  | 0, _, _ => .error .endless
  | fuel + 1, i, s => do
      let rest ← orPanic (Text.dropBytes sql i)
      match Text.find ['\''] rest with
      | none => .error (.error ⟨1756, "quoted string not properly terminated"⟩)
      | some q =>
          let part ← orPanic (Text.slice sql i (i + q))
          if byteAt sql (i + q + 1) = some 39 then
            stringAt fuel (i + q + 2) (s ++ part ++ ['\''])
          else return (s ++ part, i + q + 1)

/-- A token that starts with neither a quote nor the mark of a comment, and where it ends. -/
def wordAt (c : UInt8) (start : Nat) : Outcome (Tok × Nat) := do
  if isDigitByte c || (c = 46 && (byteAt sql (start + 1)).any isDigitByte) then
    let stop := start + numberLength false ((Text.bytes sql).drop start)
    let stop := stop + exponentLength ((Text.bytes sql).drop stop)
    let text ← orPanic (Text.slice sql start stop)
    return (.number (String.ofList text), stop)
  else
    let text ← orPanic (Text.dropBytes sql start)
    if ":=".toList.isPrefixOf text then return (.symbol ":=", start + 2)
    else if c = 58 then
      let stop := runEnd sql isBindByte (start + 1)
      if stop = start + 1 then .error (.error invalidCharacter)
      else
        let name ← orPanic (Text.slice sql (start + 1) stop)
        return (.bind (String.ofList (unicode.toUppercase name)), stop)
    else if isAlphabeticByte c || 128 ≤ c.toNat then
      let stop := runEnd sql isIdentByte start
      let name ← orPanic (Text.slice sql start stop)
      return (.ident (String.ofList (unicode.toUppercase name)), stop)
    else
      match symbols.find? fun s => s.toList.isPrefixOf text with
      | some s => return (.symbol s, start + Text.size s.toList)
      | none => .error (.error invalidCharacter)

/-- What starts at an offset with the byte `c`, a token or white space or a comment, and where it
ends. -/
def lexemeAt (c : UInt8) (start : Nat) : Outcome (Option Tok × Nat) := do
  if isWhitespaceByte c then return (none, start + 1)
  else
    let text ← orPanic (Text.dropBytes sql start)
    if "--".toList.isPrefixOf text then return (none, runEnd sql (· ≠ 10) start)
    else if "/*".toList.isPrefixOf text then
      match Text.find "*/".toList (← orPanic (Text.dropBytes sql (start + 2))) with
      | some stop => return (none, start + (stop + 4))
      | none => return (none, Text.size sql)
    else if c = 39 then
      let (s, stop) ← stringAt sql (Text.size sql) (start + 1) []
      return (some (.str (String.ofList s)), stop)
    else if c = 34 then
      match Text.find ['"'] (← orPanic (Text.dropBytes sql (start + 1))) with
      | none => .error (.error ⟨1740, "missing double quote in identifier"⟩)
      | some q =>
          let name ← orPanic (Text.slice sql (start + 1) (start + 1 + q))
          if name = [] then .error (.error ⟨1741, "illegal zero-length identifier"⟩)
          else return (some (.quotedIdent (String.ofList name)), start + (q + 2))
    else
      let (tok, stop) ← wordAt unicode sql c start
      return (some tok, stop)

/-- The tokens so far and those from an offset on. -/
def tokensFrom : Nat → Nat → List Token → Outcome (List Token)
  | fuel, i, tokens =>
      match byteAt sql i with
      | none => .ok tokens
      | some c =>
          match fuel with
          | 0 => .error .endless
          | fuel + 1 => do
              let (tok, stop) ← lexemeAt unicode sql c i
              tokensFrom fuel stop (tokens ++ (tok.map fun tok => ⟨tok, i, stop⟩).toList)

end Read

/-- The loop takes at most as many steps as the text has bytes. -/
def tokenize (unicode : Unicode) (sql : String) : Outcome (List Token) :=
  tokensFrom unicode sql.toList (Text.size sql.toList) 0 []

end MockOracle.ByteLexer
