import MockOracle.Core.Unicode
import MockOracle.Core.Value
import MockOracle.Semantics.Decimal
import MockOracle.Semantics.Scanning
import MockOracle.Semantics.Text

/-!
# Lexer

`tokenize` from `lexer.rs`: a text of Oracle SQL as a list of tokens with their places in it. White
space and comments separate tokens and leave no trace.
-/

namespace MockOracle

open Semantics

inductive Tok where
  /-- An identifier or keyword without quotes, in capitals. -/
  | ident (name : String)
  | quotedIdent (name : String)
  | number (text : String)
  | str (text : String)
  | bind (name : String)
  | symbol (text : String)
  deriving DecidableEq, Repr

/-- A token and its place in the statement, in bytes. -/
structure Token where
  tok : Tok
  start : Nat
  stop : Nat
  deriving DecidableEq, Repr

namespace Lexer

def symbols : List String :=
  ["||", "<=", ">=", "<>", "!=", "^=", "=>", "..", "<<", ">>", "**", "(", ")", ",", "+", "-", "*",
    "/", "=", "<", ">", ".", ";", "%"]

def invalidCharacter : OraError := ⟨911, "invalid character"⟩

def isAsciiWhitespace (c : Char) : Bool :=
  c = ' ' || c = '\t' || c = '\n' || c = '\x0c' || c = '\r'

def isBindChar (c : Char) : Bool := c.isAlphanum || c = '_'

def isIdentChar (c : Char) : Bool :=
  c.isAlphanum || c = '_' || c = '$' || c = '#' || 128 ≤ c.toNat

/-- The text after the end of a comment. -/
def afterComment : List Char → List Char
  | '*' :: '/' :: rest => rest
  | _ :: rest => afterComment rest
  | [] => []

/-- A string after its opening quote, and the text behind it. Two quotes stand for one. -/
def readString : List Char → Except OraError (List Char × List Char)
  | '\'' :: '\'' :: rest => (readString rest).map fun (s, rest') => ('\'' :: s, rest')
  | '\'' :: rest => .ok ([], rest)
  | c :: rest => (readString rest).map fun (s, rest') => (c :: s, rest')
  | [] => .error ⟨1756, "quoted string not properly terminated"⟩

/-- Digits and one decimal point; `1..10` is a range. -/
def readNumber : Bool → List Char → List Char × List Char
  | _, [] => ([], [])
  | seenPoint, c :: rest =>
      if c.isDigit || (c = '.' && !seenPoint && rest.head? ≠ some '.') then
        let (number, rest') := readNumber (seenPoint || c = '.') rest
        (c :: number, rest')
      else ([], c :: rest)

/-- The sign of an exponent. -/
def readSign : List Char → List Char × List Char
  | c :: rest => if c = '+' || c = '-' then ([c], rest) else ([], c :: rest)
  | [] => ([], [])

/-- An exponent with a digit. -/
def readExponent : List Char → List Char × List Char
  | c :: rest =>
      let (sign, digits) := readSign rest
      if (c = 'e' || c = 'E') && digits.head?.any Char.isDigit then
        (c :: (sign ++ digits.takeWhile Char.isDigit), digits.dropWhile Char.isDigit)
      else ([], c :: rest)
  | [] => ([], [])

/-- A token that starts with neither a quote nor the mark of a comment, and the text behind it. -/
def word (unicode : Unicode) (c : Char) (rest : List Char) : Except OraError (Tok × List Char) :=
  let text := c :: rest
  if c.isDigit || (c = '.' && rest.head?.any Char.isDigit) then
    let (number, rest₁) := readNumber false text
    let (exponent, rest₂) := readExponent rest₁
    .ok (.number (String.ofList (number ++ exponent)), rest₂)
  else if ":=".toList.isPrefixOf text then .ok (.symbol ":=", text.drop 2)
  else if c = ':' then
    let name := rest.takeWhile isBindChar
    if name = [] then .error invalidCharacter
    else .ok (.bind (String.ofList (unicode.toUppercase name)), rest.dropWhile isBindChar)
  else if c.isAlpha || 128 ≤ c.toNat then
    .ok (.ident (String.ofList (unicode.toUppercase (text.takeWhile isIdentChar))),
      text.dropWhile isIdentChar)
  else
    match symbols.find? fun s => s.toList.isPrefixOf text with
    | some s => .ok (.symbol s, text.drop s.length)
    | none => .error invalidCharacter

/-- What starts a text: a token, or white space or a comment, and the text behind it. -/
def lexeme (unicode : Unicode) (c : Char) (rest : List Char) :
    Except OraError (Option Tok × List Char) :=
  let text := c :: rest
  if isAsciiWhitespace c then .ok (none, rest)
  else if "--".toList.isPrefixOf text then .ok (none, text.dropWhile (· ≠ '\n'))
  else if "/*".toList.isPrefixOf text then .ok (none, afterComment (text.drop 2))
  else if c = '\'' then
    (readString rest).map fun (s, rest') => (some (.str (String.ofList s)), rest')
  else if c = '"' then
    match Decimal.cut (· = '"') rest with
    | (_, none) => .error ⟨1740, "missing double quote in identifier"⟩
    | ([], some _) => .error ⟨1741, "illegal zero-length identifier"⟩
    | (name, some rest') => .ok (some (.quotedIdent (String.ofList name)), rest')
  else (word unicode c rest).map fun (tok, rest') => (some tok, rest')

/-- The tokens so far and what starts the text that is left of the statement. -/
def step (unicode : Unicode) (sql : List Char) (tokens : List Token) (c : Char) (rest : List Char) :
    Except OraError (List Token × List Char) := do
  let (tok, rest') ← lexeme unicode c rest
  match tok with
  | none => return (tokens, rest')
  | some tok =>
      return (tokens ++ [⟨tok, Text.size sql - Text.size (c :: rest), Text.size sql - Text.size rest'⟩],
        rest')

end Lexer

def tokenize (unicode : Unicode) (sql : String) : Except OraError (List Token) :=
  scanText (Lexer.step unicode sql.toList) sql.length [] sql.toList

example : (tokenize Unicode.sample "a1 <> 1.5e-3..'it''s'/* ; */--;").map (List.map Token.tok) =
    .ok [.ident "A1", .symbol "<>", .number "1.5e-3", .symbol "..", .str "it's"] := by decide

end MockOracle
