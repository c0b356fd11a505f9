import MockOracle.Core.Unicode
import MockOracle.Eval.StoreValue
import MockOracle.Semantics.Scanning

/-!
# Scripts

`split_script` from `lib.rs`: the statements of a SQL script, separated by `;` or by a line with a
`/`. It scans the script character by character, copies quoted text and drops comments.
-/

namespace MockOracle

open Semantics

/-- Whether a statement starts a PL/SQL unit: a block, or CREATE of a procedure, function, package,
trigger or type. -/
def isPlsqlUnit (unicode : Unicode) (stmt : List Char) : Bool :=
  let words := ((stmt.splitOnP fun c => !(unicode.isAlphanumeric c || c = '_' || c = '<')).filter
    (· ≠ [])).take 5 |>.map fun word => String.ofList (unicode.toUppercase word)
  match words with
  | [] => false
  | first :: more =>
      if first = "BEGIN" ∨ first = "DECLARE" then true
      else if "<<".toList.isPrefixOf first.toList then true
      else if first = "CREATE" then
        let next := if more.head? = some "OR" then more.drop 2 else more
        let next := if next.head? = some "EDITIONABLE" ∨ next.head? = some "NONEDITIONABLE" then
          next.drop 1 else next
        match next.head? with
        | some word => word ∈ ["PROCEDURE", "FUNCTION", "PACKAGE", "TRIGGER", "TYPE"]
        | none => false
      else false

namespace Script

/-- The scanner between two characters. -/
structure Splitter where
  out : List String := []
  current : List Char := []
  atLineStart : Bool := true
  /-- The texts collected at each `;`, for statements about runs. -/
  atSemicolons : List (List Char) := []

namespace Splitter

def push (s : Splitter) (text : List Char) : Splitter := { s with current := s.current ++ text }

/-- Ends the current statement. -/
def flush (s : Splitter) : Splitter :=
  let stmt := trim (String.ofList s.current)
  { s with
    out := if stmt = "" then s.out else s.out ++ [stmt]
    current := [] }

/-- After a character the scanner is at the start of a line, or still is, or no longer. -/
def after (s : Splitter) (c : Char) : Splitter :=
  { s with
    atLineStart := if c = '\n' then true else if !isWhitespace c then false else s.atLineStart }

end Splitter

/-- The text to a quote, with the quote, and the text behind it. -/
def takeQuoted (quote : Char) : List Char → List Char × List Char
  | [] => ([], [])
  | d :: rest =>
      if d = quote then ([d], rest)
      else
        let (quoted, rest') := takeQuoted quote rest
        (d :: quoted, rest')

/-- The text behind the end of a comment; `prev` is the character in front. -/
def skipComment (prev : Char) : List Char → List Char
  | [] => []
  | d :: rest => if prev = '*' && d = '/' then rest else skipComment d rest

/-- What the scanner does at a character. -/
def step (unicode : Unicode) (s : Splitter) (c : Char) (rest : List Char) : Splitter × List Char :=
  if c = '\'' || c = '"' then
    let (quoted, rest') := takeQuoted c rest
    ((s.push (c :: quoted)).after c, rest')
  else if c = '-' && rest.head? = some '-' then
    match rest.dropWhile (· ≠ '\n') with
    | newline :: rest' => ({ s.push [newline] with atLineStart := true }, rest')
    | [] => ({ s with atLineStart := true }, [])
  else if c = '/' && rest.head? = some '*' then
    ((s.push [' ']).after c, skipComment ' ' (rest.drop 1))
  else if c = ';' then
    let s := { s with atSemicolons := s.atSemicolons ++ [s.current] }
    ((if isPlsqlUnit unicode s.current then s.push [c] else s.flush).after c, rest)
  else if c = '/' && s.atLineStart && (rest.takeWhile (· ≠ '\n')).all isWhitespace then
    (s.flush.after c, rest.dropWhile (· ≠ '\n'))
  else ((s.push [c]).after c, rest)

/-- The scanner at the end of a script. -/
def run (unicode : Unicode) (script : String) : Splitter :=
  Id.run (scanText (step unicode) script.length {} script.toList)

end Script

/-- Splits a script into statements. -/
def splitScript (unicode : Unicode) (script : String) : List String :=
  (Script.run unicode script).flush.out

example : splitScript Unicode.sample
    "begin;a:=1;end;\n/ \nselect 'a;''b'-- ;\n/* ; */ from \"x;y\";" =
    ["begin;a:=1;end;", "select 'a;''b'\n  from \"x;y\""] := by decide

end MockOracle
