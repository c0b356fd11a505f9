import MockOracle.Eval.Typing

/-!
# Built-in functions

The scalar functions of `functions.rs` whose results are typed by their arguments: NULL
handling, case mapping, GREATEST and LEAST, and CAST. `Scalar` stands for the others, which
read the session's settings and their arguments only.
-/

namespace MockOracle

/-- The remaining built-in functions, by name. -/
abbrev Scalar := Env → String → List Value → Except OraError Value

/-- The names `Scalar` stands for. -/
def scalarFunctions : List String :=
  ["LENGTH", "LENGTHB", "SUBSTR", "INSTR", "REPLACE", "TRANSLATE", "TRIM", "LTRIM", "RTRIM", "LPAD",
    "RPAD", "CONCAT", "CHR", "ASCII", "REVERSE", "ABS", "SIGN", "CEIL", "FLOOR", "SQRT", "EXP", "LN",
    "MOD", "REMAINDER", "POWER", "LOG", "ROUND", "TRUNC", "TO_CHAR", "TO_NUMBER", "TO_DATE",
    "TO_TIMESTAMP", "SYSDATE", "SYSTIMESTAMP", "CURRENT_DATE", "CURRENT_TIMESTAMP",
    "LOCALTIMESTAMP", "USER", "ADD_MONTHS", "LAST_DAY", "MONTHS_BETWEEN", "EXTRACT", "SYS_GUID"]

def argCount : OraError := ⟨909, "invalid number of arguments"⟩

section Builtin

variable (lib : Library) (env : Env)

def nvl : List Value → Except OraError Value
  | [a, b] => .ok (if a.isNull then b else a)
  | _ => .error argCount

def nvl2 : List Value → Except OraError Value
  | [a, b, c] => .ok (if a.isNull then c else b)
  | _ => .error argCount

def coalesce (args : List Value) : Except OraError Value :=
  if args.length < 2 then .error argCount else .ok ((args.find? fun v => !v.isNull).getD .null)

def nullif : List Value → Except OraError Value
  | [a, b] => do
      match ← compareValues lib.dates env.nlsDateFormat a b with
      | some .eq => return .null
      | _ => return a
  | _ => .error argCount

/-- The pairs of DECODE after its subject, and the default after them. -/
def decodePairs (subject : Value) : List Value → Except OraError Value
  | search :: result :: rest => do
      let hit ← match subject.isNull, search.isNull with
        | true, true => pure true
        | false, false =>
            (· == some .eq) <$> compareValues lib.dates env.nlsDateFormat subject search
        | _, _ => pure false
      if hit then return result else decodePairs subject rest
  | [default] => .ok default
  | [] => .ok .null

def decode : List Value → Except OraError Value
  | [] => .error argCount
  | subject :: pairs =>
      if pairs.length < 2 ∨ 254 < pairs.length then .error argCount
      else decodePairs lib env subject pairs

/-- A function of one text. -/
def stringFn (f : String → String) : List Value → Except OraError Value
  | [a] => .ok (((toText lib.dates env a).map fun s => Value.varchar (f s)).getD .null)
  | _ => .error argCount

/-- Each run of letters and digits with its first character in upper case. -/
def initcap (text : String) : String :=
  (text.toList.foldl (fun (acc : String × Bool) c =>
    if lib.isAlphanumeric c then
      let mapped := String.singleton c
      (acc.1 ++ if acc.2 then lib.toUppercase mapped else lib.toLowercase mapped, false)
    else (acc.1.push c, true)) ("", true)).1

/-- The greatest or least of values that are not NULL. -/
def bestOf (wanted : Ordering) : Value → List Value → Except OraError Value
  | best, [] => .ok best
  | best, v :: rest => do
      let order := (← compareValues lib.dates env.nlsDateFormat v best).getD .eq
      bestOf wanted (if order = wanted then v else best) rest

def extreme (wanted : Ordering) (args : List Value) : Except OraError Value :=
  match args with
  | [] => .error argCount
  | first :: rest =>
      if 255 < args.length then .error argCount
      else if args.any Value.isNull then .ok .null
      else bestOf lib env wanted first rest

/-- CAST of a value that is not NULL. -/
def castTo (v : Value) (target : String) : Except OraError Value :=
  if target = "NUMBER" then
    match v with
    | .varchar2 _ | .number _ => return .number (← convert ⟨0, 0⟩ v.toNumber)
    | _ => .error (.inconsistent "NUMBER" "DATE")
  else if target = "DATE" then do
    let d ← convert ⟨0, 0⟩ (v.toDatetime lib.dates env.nlsDateFormat)
    return .date ⟨d.timestamp, 0⟩
  else if target = "TIMESTAMP" then
    return .timestamp (← convert ⟨0, 0⟩ (v.toDatetime lib.dates env.nlsTimestampFormat))
  else
    let max := (castLength 64 target).getD 4000
    let text := (toText lib.dates env v).getD ""
    if max < text.utf8ByteSize then .error ⟨25137, "Data value out of range"⟩
    else .ok (Value.varchar text)

def cast (args : List Value) : Except OraError Value :=
  match args with
  | [] => .error argCount
  | v :: rest =>
      if v.isNull then .ok .null
      else castTo lib env v (((rest.head?).bind (toText lib.dates env)).getD "")

/-- The built-in function of a name, if there is one. -/
def builtin (scalar : Scalar) (name : String) : Option (List Value → Except OraError Value) :=
  if name = "NVL" then some nvl
  else if name = "NVL2" then some nvl2
  else if name = "COALESCE" then some coalesce
  else if name = "NULLIF" then some (nullif lib env)
  else if name = "DECODE" then some (decode lib env)
  else if name = "UPPER" then some (stringFn lib env lib.toUppercase)
  else if name = "LOWER" then some (stringFn lib env lib.toLowercase)
  else if name = "INITCAP" then some (stringFn lib env (initcap lib))
  else if name = "GREATEST" then some (extreme lib env .gt)
  else if name = "LEAST" then some (extreme lib env .lt)
  else if name = "CAST" then some (cast lib env)
  else if name ∈ scalarFunctions then some (scalar env name)
  else none

end Builtin

end MockOracle
