import MockOracle.Eval.Select

/-!
# PL/SQL expressions

How the interpreter of `plsql/exec.rs` evaluates expressions. SQL evaluates them, once calls of
procedures and functions have been run and replaced by their results. So that calls in operands
that do not matter never run, the interpreter evaluates CASE, AND, OR, NVL, NVL2, COALESCE and
DECODE itself when they contain calls. Running a routine is left open.
-/

namespace MockOracle

open Std

/-! ## State -/

/-- An exception in flight; user-defined ones carry their name. -/
structure Exc where
  err : OraError
  user : Option String

namespace Exc

/-- SQLCODE: +1 for user-defined exceptions, +100 for NO_DATA_FOUND, negative codes otherwise. -/
def sqlcode (e : Exc) : Int :=
  if e.user.isSome ∧ e.err.code = 6510 then 1
  else if e.err.code = 1403 then 100
  else -(e.err.code : Int)

/-- SQLERRM. -/
def sqlerrm (e : Exc) : String :=
  if e.user.isSome ∧ e.err.code = 6510 then "User-Defined Exception"
  else
    let digits := toString e.err.code
    "ORA-" ++ "".pushn '0' (5 - digits.length) ++ digits ++ ": " ++ e.err.message

end Exc

/-- What a variable holds: a value, or the fields of a record. -/
inductive Slot where
  | scalar (v : Value)
  | record (fields : List (String × Value))

/-- An open cursor, as its attributes show it. -/
structure OpenCursor where
  rowcount : Nat
  /-- Whether the last FETCH returned a row, if there was one. -/
  found : Option Bool

/-- The declarations of a block. -/
structure Frame where
  vars : List (String × Slot)
  cursors : List (String × Option OpenCursor)
  routines : List Routine

/-- The interpreter: the catalogs its host shows to SQL, the binds, the frames of the blocks being
run with the innermost last, SQL%ROWCOUNT, the exceptions being handled with the innermost last,
and what evaluation changes. -/
structure Interp where
  cat : Catalog
  committed : Catalog
  binds : List Value
  frames : List Frame
  rowcount : Option Nat
  handling : List Exc
  evalState : EvalState

/-- A computation of the interpreter. -/
abbrev PlsqlM := EStateM Exc Interp

namespace Interp

variable (it : Interp)

/-- The innermost variable of a name. -/
def findVar (name : String) : Option Slot :=
  it.frames.reverse.findSome? fun f => (f.vars.reverse.find? fun v => v.1 = name).map Prod.snd

/-- The innermost cursor of a name, and what it shows if it is open. -/
def findCursor (name : String) : Option (Option OpenCursor) :=
  it.frames.reverse.findSome? fun f => (f.cursors.reverse.find? fun c => c.1 = name).map Prod.snd

/-- TRUE, FALSE or NULL. -/
def boolValue (b : Option Bool) : Value := (b.map Value.boolean).getD .null

/-- The attributes of the last SQL statement. -/
def sqlAttribute (name : String) : Option Value :=
  if name = "ROWCOUNT" then some ((it.rowcount.map fun n => Value.ofInt n).getD .null)
  else if name = "FOUND" then some (boolValue (it.rowcount.map fun n => 0 < n))
  else if name = "NOTFOUND" then some (boolValue (it.rowcount.map fun n => n = 0))
  else if name = "ISOPEN" then some (.boolean false)
  else none

/-- The attributes of a cursor. -/
def cursorAttribute (cursor : Option OpenCursor) (name : String) : Option Value :=
  if name = "ISOPEN" then some (.boolean cursor.isSome)
  else if name = "FOUND" then some (boolValue (cursor.bind (·.found)))
  else if name = "NOTFOUND" then some (boolValue (cursor.bind fun o => o.found.map (!·)))
  else if name = "ROWCOUNT" then some ((cursor.map fun o => Value.ofInt o.rowcount).getD .null)
  else none

/-- The variables a SQL expression sees. -/
def lookup : VarLookup
  | none, name =>
      match it.findVar name with
      | some (.scalar v) => some v
      | some (.record _) => none
      | none =>
          if name = "SQLCODE" then some (.ofInt ((it.handling.getLast?.map Exc.sqlcode).getD 0))
          else if name = "SQLERRM" then
            some (.varchar ((it.handling.getLast?.map Exc.sqlerrm).getD
              "ORA-0000: normal, successful completion"))
          else none
  | some qualifier, name =>
      if qualifier = "SQL%" then it.sqlAttribute name
      else if qualifier.toList.getLast? = some '%' then
        (it.findCursor (String.ofList qualifier.toList.dropLast)).bind fun c => cursorAttribute c name
      else
        match it.findVar qualifier with
        | some (.record fields) => (fields.find? fun f => f.1 = name).map Prod.snd
        | _ => none

/-- What SQL reads when the interpreter evaluates an expression. -/
def ex : Ex := ⟨it.cat, it.binds, it.committed, some it.lookup⟩

/-- Whether a name is that of a variable. -/
def isVar (name : String) : Bool := it.frames.any fun f => f.vars.any fun v => v.1 = name

/-- A local or stored procedure or function. A schema prefix is ignored. -/
def findRoutine (name : String) : Option Routine :=
  match it.frames.reverse.findSome? fun f => f.routines.reverse.find? fun r => r.name = name with
  | some r => some r
  | none =>
      if shortName name ≠ name ∧ 1 < name.toList.count '.' then none
      else it.committed.routines[shortName name]?

end Interp

section Calls

variable (isVar isRoutine : String → Bool)

mutual

/-- Whether an expression calls a procedure or function outside any subquery. -/
def Expr.hasCall : Expr → Bool
  | .column none name => !isVar name && isRoutine name
  | .function name args _ => isRoutine name || hasCallList args
  | .neg a | .not a | .isNull a _ => hasCall a
  | .binary _ a b => hasCall a || hasCall b
  | .between a low high _ => hasCall a || hasCall low || hasCall high
  | .inList a list _ => hasCall a || hasCallList list
  | .like a pattern escape _ => hasCall a || hasCall pattern || hasCallOption escape
  | .case operand whens else_ =>
      hasCallOption operand || hasCallWhens whens || hasCallOption else_
  | _ => false
termination_by structural e => e

/-- Whether one of some expressions calls a procedure or function. -/
def Expr.hasCallList : List Expr → Bool
  | [] => false
  | e :: es => hasCall e || hasCallList es
termination_by structural es => es

/-- Whether an optional expression calls a procedure or function. -/
def Expr.hasCallOption : Option Expr → Bool
  | none => false
  | some e => hasCall e
termination_by structural e => e

/-- Whether a branch calls a procedure or function. -/
def Expr.hasCallWhens : List (Expr × Expr) → Bool
  | [] => false
  | (w, t) :: whens => hasCall w || hasCall t || hasCallWhens whens
termination_by structural whens => whens

end

end Calls

/-- Whether an expression calls a routine that the interpreter finds. -/
def Interp.hasCall (it : Interp) (e : Expr) : Bool :=
  e.hasCall it.isVar fun name => (it.findRoutine name).isSome

/-! ## Errors -/

/-- An error of the PL/SQL compiler. -/
def pls (code : Nat) (message : String) : OraError :=
  let digits := toString code
  ⟨6550, "PLS-" ++ "".pushn '0' (5 - digits.length) ++ digits ++ ": " ++ message⟩

/-- In PL/SQL an unknown name is a compile error rather than ORA-00904. -/
def undeclared (e : OraError) : OraError :=
  if e.code ≠ 904 then e
  else
    let name := e.message.toList.takeWhile (· ≠ ':')
    let trimmed := ((name.dropWhile (· = '"')).reverse.dropWhile (· = '"')).reverse
    pls 201 ("identifier '" ++ String.ofList trimmed ++ "' must be declared")

/-! ## Evaluation -/

/-- Run an evaluation of SQL. -/
def PlsqlM.run {α : Type} (onError : OraError → OraError) (m : Interp → EvalM α) : PlsqlM α :=
  fun it =>
    match m it it.evalState with
    | .ok a evalState => .ok a { it with evalState }
    | .error e evalState => .error ⟨onError e, none⟩ { it with evalState }

/-- AND, not evaluating the right side when the left one is FALSE. -/
def PlsqlM.both (left right : PlsqlM (Option Bool)) : PlsqlM (Option Bool) := do
  match ← left with
  | some false => return some false
  | l =>
      match l, ← right with
      | _, some false => return some false
      | some true, some true => return some true
      | _, _ => return none

/-- OR, not evaluating the right side when the left one is TRUE. -/
def PlsqlM.either (left right : PlsqlM (Option Bool)) : PlsqlM (Option Bool) := do
  match ← left with
  | some true => return some true
  | l =>
      match l, ← right with
      | _, some true => return some true
      | some false, some false => return some false
      | _, _ => return none

namespace Interp

/-- Running a procedure or function, which changes the interpreter and returns a function's
result. -/
abbrev Caller := Routine → List Arg → PlsqlM (Option Value)

section Evaluation

variable (eng : Engine) (levels : Nat) (call : Caller)

/-- SQL's value of an expression without calls. -/
def sqlEval (e : Expr) : PlsqlM Value :=
  .run undeclared fun it => (eng.levels levels).eval it.ex e (.empty none)

/-- SQL's truth of a condition without calls. -/
def sqlEvalBool (e : Expr) : PlsqlM (Option Bool) :=
  .run undeclared fun it => (eng.levels levels).evalBool it.ex e (.empty none)

/-- Whether two values are equal, as CASE and DECODE compare them. -/
def equal (a b : Value) : PlsqlM Bool := do
  return (← PlsqlM.run id fun _ => compareM eng a b) == some .eq

mutual

/-- Evaluate an expression whose operands are evaluated only when needed. There is none for other
expressions. AND and OR come here when they contain calls, so `evalBool` would do the same. -/
def evalLazy (e : Expr) : PlsqlM (Option Value) :=
  match e with
  | .binary .and a b => do return some (boolValue (← .both (evalBool a) (evalBool b)))
  | .binary .or a b => do return some (boolValue (← .either (evalBool a) (evalBool b)))
  | .case operand whens else_ => do
      let subject ← match operand with
        | some o => some <$> eval o
        | none => pure none
      some <$> lazyWhens subject else_ whens
  | .function name args _ => do
      if ((← get).findRoutine name).isSome then return none
      else if name = "NVL" ∧ args.length = 2 ∨ name = "COALESCE" ∧ 1 ≤ args.length then
        some <$> firstNonNull args
      else if name = "NVL2" then
        match args with
        | [a, b, c] => do if (← eval a).isNull then some <$> eval c else some <$> eval b
        | _ => return none
      else if name = "DECODE" then
        match args with
        | subject :: pairs =>
            if pairs.length < 2 then return none
            else do
              let v ← eval subject
              some <$> lazyPairs v pairs
        | [] => return none
      else return none
  | _ => return none
termination_by (sizeOf e, 0)

/-- The branches of CASE. -/
def lazyWhens (subject : Option Value) (else_ : Option Expr) (whens : List (Expr × Expr)) :
    PlsqlM Value :=
  match whens with
  | [] =>
      match else_ with
      | some e => eval e
      | none => return .null
  | (w, t) :: rest => do
      let hit ← match subject with
        | some s => equal eng s (← eval w)
        | none => (· == some true) <$> evalBool w
      if hit then eval t else lazyWhens subject else_ rest
termination_by (sizeOf whens + sizeOf else_, 0)

/-- The first argument of NVL or COALESCE that is not NULL. -/
def firstNonNull (args : List Expr) : PlsqlM Value :=
  match args with
  | [] => return .null
  | a :: rest => do
      let v ← eval a
      if !v.isNull then return v else firstNonNull rest
termination_by (sizeOf args, 0)

/-- The pairs of DECODE; an odd one out is the default. -/
def lazyPairs (v : Value) (pairs : List Expr) : PlsqlM Value :=
  match pairs with
  | search :: result :: rest => do
      let s ← eval search
      let hit ← if v.isNull && s.isNull then pure true else equal eng v s
      if hit then eval result else lazyPairs v rest
  | [default] => eval default
  | [] => return .null
termination_by (sizeOf pairs, 0)

/-- Run the calls of an expression and replace them by their results. Calls inside subqueries are
left to SQL. -/
def resolveCalls (e : Expr) : PlsqlM Expr := do
  if !(← get).hasCall e then return e
  match ← evalLazy e with
  | some v => return .literal v
  | none => resolveOperands e
termination_by (sizeOf e, 1)

/-- Run a call, or the calls of the operands. -/
def resolveOperands (e : Expr) : PlsqlM Expr := do
  match e with
  | .column none name =>
      match (← get).findRoutine name with
      | some r => return .literal ((← call r []).getD .null)
      | none => return e
  | .function name args distinct =>
      match (← get).findRoutine name with
      | some r => do
          let values ← resolveAll args
          return .literal ((← call r (values.map (⟨none, ·⟩))).getD .null)
      | none => return .function name (← resolveAll args) distinct
  | .neg a => return .neg (← resolveCalls a)
  | .not a => return .not (← resolveCalls a)
  | .binary op a b => return .binary op (← resolveCalls a) (← resolveCalls b)
  | .isNull a negated => return .isNull (← resolveCalls a) negated
  | .between a low high negated =>
      return .between (← resolveCalls a) (← resolveCalls low) (← resolveCalls high) negated
  | .inList a list negated => return .inList (← resolveCalls a) (← resolveAll list) negated
  | .like a pattern escape negated =>
      return .like (← resolveCalls a) (← resolveCalls pattern) (← resolveOption escape) negated
  | .case operand whens else_ =>
      return .case (← resolveOption operand) (← resolveWhens whens) (← resolveOption else_)
  | e => return e
termination_by (sizeOf e, 0)

/-- Run the calls of expressions, in order. -/
def resolveAll (es : List Expr) : PlsqlM (List Expr) :=
  match es with
  | [] => return []
  | e :: rest => return (← resolveCalls e) :: (← resolveAll rest)
termination_by (sizeOf es, 0)

/-- Run the calls of an expression, if there is one. -/
def resolveOption (e : Option Expr) : PlsqlM (Option Expr) :=
  match e with
  | none => return none
  | some e => some <$> resolveCalls e
termination_by (sizeOf e, 0)

/-- Run the calls of branches, in order. -/
def resolveWhens (whens : List (Expr × Expr)) : PlsqlM (List (Expr × Expr)) :=
  match whens with
  | [] => return []
  | (w, t) :: rest => return (← resolveCalls w, ← resolveCalls t) :: (← resolveWhens rest)
termination_by (sizeOf whens, 0)

/-- Evaluate a condition. -/
def evalBool (e : Expr) : PlsqlM (Option Bool) := do
  -- Short-circuit so calls in operands that do not decide the result never run.
  if (← get).hasCall e then
    match e with
    | .binary .and a b => .both (evalBool a) (evalBool b)
    | .binary .or a b => .either (evalBool a) (evalBool b)
    | .not a => return (← evalBool a).map (!·)
    | e => do sqlEvalBool eng levels (← resolveCalls e)
  else do sqlEvalBool eng levels (← resolveCalls e)
termination_by (sizeOf e, 2)

/-- Evaluate an expression: its calls first, then what is left by SQL. -/
def eval (e : Expr) : PlsqlM Value := do
  sqlEval eng levels (← resolveCalls e)
termination_by (sizeOf e, 2)

end

end Evaluation

end Interp

end MockOracle
