import MockOracle.Plsql.Variables
import MockOracle.Semantics.Traced

/-!
# Expressions in the running interpreter

Expressions of PL/SQL in the interpreter with all of its state. The calls of routines in an
expression run before SQL evaluates what is left, and SQL may itself call stored functions. What
the functions of the interpreter call again at a smaller depth is passed to them as `Calls`.
-/

namespace MockOracle

namespace Routine

/-- The parameters of a routine. -/
def params : Routine → List Param
  | mk _ params _ _ => params

/-- What a routine returns, if it is a function. -/
def returns : Routine → Option TypeRef
  | mk _ _ returns _ => returns

/-- The block that a routine runs. -/
def block : Routine → Block
  | mk _ _ _ block => block

end Routine

namespace Plsql

open Semantics

variable {H : Type}

/-- A computation of the interpreter. -/
abbrev Run (host : Host H) (α : Type) := Traced (Action.apply host) α

/-- How statements end. -/
inductive Flow where
  | normal
  | exit (label : Option String)
  | continue (label : Option String)
  | return (v : Option Value)

/-- A procedure argument after evaluation. -/
inductive ArgValue where
  | in (v : Value)
  /-- Where the result goes, and the value passed in. -/
  | out (target : Target) (v : Value)

/-- The interpreter as its own functions call it. -/
structure Calls (host : Host H) where
  eval : Expr → Run host Value
  evalBool : Expr → Run host (Option Bool)
  resolveCalls : Expr → Run host Expr
  call : Routine → List Arg → Run host (Option Value)
  invoke : Routine → List ArgValue → Run host (Value × List (Target × Value))
  statements : List Stmt → Run host Flow
  block : Block → Run host Flow

section

variable {host : Host H} {α : Type}

/-- Take an action. -/
def act (a : Action H host.dates) : Run host Unit := Traced.step a

/-- The interpreter that is running. -/
def interp : Run host Interp := State.it <$> Traced.read

/-- Raise an error of the database. -/
def raiseError (e : OraError) : Run host α := Traced.fail ⟨e, none⟩

/-- A result, or its error raised. -/
def orRaise : Except OraError α → Run host α
  | .ok a => return a
  | .error e => raiseError e

end

/-- A local or stored procedure or function. A schema prefix is ignored. -/
def findRoutine (host : Host H) (s : State H) (name : String) : Option Routine :=
  match s.it.frames.findSome? fun f => f.routines.find? fun r => r.name = name with
  | some r => some r
  | none =>
      if shortName name ≠ name ∧ 1 < name.toList.count '.' then none
      else host.routine s.data (shortName name)

/-- The routine of a name, as the running interpreter sees it. -/
def routineNamed {host : Host H} (name : String) : Run host (Option Routine) :=
  return findRoutine host (← Traced.read) name

/-- Whether an expression calls a procedure or function outside any subquery. -/
def hasCall {host : Host H} (e : Expr) : Run host Bool := do
  let s ← Traced.read
  return e.hasCall s.it.isVar fun name => (findRoutine host s name).isSome

variable (host : Host H) (self : Calls host)

/-! ## SQL -/

/-- Calls a stored function from SQL. -/
def callFunction (r : Routine) (args : List Value) : Run host (Except OraError Value) := do
  if !r.isFunction then return .error (.invalidIdentifier ("\"" ++ r.name ++ "\""))
  else if r.params.any fun p => p.mode != .in then
    return .error ⟨6572, "Function " ++ r.name ++ " has out arguments"⟩
  else
    act (.enter [] true)
    let result ← Traced.attempt (self.invoke r (args.map .in))
    act .leave
    return match result with
      | .ok (v, _) => .ok v
      | .error exc => .error exc.err

/-- Runs SQL, with the stored functions that it calls. -/
def runSql {α : Type} : SqlRun H α → Run host (Except OraError α)
  | .done result data => do
      act (.setData data)
      return result
  | .call r args data resume => do
      act (.setData data)
      let result ← callFunction host self r args
      let s ← Traced.read
      runSql (resume result s.data)

/-- SQL's value of an expression without calls. -/
def sqlEval (e : Expr) : Run host Value := do
  let s ← Traced.read
  match ← runSql host self (host.eval s.data s.it.binds s.it.lookup e) with
  | .ok v => return v
  | .error e => raiseError (undeclared e)

/-- SQL's truth of a condition without calls. -/
def sqlEvalBool (e : Expr) : Run host (Option Bool) := do
  let s ← Traced.read
  match ← runSql host self (host.evalBool s.data s.it.binds s.it.lookup e) with
  | .ok b => return b
  | .error e => raiseError (undeclared e)

/-- Runs a SQL statement. A function called from SQL may run queries only. -/
def execute (stmt : Statement) (binds : List Value) (vars : Option VarLookup) :
    Run host Outcome := do
  let s ← Traced.read
  match s.it.readOnly, stmt with
  | true, .query q => orRaise (← runSql host self (host.execute s.data (.query q) binds vars))
  | true, _ => raiseError ⟨14551, "cannot perform a DML operation inside a query"⟩
  | false, stmt => orRaise (← runSql host self (host.execute s.data stmt binds vars))

/-- Runs a SQL statement with the block's variables and binds visible. -/
def runStatement (stmt : Statement) : Run host Outcome := do
  let it ← interp
  execute host self stmt it.binds (some it.lookup)

/-! ## Expressions -/

/-- AND, not evaluating the right side when the left one is FALSE. -/
def both (left right : Run host (Option Bool)) : Run host (Option Bool) := do
  match ← left with
  | some false => return some false
  | l =>
      match l, ← right with
      | _, some false => return some false
      | some true, some true => return some true
      | _, _ => return none

/-- OR, not evaluating the right side when the left one is TRUE. -/
def either (left right : Run host (Option Bool)) : Run host (Option Bool) := do
  match ← left with
  | some true => return some true
  | l =>
      match l, ← right with
      | _, some true => return some true
      | some false, some false => return some false
      | _, _ => return none

/-- Whether two values are equal, as CASE and DECODE compare them. -/
def equal (a b : Value) : Run host Bool := do
  let s ← Traced.read
  let order ← orRaise (compareValues host.dates (host.env s.data).nlsDateFormat a b)
  return order == some .eq

/-- Whether a WHEN of CASE is the branch to take. -/
def whenHits (subject : Option Value) (when_ : Expr) : Run host Bool :=
  match subject with
  | some s => do equal host s (← self.eval when_)
  | none => (· == some true) <$> self.evalBool when_

/-- The branches of a CASE expression. -/
def lazyWhens (subject : Option Value) (else_ : Option Expr) : List (Expr × Expr) → Run host Value
  | [] =>
      match else_ with
      | some e => self.eval e
      | none => return .null
  | (w, t) :: rest => do
      if ← whenHits host self subject w then self.eval t else lazyWhens subject else_ rest

/-- The first argument of NVL or COALESCE that is not NULL. -/
def firstNonNull : List Expr → Run host Value
  | [] => return .null
  | a :: rest => do
      let v ← self.eval a
      if !v.isNull then return v else firstNonNull rest

/-- Whether DECODE takes the result of a pair. Two NULLs are equal to it. -/
def pairHits (v s : Value) : Run host Bool :=
  if v.isNull && s.isNull then return true else equal host v s

/-- The pairs of DECODE; an odd one out is the default. -/
def lazyPairs (v : Value) : List Expr → Run host Value
  | search :: result :: rest => do
      let s ← self.eval search
      if ← pairHits host v s then self.eval result else lazyPairs v rest
  | [default] => self.eval default
  | [] => return .null

/-- An optional expression's value. -/
def evalOption (e : Option Expr) : Run host (Option Value) :=
  match e with
  | some e => some <$> self.eval e
  | none => return none

/-- Evaluates a built-in function whose arguments are evaluated only when needed. -/
def lazyFunction (name : String) (args : List Expr) : Run host (Option Value) :=
  if name = "NVL" ∧ args.length = 2 ∨ name = "COALESCE" ∧ 1 ≤ args.length then
    some <$> firstNonNull host self args
  else if name = "NVL2" then
    match args with
    | [a, b, c] => do if (← self.eval a).isNull then some <$> self.eval c else some <$> self.eval b
    | _ => return none
  else if name = "DECODE" then
    match args with
    | subject :: search :: result :: rest => do
        let v ← self.eval subject
        some <$> lazyPairs host self v (search :: result :: rest)
    | _ => return none
  else return none

/-- Evaluates an expression whose operands are evaluated only when needed. There is none for other
expressions. -/
def evalLazy (e : Expr) : Run host (Option Value) :=
  match e with
  | .binary .and _ _ | .binary .or _ _ => do
      return some (MockOracle.Interp.boolValue (← self.evalBool e))
  | .case operand whens else_ => do
      let subject ← evalOption host self operand
      some <$> lazyWhens host self subject else_ whens
  | .function name args _ => do
      if (← routineNamed name).isSome then return none else lazyFunction host self name args
  | _ => return none

/-- Resolves the calls of a list of expressions, in order. -/
def resolveAll : List Expr → Run host (List Expr)
  | [] => return []
  | e :: rest => do
      let e ← self.resolveCalls e
      return e :: (← resolveAll rest)

/-- Resolves the calls of an expression, if there is one. -/
def resolveOption : Option Expr → Run host (Option Expr)
  | none => return none
  | some e => some <$> self.resolveCalls e

/-- Resolves the calls of branches, in order. -/
def resolveWhens : List (Expr × Expr) → Run host (List (Expr × Expr))
  | [] => return []
  | (w, t) :: rest => do
      let w ← self.resolveCalls w
      let t ← self.resolveCalls t
      return (w, t) :: (← resolveWhens rest)

/-- Runs a call, or the calls of the operands. -/
def resolveOperands (e : Expr) : Run host Expr := do
  match e with
  | .column none name =>
      match ← routineNamed name with
      | some r => return .literal ((← self.call r []).getD .null)
      | none => return e
  | .function name args distinct =>
      match ← routineNamed name with
      | some r => do
          let values ← resolveAll host self args
          return .literal ((← self.call r (values.map (⟨none, ·⟩))).getD .null)
      | none => return .function name (← resolveAll host self args) distinct
  | .neg a => return .neg (← self.resolveCalls a)
  | .not a => return .not (← self.resolveCalls a)
  | .binary op a b => return .binary op (← self.resolveCalls a) (← self.resolveCalls b)
  | .isNull a negated => return .isNull (← self.resolveCalls a) negated
  | .between a low high negated =>
      return .between (← self.resolveCalls a) (← self.resolveCalls low)
        (← self.resolveCalls high) negated
  | .inList a list negated =>
      return .inList (← self.resolveCalls a) (← resolveAll host self list) negated
  | .like a pattern escape negated =>
      return .like (← self.resolveCalls a) (← self.resolveCalls pattern)
        (← resolveOption host self escape) negated
  | .case operand whens else_ =>
      return .case (← resolveOption host self operand) (← resolveWhens host self whens)
        (← resolveOption host self else_)
  | e => return e

/-- Runs the calls of an expression and replaces them by their results. Calls inside subqueries are
left to SQL. -/
def resolveCalls (e : Expr) : Run host Expr := do
  if !(← hasCall e) then return e
  match ← evalLazy host self e with
  | some v => return .literal v
  | none => resolveOperands host self e

/-- Evaluates an expression: its calls first, then what is left by SQL. -/
def eval (e : Expr) : Run host Value := do
  sqlEval host self (← self.resolveCalls e)

/-- Evaluates a condition. -/
def evalBool (e : Expr) : Run host (Option Bool) := do
  -- Short-circuit so calls in operands that do not decide the result never run.
  match ← hasCall e, e with
  | true, .binary .and a b => both host (self.evalBool a) (self.evalBool b)
  | true, .binary .or a b => either host (self.evalBool a) (self.evalBool b)
  | true, .not a => (·.map (!·)) <$> self.evalBool a
  | _, e => sqlEvalBool host self (← self.resolveCalls e)

/-- The numbers of 64 bits. -/
def FitsI64 (i : Int) : Prop := -2 ^ 63 ≤ i ∧ i < 2 ^ 63

/-- Whether a number has 64 bits can be decided. -/
instance (i : Int) : Decidable (FitsI64 i) := inferInstanceAs (Decidable (_ ∧ _))

/-- A value as an integer of 64 bits, halves rounded away from zero. -/
def toInt (v : Value) : Except OraError Int :=
  match v.toNumber with
  | .error e => .error (asValueError e)
  | .ok none => .error (valueError "")
  | .ok (some n) =>
      if FitsI64 (n.withScaleRound 0).intVal then .ok (n.withScaleRound 0).intVal
      else .error (valueError "")

/-- Evaluates an integer. -/
def evalInt (e : Expr) : Run host Int := do
  orRaise (toInt (← self.eval e))

/-- Evaluates expressions in order. -/
def evalAll : List Expr → Run host (List Value)
  | [] => return []
  | e :: rest => do
      let v ← self.eval e
      return v :: (← evalAll rest)

end Plsql

end MockOracle
