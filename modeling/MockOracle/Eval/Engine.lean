import MockOracle.Eval.Functions
import MockOracle.Eval.Sequences

/-!
# Expressions and queries

The evaluator of `eval.rs`. Evaluation is recursive: expressions hold queries, queries hold
expressions, and a stored function runs queries of its own. Each definition here does one level
of the recursion and takes the levels below it as a `Recur`; `Engine.levels` ties the knot to
any depth. Stored functions are run by `callFunction`, which is left open.
-/

namespace MockOracle

open Std

/-- The evaluator one level down. -/
structure Recur where
  eval : Ex → Expr → Scope → EvalM Value
  evalBool : Ex → Expr → Scope → EvalM (Option Bool)
  query : Ex → Query → Option Scope → EvalM Relation

/-- What the evaluator is built from. -/
structure Engine where
  lib : Library
  scalar : Scalar
  /-- Run a stored function. Called from SQL it may read but not change data. -/
  callFunction : Recur → Ex → Routine → List Value → EvalM Value

namespace Scope

/-- The columns of the row in scope. -/
def cols : Scope → List RelCol
  | mk cols _ _ _ _ => cols

/-- The values of the row in scope. -/
def values : Scope → Row
  | mk _ row _ _ _ => row

/-- The rows of the group in scope. -/
def group : Scope → Option (List Row)
  | mk _ _ group _ _ => group

/-- The number of the row in scope. -/
def rownum : Scope → Int
  | mk _ _ _ rownum _ => rownum

/-- The scope of one row of the group. -/
def inner (scope : Scope) (row : Row) : Scope :=
  match scope with
  | mk cols _ _ rownum parent => mk cols row none rownum parent

/-- The value of a column of this scope or of the nearest one around it. -/
def find (table : Option String) (name : String) : Scope → Except OraError (Option Value)
  | mk cols row _ _ parent => do
      match ← findColumn cols table name with
      | some i => return some (row.getD i .null)
      | none =>
          match parent with
          | none => return none
          | some scope => find table name scope

end Scope

/-- Keep the elements a computation accepts. -/
def keepWhere {α : Type} (accept : α → EvalM Bool) : List α → EvalM (List α)
  | [] => pure []
  | a :: rest => do
      let kept ← accept a
      let rest ← keepWhere accept rest
      return if kept then a :: rest else rest

/-- The rows with distinct keys, each the first of its key. -/
def distinctBy {α : Type} (key : α → String) (rows : List α) : List α :=
  (rows.foldl (fun (acc : List α × List String) row =>
    if acc.2.contains (key row) then acc else (acc.1 ++ [row], key row :: acc.2)) ([], [])).1

/-- ORA-00934, an aggregate outside of a group. -/
def notAllowed : OraError := ⟨934, "group function is not allowed here"⟩

section Step

variable (eng : Engine) (self : Recur) (ex : Ex)

/-- The session's format of dates. -/
def dateFormat : EvalM String := do return (← get).env.nlsDateFormat

/-- The text of a value in the session's formats. -/
def textOf (v : Value) : EvalM (Option String) := do
  return toText eng.lib.dates (← get).env v

/-- The comparison of two values in the session's date format. -/
def compareM (a b : Value) : EvalM (Option Ordering) := do
  EvalM.lift (compareValues eng.lib.dates (← dateFormat) a b)

/-- Call a built-in or stored function. -/
def call (name : String) (args : List Value) : EvalM Value := do
  match builtin eng.lib (← get).env eng.scalar name with
  | some f => EvalM.lift (f args)
  | none =>
      match ex.committed.routines[shortName name]? with
      | some routine => eng.callFunction self ex routine args
      | none => throw (.invalidIdentifier ("\"" ++ name ++ "\""))

/-- The value of a name: a column, a PL/SQL variable, or a stored function without arguments. -/
def resolve (scope : Scope) (table : Option String) (name : String) : EvalM Value := do
  match ← EvalM.lift (scope.find table name) with
  | some v => return v
  | none =>
      match ex.vars.bind fun lookup => lookup table name with
      | some v => return v
      | none =>
          if table.isNone && (ex.committed.routines[name]?).isSome then call eng self ex name []
          else throw (invalidColumn table name)

/-- Run a query that must return one column. -/
def singleColumn (q : Query) (scope : Scope) : EvalM (List Value) := do
  let rel ← self.query ex q (some scope)
  if rel.cols.length ≠ 1 then throw ⟨913, "too many values"⟩
  return rel.rows.map fun row => row.getLastD .null

/-! ## Aggregates -/

/-- The numbers of values that are not NULL. -/
def numbersOf (values : List Value) : Except OraError (List BigDecimal) :=
  values.mapM fun v => convert ⟨0, 0⟩ v.toNumber

/-- MEDIAN: the middle one of the sorted numbers, or the mean of the two in the middle. -/
def median (ns : List BigDecimal) : BigDecimal :=
  let ns := ns.mergeSort fun a b => a.cmp b != .gt
  let mid := ns.length / 2
  let at_ (i : Nat) := ns.getD i ⟨0, 0⟩
  if ns.length % 2 = 1 then at_ mid
  else roundNumber eng.lib (eng.lib.div ((at_ (mid - 1)).add (at_ mid)) ⟨2, 0⟩)

/-- The sample variance, and the standard deviation. -/
def spread (variance : Bool) (ns : List BigDecimal) : BigDecimal :=
  let count : BigDecimal := ⟨ns.length, 0⟩
  let mean := eng.lib.div (.sum ns) count
  let squares := ns.map fun x => (x.sub mean).mul (x.sub mean)
  let var := roundNumber eng.lib (eng.lib.div (.sum squares) (count.sub ⟨1, 0⟩))
  if variance then var else roundNumber eng.lib (eng.lib.sqrt var)

/-- The aggregate of the values of a group that are not NULL. -/
def aggregateValues (env : Env) (name : String) (values : List Value) : Except OraError Value :=
  if name = "COUNT" then .ok (.ofInt values.length)
  else if name = "SUM" then
    if values.isEmpty then .ok .null else return .number (.sum (← numbersOf values))
  else if name = "AVG" then
    if values.isEmpty then .ok .null
    else return .number (roundNumber eng.lib
      (eng.lib.div (.sum (← numbersOf values)) ⟨values.length, 0⟩))
  else if name = "MIN" ∨ name = "MAX" then
    match values with
    | [] => .ok .null
    | first :: rest => bestOf eng.lib env (if name = "MIN" then .lt else .gt) first rest
  else if name = "MEDIAN" then do
    let ns ← numbersOf values
    return if ns.isEmpty then .null else .number (median eng ns)
  else do
    let ns ← numbersOf values
    if ns.isEmpty then return .null
    else if ns.length = 1 then return .ofInt 0
    else return .number (spread eng (name = "VARIANCE") ns)

/-- An aggregate over the rows of the group. -/
def aggregate (name : String) (args : List Expr) (distinct : Bool) (scope : Scope) :
    EvalM Value := do
  match scope.group with
  | none => throw notAllowed
  | some group =>
      match args with
      | [arg] =>
          let values ← forEach (fun row => self.eval ex arg (scope.inner row)) group
          let values := values.filter fun v => !v.isNull
          let values := if distinct then distinctBy (fun v => keyString [v]) values else values
          EvalM.lift (aggregateValues eng (← get).env name values)
      | _ => throw argCount

/-! ## Conditions -/

/-- AND, not evaluating the right side when the left one is FALSE. -/
def evalAnd (left right : EvalM (Option Bool)) : EvalM (Option Bool) := do
  match ← left with
  | some false => return some false
  | x =>
      match x, ← right with
      | _, some false => return some false
      | some true, some true => return some true
      | _, _ => return none

/-- OR, not evaluating the right side when the left one is TRUE. -/
def evalOr (left right : EvalM (Option Bool)) : EvalM (Option Bool) := do
  match ← left with
  | some true => return some true
  | x =>
      match x, ← right with
      | _, some true => return some true
      | some false, some false => return some false
      | _, _ => return none

/-- Whether a comparison accepts an order. -/
def BinaryOp.accepts (op : BinaryOp) (order : Ordering) : Bool :=
  match op with
  | .eq => order = .eq
  | .notEq => order ≠ .eq
  | .lt => order = .lt
  | .ltEq => order ≠ .gt
  | .gt => order = .gt
  | _ => order ≠ .lt

/-- The operators whose result is a truth value. -/
def BinaryOp.isCondition : BinaryOp → Bool
  | .and | .or | .eq | .notEq | .lt | .ltEq | .gt | .gtEq => true
  | _ => false

/-- BETWEEN from the comparisons with its bounds. -/
def bothBounds (lo hi : Option Bool) : Option Bool :=
  match lo, hi with
  | some false, _ | _, some false => some false
  | some true, some true => some true
  | _, _ => none

/-- The escape character of LIKE. -/
def evalEscape (escape : Option Expr) (scope : Scope) : EvalM (Option Char) := do
  match escape with
  | none => return none
  | some e =>
      match (← textOf eng (← self.eval ex e scope)).map String.toList with
      | some [c] => return some c
      | _ => throw ⟨1425, "escape character must be character string of length 1"⟩

/-- A condition in three-valued logic: there is no result for UNKNOWN. -/
def evalBoolStep (e : Expr) (scope : Scope) : EvalM (Option Bool) :=
  match e with
  | .binary .and a b => evalAnd (self.evalBool ex a scope) (self.evalBool ex b scope)
  | .binary .or a b => evalOr (self.evalBool ex a scope) (self.evalBool ex b scope)
  | .binary op a b =>
      if op.isCondition then do
        let x ← self.eval ex a scope
        let y ← self.eval ex b scope
        return (← compareM eng x y).map op.accepts
      else asBool e
  | .not a => do return (← self.evalBool ex a scope).map (!·)
  | .isNull a negated => do return some ((← self.eval ex a scope).isNull != negated)
  | .between a low high negated => do
      let v ← self.eval ex a scope
      let lo := (← compareM eng v (← self.eval ex low scope)).map (· != .lt)
      let hi := (← compareM eng v (← self.eval ex high scope)).map (· != .gt)
      return (bothBounds lo hi).map (· != negated)
  | .inList a list negated => do
      let v ← self.eval ex a scope
      let candidates ← forEach (fun item => self.eval ex item scope) list
      return (← EvalM.lift (inValues eng.lib.dates (← dateFormat) v candidates)).map (· != negated)
  | .inSubquery a q negated => do
      let v ← self.eval ex a scope
      let candidates ← singleColumn self ex q scope
      return (← EvalM.lift (inValues eng.lib.dates (← dateFormat) v candidates)).map (· != negated)
  | .exists q => do return some (!(← self.query ex q (some scope)).rows.isEmpty)
  | .like a pattern escape negated => do
      let v ← self.eval ex a scope
      let p ← self.eval ex pattern scope
      let esc ← evalEscape eng self ex escape scope
      match ← textOf eng v, ← textOf eng p with
      | some s, some p => return some ((← EvalM.lift (like s p esc)) != negated)
      | _, _ => return none
  | e => asBool e
where
  /-- A BOOLEAN value, such as a PL/SQL variable. -/
  asBool (e : Expr) : EvalM (Option Bool) := do
    match ← self.eval ex e scope with
    | .boolean b => return some b
    | .null => return none
    | _ => throw ⟨920, "invalid relational operator"⟩

/-! ## Values -/

/-- A condition used as a value. -/
def conditionValue (condition : EvalM (Option Bool)) : EvalM Value := do
  return ((← condition).map Value.boolean).getD .null

/-- Whether a branch of CASE is taken: its value equals the subject, or its condition holds. -/
def whenHits (subject : Option Value) (scope : Scope) (when_ : Expr) : EvalM Bool :=
  match subject with
  | some s => do return (← compareM eng s (← self.eval ex when_ scope)) == some .eq
  | none => do return (← self.evalBool ex when_ scope) == some true

/-- The branches of CASE. -/
def evalWhens (subject : Option Value) (scope : Scope) (otherwise : Option Expr) :
    List (Expr × Expr) → EvalM Value
  | [] =>
      match otherwise with
      | some e => self.eval ex e scope
      | none => return .null
  | (when_, then_) :: rest => do
      if ← whenHits eng self ex subject scope when_ then self.eval ex then_ scope
      else evalWhens subject scope otherwise rest

/-- One level of an expression; what is inside of it is evaluated by the levels below. -/
def evalStep (e : Expr) (scope : Scope) : EvalM Value :=
  match e with
  | .literal v => return v
  | .bind i => return ex.binds.getD i .null
  | .column table name => resolve eng self ex scope table name
  | .rowNum => return .ofInt scope.rownum
  | .sequence name next => sequenceValue ex name next
  | .neg a => do
      match ← EvalM.lift (← self.eval ex a scope).toNumber with
      | some n => return .number n.neg
      | none => return .null
  | .binary .concat a b => do
      let x ← self.eval ex a scope
      let y ← self.eval ex b scope
      return Value.varchar ((← textOf eng x).getD "" ++ (← textOf eng y).getD "")
  | .binary op a b =>
      if op.isCondition then conditionValue (evalBoolStep eng self ex e scope)
      else do
        let x ← self.eval ex a scope
        let y ← self.eval ex b scope
        EvalM.lift (arithmetic eng.lib op x y)
  | .case operand whens else_ => do
      let subject ← match operand with
        | some o => some <$> self.eval ex o scope
        | none => pure none
      evalWhens eng self ex subject scope else_ whens
  | .countStar =>
      match scope.group with
      | some group => return .ofInt group.length
      | none => throw notAllowed
  | .function name args distinct =>
      if isAggregate name then aggregate eng self ex name args distinct scope
      else do
        let values ← forEach (fun a => self.eval ex a scope) args
        call eng self ex name values
  | .subquery q => do
      match ← singleColumn self ex q scope with
      | [] => return .null
      | [v] => return v
      | _ => throw ⟨1427, "single-row subquery returns more than one row"⟩
  | e => conditionValue (evalBoolStep eng self ex e scope)

end Step

end MockOracle
