import MockOracle.Eval.Evaluator

/-!
# An evaluator for plain expressions

Literals, binds, columns, integer addition, equality, IS NULL and the logical operators,
with the meaning they have in the engine. Other expressions, and queries, are refused. It
is enough for the concrete runs in this development, which show that the hypotheses of a
theorem can be met or that a condition cannot be dropped.
-/

namespace MockOracle

open Std

namespace Literal

/-- What this evaluator does not cover. -/
def unsupported : OraError := ⟨3001, "unimplemented feature"⟩

/-- The value of a column of the current row. -/
def column (table : Option String) (name : String) : Scope → Option Value
  | .mk cols row _ _ _ =>
      (cols.findIdx? fun c => c.name == name && (table.isNone || c.qualifier == table)).map
        fun i => row.getD i .null

/-- The exact sum. -/
def add (a b : BigDecimal) : BigDecimal :=
  let scale := max a.scale b.scale
  ⟨a.intVal * 10 ^ (scale - a.scale).toNat + b.intVal * 10 ^ (scale - b.scale).toNat, scale⟩

/-- SQL equality: unknown when one side is NULL. -/
def equal : Value → Value → Except OraError (Option Bool)
  | .null, _ => .ok none
  | _, .null => .ok none
  | .number a, .number b => .ok (some (a.normalized = b.normalized))
  | .varchar2 a, .varchar2 b => .ok (some (a = b))
  | .date a, .date b => .ok (some (a = b))
  | .timestamp a, .timestamp b => .ok (some (a = b))
  | _, _ => .error unsupported

/-- The conjunction of SQL. -/
def and3 : Option Bool → Option Bool → Option Bool
  | some false, _ => some false
  | _, some false => some false
  | some true, some true => some true
  | _, _ => none

/-- The disjunction of SQL. -/
def or3 : Option Bool → Option Bool → Option Bool
  | some true, _ => some true
  | _, some true => some true
  | some false, some false => some false
  | _, _ => none

/-- The value of an expression. -/
def value (binds : List Value) (scope : Scope) : Expr → Except OraError Value
  | .literal v => .ok v
  | .bind i => .ok (binds.getD i .null)
  | .column table name => (column table name scope).elim (.error (.invalidIdentifier name)) .ok
  | .binary .add left right =>
      match value binds scope left, value binds scope right with
      | .ok (.number a), .ok (.number b) => .ok (.number (add a b))
      | .ok .null, .ok _ => .ok .null
      | .ok _, .ok .null => .ok .null
      | .error e, _ => .error e
      | _, .error e => .error e
      | _, _ => .error unsupported
  | _ => .error unsupported

/-- The truth value of a condition. -/
def condition (binds : List Value) (scope : Scope) : Expr → Except OraError (Option Bool)
  | .isNull e negated => (value binds scope e).map fun v => some (v.isNull != negated)
  | .binary .eq left right =>
      match value binds scope left, value binds scope right with
      | .ok a, .ok b => equal a b
      | .error e, _ => .error e
      | _, .error e => .error e
  | .binary .and left right =>
      match condition binds scope left, condition binds scope right with
      | .ok a, .ok b => .ok (and3 a b)
      | .error e, _ => .error e
      | _, .error e => .error e
  | .binary .or left right =>
      match condition binds scope left, condition binds scope right with
      | .ok a, .ok b => .ok (or3 a b)
      | .error e, _ => .error e
      | _, .error e => .error e
  | _ => .error unsupported

/-- A computation that reads no state. -/
def pureEval {α : Type} (result : Except OraError α) : EvalM α := fun st =>
  match result with
  | .ok a => .ok a st
  | .error e => .error e st

end Literal

/-- The evaluator for plain expressions. Values are stored as they are. -/
def literalEvaluator : Evaluator where
  eval ex e scope := Literal.pureEval (Literal.value ex.binds scope e)
  evalBool ex e scope := Literal.pureEval (Literal.condition ex.binds scope e)
  query _ _ _ := Literal.pureEval (.error Literal.unsupported)
  startRow _ _ := pure ()
  storeValue _ _ _ v := .ok v
  alterSession env _ _ := .ok env
  rectangular evaluated := by cases evaluated

/-- The environment of a new session, opened at the epoch in UTC. -/
def Literal.env (user : String) : Env :=
  ⟨user, "DD-MON-RR", "DD-MON-RR HH.MI.SSXFF AM", 0, ⟨0, 0⟩, ⟨0, 0⟩, ∅, ⟨false, [], "", 0⟩, 0, ∅⟩

/-! ## Statements -/

namespace Literal

/-- CREATE TABLE with NUMBER columns. -/
def createTable (name : String) (columns : List String) (constraints : List TableConstraint) :
    Statement :=
  .createTable ⟨name, columns.map fun c => ⟨c, .number 0 0, none, false, false⟩, constraints, none⟩

/-- The declaration of a primary key. -/
def primaryKey (name column : String) : TableConstraint :=
  ⟨some name, .primaryKey [column], true, true⟩

/-- A foreign key on the primary key of another table. -/
def references (name column parent : String) (onDelete : OnDelete) : TableConstraint :=
  ⟨some name, .foreignKey [column] parent [] onDelete, true, true⟩

/-- `INSERT INTO table VALUES (…)`. -/
def insert (table : String) (values : List Value) : Statement :=
  .insert ⟨table, none, .values (values.map .literal), none⟩

/-- The condition `column = n`. -/
def isNumber (column : String) (n : Int) : Expr :=
  .binary .eq (.column none column) (.literal (.ofInt n))

/-- `UPDATE table SET column = e WHERE …`. -/
def update (table column : String) (e : Expr) (where_ : Option Expr) : Statement :=
  .update ⟨table, none, [(column, e)], where_, none⟩

/-- `DELETE FROM table WHERE …`. -/
def delete (table : String) (where_ : Option Expr) : Statement :=
  .delete ⟨table, none, where_, none⟩

end Literal

end MockOracle
