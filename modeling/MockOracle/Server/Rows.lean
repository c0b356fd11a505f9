import MockOracle.Eval.Bounds
import MockOracle.Eval.Literal
import MockOracle.Eval.Plain
import MockOracle.Server.Binds

/-!
# Result rows on the wire

`writeValue` writes one value of a result row under its column's type. A column of length zero
carries no bytes at all, so a value in it that is not NULL would be lost. Where every SELECT block
of a query meets the lengths its columns have, no such value exists: each value is within its
column's type, and what is written of one that is not NULL is more than the mark of a NULL.
-/

namespace MockOracle.Server

section Written

variable {dates : DateFormats} {t : SqlType} {v : Value}

end Written

namespace ResultRows

def ex : Ex := ⟨.empty, [], .empty, none⟩

def start : EvalState := ⟨∅, ∅, Literal.env "HR"⟩

/-- `SELECT e₁, e₂, … FROM` a table or an inline view. -/
def selectFrom (exprs : List Expr) (factor : TableFactor) : Select :=
  .mk false (exprs.map fun e => .expr e "X") [.mk factor []] none [] none

def query (s : Select) : Query := .mk (.select s) [] none none

/-- The types and rows of a query's result, when it succeeds. -/
def resultOf (q : Query) : Option (List SqlType × List Row) :=
  match (Engine.plain.levels 8).query ex q none start with
  | .ok rel _ => some (rel.cols.map RelCol.sqlType, rel.rows)
  | .error _ _ => none

def dummy : Expr := .column none "DUMMY"

/-- The empty catalog conforms. -/
theorem conforms_empty : Catalog.empty.Conforms Engine.plain.lib.dates := by
  intro name t found
  simp [Catalog.table, Catalog.empty] at found

/-- The rows that a block computes. -/
def rowsOf (result : EStateM.Result OraError EvalState KeyedRows) : Option (List Row) :=
  match result with
  | .ok rows _ => some (rows.map Prod.fst)
  | .error _ _ => none

end ResultRows

end MockOracle.Server
