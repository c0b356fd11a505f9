import MockOracle.Session.RowChecks
import MockOracle.System.Atomicity
import MockOracle.System.Validation

/-!
# Row constraints

A successful statement leaves every row that it inserted or changed without a NULL where none is
allowed and with no CHECK that is FALSE. The one exception are rows that an ON DELETE SET NULL
cascade changes and leaves so: their CHECKs are not evaluated.
-/

namespace MockOracle

open Std Semantics

section Statements

variable {ctx : Dml} {st st' : DmlState} {stmt : DmlStatement} {truth : Truth}

end Statements

namespace Literal

/-- A CHECK, if it is one, asks whether a column is NULL. -/
def asksNull : ConstraintKind → Bool
  | .check (.isNull (.column _ _) _) => true
  | .check _ => false
  | _ => true

theorem decided {t : Table} (asks : t.constraints.all (fun k => asksNull k.kind) = true) :
    t.Decided literalEvaluator truth := by
  intro k member _ condition isCheck ex row st st' value evaluated
  have ask := List.all_eq_true.mp asks k member
  rw [isCheck] at ask
  unfold asksNull at ask
  split at ask
  · next table name negated same =>
      cases same
      unfold truth
      simp only [literalEvaluator, pureEval, Literal.condition, Literal.value] at evaluated ⊢
      split at evaluated
      · next equal =>
          cases evaluated
          rw [equal]
      · cases evaluated
  · cases ask
  · next other => exact (other _ rfl).elim

end Literal

/-- Whether a row meets the row constraints of its table. -/
def Table.meets (truth : Truth) (t : Table) (row : Row) : Bool :=
  ((List.range t.columns.length).all fun i => !t.required i || !(cell row i).isNull) &&
    t.constraints.all fun k => !k.enabled || match k.kind with
      | .check condition => truth (tableScopeCols t t.name) condition row != some false
      | _ => true

namespace System

/-- What session 0 runs DML statements with. -/
def dmlContext (sys : System) : Dml := ⟨literalEvaluator, [], sys.db.state, none⟩

end System

end MockOracle
