import MockOracle.Session.Atomic
import MockOracle.System.Rollback

/-!
# Statement atomicity

In every reachable state, a DML statement that fails leaves the session's transaction as it
was, provided that its enforcement sets no row to NULL twice that has a unique key in between.
-/

namespace MockOracle

open Std Semantics

namespace System

/-- A failing statement leaves tables, indexes and log as they were, unless its enforcement has
set a row to NULL twice that had a key in between. -/
theorem failed_statement_atomic {ev : Evaluator} {sys : System} (reachable : Reachable ev sys)
    (i : Nat) (binds : List Value) (vars : Option VarLookup) (stmt : DmlStatement) {e : OraError}
    (once : (sys.world i).NullsOnce ev binds vars stmt)
    (failed : ((sys.world i).dml ev binds vars stmt).1 = .error e) :
    ((sys.world i).dml ev binds vars stmt).2.session.txn = (sys.sessions i).txn :=
  have valid := reachable.valid.world i
  valid.dml_error (valid.dmlSafe once) failed

/-- A parent row that a row of D references, and a row of C by two foreign keys, all of it
uncommitted. -/
def twoReferences : System :=
  (new fun _ => Literal.env "SCOTT").runAll literalEvaluator
    [.sql 0 (Literal.createTable "P" ["ID"] [Literal.primaryKey "P_PK" "ID"]),
      .sql 0 (Literal.createTable "C" ["ID", "A", "B"]
        [Literal.primaryKey "C_PK" "ID", Literal.references "C_A" "A" "P" .setNull,
          Literal.references "C_B" "B" "P" .setNull]),
      .sql 0 (Literal.createTable "D" ["P"] [Literal.references "D_P" "P" "P" .restrict]),
      .sql 0 (Literal.insert "P" [.ofInt 1]),
      .sql 0 (Literal.insert "C" [.ofInt 1, .ofInt 1, .ofInt 1]),
      .sql 0 (Literal.insert "D" [.ofInt 1])]

/-- The DELETE of all rows of P. -/
def deleteParents : DmlStatement := .delete ⟨"P", none, none, none⟩

/-- The DELETE sets both columns of C to NULL before D refuses it. It fails, and the row of C
keeps the NULLs. -/
theorem failed_statement_traces :
    let result := (twoReferences.world 0).dml literalEvaluator [] none deleteParents
    Reachable literalEvaluator twoReferences ∧
      (twoReferences.sessions 0).txn.any (fun txn => !txn.log.isEmpty) = true ∧
      result.1 = .error ⟨2292, "integrity constraint (SCOTT.D_P) violated - child record found"⟩ ∧
      (twoReferences.world 0).catalog.rowAt ("C", 2) = some [.ofInt 1, .ofInt 1, .ofInt 1] ∧
      result.2.catalog.rowAt ("C", 2) = some [.ofInt 1, .null, .null] ∧
      result.2.session.txn ≠ (twoReferences.sessions 0).txn := by
  intro result
  have before : (twoReferences.sessions 0).txn.map (·.work.rowAt ("C", 2)) =
      some (some [.ofInt 1, .ofInt 1, .ofInt 1]) := by decide
  have after : result.2.session.txn.map (·.work.rowAt ("C", 2)) =
      some (some [.ofInt 1, .null, .null]) := by decide
  refine ⟨reachable_runAll _ _ _, by decide, by decide, by decide, by decide, fun same => ?_⟩
  rw [same, before] at after
  revert after
  decide

/-- A parent row, and one row each of C and D that references it. -/
def oneReference : System :=
  (new fun _ => Literal.env "SCOTT").runAll literalEvaluator
    [.sql 0 (Literal.createTable "P" ["ID"] [Literal.primaryKey "P_PK" "ID"]),
      .sql 0 (Literal.createTable "C" ["ID", "A"]
        [Literal.primaryKey "C_PK" "ID", Literal.references "C_A" "A" "P" .setNull]),
      .sql 0 (Literal.createTable "D" ["P"] [Literal.references "D_P" "P" "P" .restrict]),
      .sql 0 (Literal.insert "P" [.ofInt 1]), .sql 0 (Literal.insert "C" [.ofInt 1, .ofInt 1]),
      .sql 0 (Literal.insert "D" [.ofInt 1])]

/-- The DELETE sets the row of C to NULL once before D refuses it, and is undone. -/
theorem failed_statement_atomic_once :
    (((⟨literalEvaluator, [], (oneReference.world 0).db.state, none⟩ : Dml).turns deleteParents
        (oneReference.world 0).dmlState).map fun turn => turn.hits.length) = [1] ∧
      ((oneReference.world 0).dml literalEvaluator [] none deleteParents).2.session.txn =
        (oneReference.sessions 0).txn := by
  have reachable : Reachable literalEvaluator oneReference := reachable_runAll _ _ _
  have failed : ((oneReference.world 0).dml literalEvaluator [] none deleteParents).1 =
      .error ⟨2292, "integrity constraint (SCOTT.D_P) violated - child record found"⟩ := by decide
  have turns : (((⟨literalEvaluator, [], (oneReference.world 0).db.state, none⟩ : Dml).turns
      deleteParents (oneReference.world 0).dmlState).map fun turn => turn.hits.length) = [1] := by
    decide
  refine ⟨turns, failed_statement_atomic reachable 0 [] none deleteParents ?_ failed⟩
  intro before first between second after split
  have length := congrArg List.length turns
  rw [List.length_map, split] at length
  simp only [List.length_append, List.length_cons, List.length_nil] at length
  omega

end System

end MockOracle
