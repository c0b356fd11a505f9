import MockOracle.Eval.Literal
import MockOracle.System.System

/-!
# The fast path of COMMIT

COMMIT publishes the transaction's private catalog when the committed version is still the
one the transaction started from. Every visible change of the committed catalog makes its
version larger, so an equal version means an identical catalog.
-/

namespace MockOracle

open Std Semantics

namespace System

/-- A DML statement runs in the open transaction or opens one on the committed catalog. -/
theorem dml_origin {w : World} (valid : w.Valid) (ev : Evaluator) (binds : List Value)
    (vars : Option VarLookup) (stmt : DmlStatement) {txn : Txn}
    (open_ : (w.dml ev binds vars stmt).2.session.txn = some txn) :
    txn.origin = w.dmlState.txn.origin := by
  obtain ⟨edits, extends_⟩ := run_extends ⟨ev, binds, w.db.state, vars⟩ valid.dmlTxn.work_sound stmt
  unfold World.dml at open_
  split at open_
  · next r st equal =>
      rw [equal] at extends_
      obtain ⟨rfl, _⟩ := Txn.unlessEmpty_eq_some.mp open_
      exact extends_.grows.origin
  · next e st equal =>
      rw [equal] at extends_
      obtain ⟨rfl, _⟩ := Txn.unlessEmpty_eq_some.mp open_
      exact extends_.grows.origin

/-- In every reachable state, a transaction that COMMIT would publish by the fast path was
cloned from a catalog identical to the committed one. What it was cloned from is the
committed catalog at the DML statement that opened it. -/
theorem fast_path_commit_safe {ev : Evaluator} {sys : System} (reachable : Reachable ev sys) :
    (∀ i txn, (sys.sessions i).txn = some txn → sys.db.state.version = txn.baseVersion →
      sys.db.state = txn.origin ∧
        (sys.world i).commit.1 = .ok () ∧
        (sys.world i).commit.2.db.state = { txn.work with version := sys.db.state.version + 1 }) ∧
    (∀ i binds vars stmt txn, ((sys.world i).dml ev binds vars stmt).2.session.txn = some txn →
      txn.origin = match (sys.sessions i).txn with
        | some before => before.origin
        | none => sys.db.state) := by
  have valid := reachable.valid
  constructor
  · intro i txn open_ same
    obtain ⟨holds, some_⟩ := valid.txn i txn open_
    have opened : (sys.world i).session.txn = some txn := open_
    have published : txn.publish (sys.world i).session.env.user (sys.world i).db.state =
        .ok { txn.work with version := txn.baseVersion + 1 } := if_pos same
    have notEmpty : txn.log.isEmpty = false := by simpa using some_
    refine ⟨holds.unchanged same.symm, ?_⟩
    simp only [World.commit, opened, notEmpty, published, same]
    exact ⟨rfl, rfl⟩
  · intro i binds vars stmt txn open_
    rw [dml_origin (valid.world i) ev binds vars stmt open_]
    unfold World.dmlState System.world
    cases (sys.sessions i).txn <;> rfl

/-- A session inserts a row into a table that another one has created; its COMMIT finds the
catalog it was cloned from. -/
theorem fast_path_commit_safe_insert :
    let sys := (new fun _ => Literal.env "SCOTT").runAll literalEvaluator
      [.sql 0 (Literal.createTable "T" ["ID"] [Literal.primaryKey "T_PK" "ID"]),
        .sql 1 (Literal.insert "T" [.ofInt 1])]
    ∃ txn, (sys.sessions 1).txn = some txn ∧ sys.db.state = txn.origin := by
  intro sys
  have opened : (sys.sessions 1).txn.isSome = true := by decide
  obtain ⟨txn, open_⟩ := Option.isSome_iff_exists.mp opened
  have version : ((sys.sessions 1).txn.map fun t => decide (sys.db.state.version = t.baseVersion)) =
      some true := by decide
  rw [open_] at version
  have same : sys.db.state.version = txn.baseVersion := by simpa using version
  exact ⟨txn, open_, ((fast_path_commit_safe (reachable_runAll _ _ _)).1 1 txn open_ same).1⟩

end System

end MockOracle
