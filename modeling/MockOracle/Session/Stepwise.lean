import MockOracle.Session.Invariant

/-!
# Relations that every step of a session respects

A statement is made of a few steps: evaluation, a DML statement, COMMIT, the end of a
transaction, undoing to a savepoint, and DDL without a transaction. A preorder on worlds that
each of them respects is respected by every statement and by every block, whatever the block
asks of its session.
-/

namespace MockOracle

open Std Semantics

namespace World

/-- A relation between the world before and after each of the steps a session is made of. -/
structure Stepwise (ev : Evaluator) (R : World → World → Prop) : Prop where
  /-- A step that changes neither the committed catalog nor the transaction. -/
  same : ∀ {w w' : World}, w'.db.state = w.db.state → w'.db.nextRowId = w.db.nextRowId →
    w'.session.txn = w.session.txn → R w w'
  trans : ∀ {w w' w'' : World}, R w w' → R w' w'' → R w w''
  dml : ∀ {w : World}, w.Valid → ∀ binds vars stmt, R w (w.dml ev binds vars stmt).2
  commit : ∀ {w : World}, w.Valid → R w w.commit.2
  closed : ∀ w : World, R w w.closed
  rollbackTo : ∀ {w : World}, w.Valid →
    ∀ savepoint, R w { w with session := w.session.rollbackTo savepoint }
  ddl : ∀ {w : World}, w.Valid → w.session.txn = none →
    ∀ binds stmt, R w (w.ddl ev binds stmt).2

/-- COMMIT ends the transaction, also when it fails. -/
theorem commit_txn (w : World) : w.commit.2.session.txn = none := by
  unfold commit
  split
  · rfl
  · split
    · rfl
    · split <;> rfl

namespace Stepwise

variable {ev : Evaluator} {R : World → World → Prop} (stepwise : Stepwise ev R)

include stepwise

theorem refl (w : World) : R w w := stepwise.same rfl rfl rfl

theorem commitAndDdl {w : World} (valid : w.Valid) (binds : List Value) (stmt : Statement) :
    R w (w.commitAndDdl ev binds stmt).2 := by
  have committed := stepwise.commit valid
  have closed := w.commit_txn
  have validAfter := valid.commit.valid
  unfold World.commitAndDdl
  split
  · next equal =>
      rw [equal] at committed
      exact committed
  · next w' equal =>
      rw [equal] at committed closed validAfter
      exact stepwise.trans committed (stepwise.ddl validAfter closed binds stmt)

theorem run {w : World} (valid : w.Valid) (stmt : Statement) (binds : List Value)
    (vars : Option VarLookup) : R w (w.run ev stmt binds vars).2 := by
  cases stmt with
  | query q =>
      simp only [World.run, World.query]
      split <;> exact stepwise.same rfl rfl rfl
  | insert i => exact stepwise.dml valid binds vars _
  | update u => exact stepwise.dml valid binds vars _
  | delete d => exact stepwise.dml valid binds vars _
  | commit => exact stepwise.commit valid
  | rollback => exact stepwise.closed w
  | alterSession name value =>
      simp only [World.run, World.plain, World.alterSession]
      split
      · exact stepwise.same rfl rfl rfl
      · exact stepwise.refl w
  | _ => exact stepwise.commitAndDdl valid binds _

theorem settle {w : World} (savepoint : Savepoint)
    {result : Except OraError (List Value) × World} (valid : result.2.Valid)
    (before : R w result.2) : R w (World.settle savepoint result).2 := by
  obtain ⟨outcome, w'⟩ := result
  cases outcome with
  | ok values => exact before
  | error e => exact stepwise.trans before (stepwise.rollbackTo valid savepoint)

theorem runScript {w : World} (valid : w.Valid) (script : Script) :
    R w (w.runScript ev script).2 := by
  induction script generalizing w with
  | done result => exact stepwise.refl w
  | evaluate step next ih =>
      simp only [World.runScript]
      let eval := step ⟨w.catalog, [], w.db.state, none⟩ w.evalState
      have evaluated : R w (w.setEval eval) := stepwise.same rfl rfl rfl
      exact stepwise.trans evaluated (ih _ _ (valid.setEval eval).valid)
  | execute stmt binds vars next ih =>
      simp only [World.runScript]
      exact stepwise.trans (stepwise.run valid stmt binds vars)
        (ih _ (valid.runStatement ev stmt binds vars).valid)
  | block inner next ihInner ih =>
      simp only [World.runScript]
      have ran := stepwise.settle w.session.savepoint (valid.runScript ev inner).valid
        (ihInner valid)
      exact stepwise.trans ran (ih _ (World.Valid.settle _ (valid.runScript ev inner)).valid)

theorem block {w : World} (valid : w.Valid) (script : Script) : R w (w.block ev script).2 :=
  stepwise.settle _ (valid.runScript ev script).valid (stepwise.runScript valid script)

end Stepwise

end World

end MockOracle
