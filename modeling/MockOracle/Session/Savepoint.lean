import MockOracle.Session.Invariant

/-!
# Undoing to a savepoint

A transaction that has only grown since a savepoint is restored by undoing to it, provided
that the log entries since then are `UndoSafe`: no row that had a unique key was updated
twice in one stretch of updates. A failing statement undoes to where it started, and a
failing block to the savepoint it started with; both are instances.
-/

namespace MockOracle

open Std Semantics

/-- The entries that undoing to a savepoint would revert can be reverted exactly. -/
def Session.UndoSafe (s : Session) (savepoint : Savepoint) : Prop :=
  ∀ txn, s.txn = some txn → MockOracle.UndoSafe txn.work (txn.log.drop (s.keep savepoint))

/-- Undoing everything that a transaction has grown by restores it. -/
theorem Txn.Grows.undo {txn txn' : Txn} {edits : List Edit} (grows : txn.Grows edits txn')
    (covers : txn.work.Covers)
    (safe : MockOracle.UndoSafe txn'.work (txn'.log.drop txn.log.length)) :
    MockOracle.undo txn' txn.log.length = txn := by
  rw [grows.logged, List.drop_left] at safe
  rw [undo_run covers grows.run grows.logged safe, grows.base, grows.origin]

/-! ## The transaction since a savepoint -/

/-- The transaction `after` has grown from `before` by logged edits. If there was none
before, it started on the committed catalog it has as its origin. -/
structure Txn.Since (before after : Option Txn) (start : Txn) (edits : List Edit) (txn : Txn) :
    Prop where
  opened : before = start.unlessEmpty
  clean : start.log = [] → start.work = start.origin
  covers : start.work.Covers
  grows : start.Grows edits txn
  here : after = txn.unlessEmpty

/-- A log that is not empty keeps its transaction. -/
theorem Txn.unlessEmpty_of_some {txn : Txn} (some_ : txn.log ≠ []) : txn.unlessEmpty = some txn :=
  unlessEmpty_eq_some.mpr ⟨rfl, some_⟩

/-- A log that is empty drops it. -/
theorem Txn.unlessEmpty_eq_none {txn : Txn} : txn.unlessEmpty = none ↔ txn.log = [] := by
  unfold unlessEmpty
  split
  · next none => simpa using none
  · next some_ => simpa using some_

/-- Without an open transaction a statement starts with an empty one. -/
theorem World.Valid.unlessEmpty_dmlTxn {w : World} (valid : w.Valid) :
    w.dmlState.txn.unlessEmpty = w.session.txn := by
  unfold World.dmlState
  cases open_ : w.session.txn with
  | none => exact Txn.unlessEmpty_eq_none.mpr rfl
  | some txn => exact Txn.unlessEmpty_of_some (valid.txn txn open_).2

/-- A statement that finds no change starts from the committed state. -/
theorem World.Valid.clean_dmlTxn {w : World} (valid : w.Valid)
    (empty : w.dmlState.txn.log = []) : w.dmlState.txn.work = w.dmlState.txn.origin := by
  unfold World.dmlState at empty ⊢
  cases open_ : w.session.txn with
  | none => rfl
  | some txn =>
      rw [open_] at empty
      exact absurd empty (valid.txn txn open_).2

namespace Txn

/-- A transaction that has only grown since `before`. -/
def GrownSince (before after : Option Txn) : Prop :=
  ∃ start edits txn, Since before after start edits txn

/-- A transaction has grown since itself. -/
theorem GrownSince.refl {w : World} (valid : w.Valid) :
    GrownSince w.session.txn w.session.txn := by
  refine ⟨w.dmlState.txn, [], w.dmlState.txn, ?_, valid.clean_dmlTxn,
    valid.dmlTxn.work_sound.covers, .refl _, ?_⟩ <;>
  exact valid.unlessEmpty_dmlTxn.symm

/-- Growing since a state goes on. -/
theorem GrownSince.trans {first second third : Option Txn} (since : GrownSince first second)
    (next : GrownSince second third) : GrownSince first third := by
  obtain ⟨start, edits, txn, opened, clean, covers, grown, here⟩ := since
  obtain ⟨start', more, txn', opened', clean', covers', grown', here'⟩ := next
  by_cases empty : txn.log = []
  · -- Nothing was open in between, so the transaction has its start there.
    have none : second = none := here.trans (unlessEmpty_eq_none.mpr empty)
    have startEmpty : start.log = [] := by
      have logged := grown.logged
      rw [empty] at logged
      exact (List.append_eq_nil_iff.mp logged.symm).1
    refine ⟨start', more, txn', ?_, clean', covers', grown', here'⟩
    rw [opened, unlessEmpty_eq_none.mpr startEmpty, ← none, opened']
  · have same : start' = txn := by
      rw [here, unlessEmpty_of_some empty] at opened'
      exact (unlessEmpty_eq_some.mp opened'.symm).1
    subst same
    exact ⟨start, edits ++ more, txn', opened, clean, covers, grown.trans grown', here'⟩

/-- A successful DML statement grows the transaction. -/
theorem GrownSince.dml {w : World} (valid : w.Valid) {ev : Evaluator} {binds : List Value}
    {vars : Option VarLookup} {stmt : DmlStatement} {r : Nat × List Row}
    (success : (w.dml ev binds vars stmt).1 = .ok r) :
    GrownSince w.session.txn (w.dml ev binds vars stmt).2.session.txn := by
  obtain ⟨edits, extends_⟩ :=
    run_extends ⟨ev, binds, w.db.state, vars⟩ valid.dmlTxn.work_sound stmt
  unfold World.dml at success ⊢
  split at success
  · next st equal =>
      rw [equal] at extends_
      exact ⟨w.dmlState.txn, edits, st.txn, valid.unlessEmpty_dmlTxn.symm, valid.clean_dmlTxn,
        valid.dmlTxn.work_sound.covers, extends_.grows, rfl⟩
  · cases success

/-- A transaction that has grown from none consists of edits of its origin. -/
theorem GrownSince.opened {txn : Txn} (since : GrownSince none (some txn)) :
    ∃ edits, Edit.Run txn.origin edits txn.work ∧ txn.log = Edit.log edits ∧
      txn.origin.Covers := by
  obtain ⟨start, edits, txn', opened, clean, covers, grown, here⟩ := since
  obtain ⟨rfl, _⟩ := unlessEmpty_eq_some.mp here.symm
  have empty : start.log = [] := unlessEmpty_eq_none.mp opened.symm
  have work : start.work = txn'.origin := (clean empty).trans grown.origin.symm
  have run := grown.run
  rw [work] at run covers
  refine ⟨edits, run, ?_, covers⟩
  rw [grown.logged, empty, List.nil_append]

end Txn

/-- Undoing to a savepoint restores the transaction exactly. -/
theorem Session.rollbackTo_grown {s s' : Session} (since : Txn.GrownSince s.txn s'.txn)
    (commits : s'.commits = s.commits) (safe : s'.UndoSafe s.savepoint) :
    (s'.rollbackTo s.savepoint).txn = s.txn := by
  obtain ⟨start, edits, txn, started, _, covers, grows, after⟩ := since
  have kept : s'.keep s.savepoint = start.log.length := by
    rw [Session.keep, Session.savepoint, if_pos commits]
    by_cases empty : start.log = []
    · rw [started, Txn.unlessEmpty_eq_none.mpr empty, empty]
      rfl
    · rw [started, Txn.unlessEmpty_of_some empty]
      rfl
  cases open_ : s'.txn with
  | none =>
      have logged := grows.logged
      rw [Txn.unlessEmpty_eq_none.mp (after.symm.trans open_)] at logged
      rw [Session.rollbackTo, open_]
      simp only
      rw [open_, started, Txn.unlessEmpty_eq_none.mpr (List.append_eq_nil_iff.mp logged.symm).1]
  | some txn' =>
      obtain ⟨rfl, _⟩ := Txn.unlessEmpty_eq_some.mp (after.symm.trans open_)
      have length : min (s'.keep s.savepoint) txn.log.length = start.log.length := by
        rw [kept, grows.logged, List.length_append]
        omega
      have safeLog := safe txn open_
      rw [kept] at safeLog
      rw [Session.rollbackTo, open_]
      simp only
      rw [length, grows.undo covers safeLog, started]

/-! ## Failing statements -/

namespace World

/-- If a DML statement fails, the entries it has logged can be reverted exactly. -/
def DmlSafe (ev : Evaluator) (binds : List Value) (vars : Option VarLookup) (stmt : DmlStatement)
    (w : World) : Prop :=
  ∀ e st, (Dml.mk ev binds w.db.state vars).run stmt w.dmlState = .error e st →
    MockOracle.UndoSafe st.txn.work (st.txn.log.drop w.dmlState.txn.log.length)

variable {ev : Evaluator} {w : World}

/-- A DML statement publishes nothing. -/
theorem dml_state (ev : Evaluator) (binds : List Value) (vars : Option VarLookup)
    (stmt : DmlStatement) (w : World) : (w.dml ev binds vars stmt).2.db.state = w.db.state := by
  unfold World.dml
  split <;> rfl

/-- A statement that succeeds has nothing to revert. -/
theorem dmlSafe_of_ok {binds : List Value} {vars : Option VarLookup} {stmt : DmlStatement}
    (success : ∃ r, (w.dml ev binds vars stmt).1 = .ok r) : w.DmlSafe ev binds vars stmt := by
  intro e st failed
  obtain ⟨r, ok⟩ := success
  rw [World.dml, failed] at ok
  cases ok

/-- A failing statement restores the transaction exactly. -/
theorem Valid.dml_error (valid : w.Valid) {binds : List Value} {vars : Option VarLookup}
    {stmt : DmlStatement} {e : OraError} (safe : w.DmlSafe ev binds vars stmt)
    (failed : (w.dml ev binds vars stmt).1 = .error e) :
    (w.dml ev binds vars stmt).2.session.txn = w.session.txn := by
  obtain ⟨edits, extends_⟩ :=
    run_extends ⟨ev, binds, w.db.state, vars⟩ valid.dmlTxn.work_sound stmt
  unfold World.dml at failed ⊢
  split at failed
  · cases failed
  · next st equal =>
      rw [equal] at extends_
      have grows : w.dmlState.txn.Grows edits st.txn := extends_.grows
      simp only [World.afterDml]
      rw [grows.undo valid.dmlTxn.work_sound.covers (safe _ st equal), valid.unlessEmpty_dmlTxn]

/-! ## Blocks -/

/-- A statement of a block that neither ends the transaction nor fails in a way that cannot
be undone exactly. -/
def StatementSafe (ev : Evaluator) (stmt : Statement) (binds : List Value)
    (vars : Option VarLookup) (w : World) : Prop :=
  match stmt with
  | .query _ => True
  | .alterSession _ _ => True
  | .insert i => w.DmlSafe ev binds vars (.insert i)
  | .update u => w.DmlSafe ev binds vars (.update u)
  | .delete d => w.DmlSafe ev binds vars (.delete d)
  | _ => False

/-- If a block fails, the entries it has logged can be reverted exactly. -/
def BlockSafe (ev : Evaluator) (script : Script) (w : World) : Prop :=
  ∀ e, (w.runScript ev script).1 = .error e →
    (w.runScript ev script).2.session.UndoSafe w.session.savepoint

end World

/-- A block whose statements are queries and DML, where whatever fails inside it can be
undone exactly. -/
def Script.Safe (ev : Evaluator) : Script → World → Prop
  | .done _, _ => True
  | .evaluate step next, w =>
      let ex : Ex := ⟨w.catalog, [], w.db.state, none⟩
      (next ex w.evalState).Safe ev (w.setEval (step ex w.evalState))
  | .execute stmt binds vars next, w =>
      let result := w.run ev stmt binds vars
      w.StatementSafe ev stmt binds vars ∧ (next result.1).Safe ev result.2
  | .block inner next, w =>
      let result := World.settle w.session.savepoint (w.runScript ev inner)
      inner.Safe ev w ∧ w.BlockSafe ev inner ∧ (next result.1).Safe ev result.2

/-- A session has only added to its transaction, and published nothing. -/
structure World.Grown (w w' : World) : Prop where
  txn : Txn.GrownSince w.session.txn w'.session.txn
  commits : w'.session.commits = w.session.commits
  state : w'.db.state = w.db.state
  valid : w'.Valid

namespace World.Grown

variable {ev : Evaluator} {w w' w'' : World}

/-- Growing twice is growing. -/
theorem trans (first : w.Grown w') (second : w'.Grown w'') : w.Grown w'' where
  txn := first.txn.trans second.txn
  commits := second.commits.trans first.commits
  state := second.state.trans first.state
  valid := second.valid

/-- A step that leaves the transaction alone. -/
theorem of_same (valid : w.Valid) (txn : w'.session.txn = w.session.txn)
    (commits : w'.session.commits = w.session.commits) (state : w'.db.state = w.db.state)
    (after : w'.Valid) : w.Grown w' where
  txn := by
    rw [txn]
    exact .refl valid
  commits := commits
  state := state
  valid := after

/-- A statement that changes rows safely grows the session. -/
theorem dml (valid : w.Valid) {binds : List Value} {vars : Option VarLookup}
    {stmt : DmlStatement} (safe : w.DmlSafe ev binds vars stmt) :
    w.Grown (w.dml ev binds vars stmt).2 := by
  have commits : (w.dml ev binds vars stmt).2.session.commits = w.session.commits := by
    unfold World.dml
    split <;> rfl
  refine ⟨?_, commits, w.dml_state ev binds vars stmt, (valid.dml ev binds vars stmt).valid⟩
  cases outcome : (w.dml ev binds vars stmt).1 with
  | ok r => exact .dml valid outcome
  | error e =>
      rw [valid.dml_error safe outcome]
      exact .refl valid

/-- A safe statement grows the session. -/
theorem statement (valid : w.Valid) {stmt : Statement} {binds : List Value}
    {vars : Option VarLookup} (safe : w.StatementSafe ev stmt binds vars) :
    w.Grown (w.run ev stmt binds vars).2 := by
  have after := (valid.runStatement ev stmt binds vars).valid
  cases stmt with
  | query q =>
      refine of_same valid ?_ ?_ ?_ after <;>
      · simp only [World.run, World.query]
        split <;> rfl
  | alterSession name value =>
      refine of_same valid ?_ ?_ ?_ after <;>
      · simp only [World.run, World.plain, World.alterSession]
        split <;> rfl
  | insert i => exact dml valid safe
  | update u => exact dml valid safe
  | delete d => exact dml valid safe
  | _ => cases safe

/-- A block that fails restores the transaction exactly; one that does not has added to it. -/
theorem settle (valid : w.Valid) {script : Script} (ran : w.Grown (w.runScript ev script).2)
    (safe : w.BlockSafe ev script) : w.Grown (w.block ev script).2 ∧
      ∀ e, (w.block ev script).1 = .error e →
        (w.block ev script).2.session.txn = w.session.txn := by
  have after := (valid.block ev script).valid
  unfold World.block at after ⊢
  cases result : w.runScript ev script with
  | mk outcome w' =>
      rw [result] at ran after
      cases outcome with
      | ok values => exact ⟨ran, fun e failed => by cases failed⟩
      | error e =>
          have undoable := safe e (by rw [result])
          rw [result] at undoable
          have restored := Session.rollbackTo_grown ran.txn ran.commits undoable
          have commits : (w'.session.rollbackTo w.session.savepoint).commits =
              w.session.commits := by
            rw [← ran.commits]
            unfold Session.rollbackTo
            split <;> rfl
          exact ⟨of_same valid restored commits ran.state after, fun _ _ => restored⟩

/-- A safe script grows the session. -/
theorem runScript (valid : w.Valid) {script : Script} (safe : script.Safe ev w) :
    w.Grown (w.runScript ev script).2 := by
  induction script generalizing w with
  | done result => exact of_same valid rfl rfl rfl valid
  | evaluate step next ih =>
      simp only [World.runScript]
      have evaluated := (valid.setEval (step ⟨w.catalog, [], w.db.state, none⟩ w.evalState)).valid
      have same : w.Grown (w.setEval (step ⟨w.catalog, [], w.db.state, none⟩ w.evalState)) :=
        of_same valid rfl rfl rfl evaluated
      exact same.trans (ih _ _ evaluated safe)
  | execute stmt binds vars next ih =>
      simp only [World.runScript]
      have ran : w.Grown (w.run ev stmt binds vars).2 := statement valid safe.1
      exact ran.trans (ih _ ran.valid safe.2)
  | block inner next ihInner ih =>
      simp only [World.runScript]
      have ran := (settle valid (ihInner valid safe.1) safe.2.1).1
      exact ran.trans (ih _ ran.valid safe.2.2)

end World.Grown

end MockOracle
