import MockOracle.Eval.Literal
import MockOracle.Eval.Plain
import MockOracle.Eval.Storable
import MockOracle.Session.DdlRows
import MockOracle.System.System

/-!
# Stored values conform in every careful run

In a run in which a replaying COMMIT meets the column types its rows were stored for, and the
SELECT blocks of a CREATE TABLE AS SELECT compute no value that the type they declare for it would
not store, every value in every committed table conforms to its column. Without the first condition
a row stored for a dropped table ends up in a table of other types that has its name and width;
without the second a value ends up in a column that is typed by another expression.
-/

namespace MockOracle

open Std Semantics

variable {dates : DateFormats} {ev : Evaluator} {eng : Engine}
  {alterSession : Env → String → String → Except OraError Env} {levels : Nat}

/-! ## Careful statements -/

/-- COMMIT replays rows only into tables of the types they were stored for. -/
def World.CommitKeepsTypes (w : World) : Prop :=
  ∀ txn, w.session.txn = some txn → txn.baseVersion ≠ w.db.state.version → txn.TypesKept w.db.state

/-- COMMIT, and DDL, which commits first. -/
def Statement.commits : Statement → Bool
  | .query _ | .insert _ | .update _ | .delete _ | .rollback | .alterSession _ _ => false
  | _ => true

/-- The query of a CREATE TABLE AS SELECT declares, of what it computes over the committed state,
only types that would store it. -/
def World.DeclaresStorable (eng : Engine) (levels : Nat) (binds : List Value) (w : World)
    (q : Query) : Prop :=
  q.Meets (storagePromise eng.lib.dates) ⟨w.db.state, binds, w.db.state, none⟩ none levels
    w.evalState

/-- What a statement has to meet in the state before it: where it commits a transaction by
replaying it, the types are kept, and the query that CREATE TABLE would copy declares types that
store what it computes. -/
structure World.Careful (eng : Engine) (levels : Nat) (w : World) (stmt : Statement)
    (binds : List Value) : Prop where
  replays : stmt.commits = true → w.CommitKeepsTypes
  copies : ∀ ct q, stmt = .createTable ct → ct.asQuery = some q →
    w.commit.2.DeclaresStorable eng levels binds q

/-- Every statement that a block executes is careful when it comes to it. -/
def Script.Careful (eng : Engine) (alterSession : Env → String → String → Except OraError Env)
    (levels : Nat) : Script → World → Prop
  | .done _, _ => True
  | .evaluate step next, w =>
      let ex : Ex := ⟨w.catalog, [], w.db.state, none⟩
      Careful eng alterSession levels (next ex w.evalState) (w.setEval (step ex w.evalState))
  | .execute stmt binds vars next, w =>
      let result := w.run (eng.evaluator alterSession levels) stmt binds vars
      w.Careful eng levels stmt binds ∧ Careful eng alterSession levels (next result.1) result.2
  | .block inner next, w =>
      let result := World.settle w.session.savepoint
        (w.runScript (eng.evaluator alterSession levels) inner)
      Careful eng alterSession levels inner w ∧
        Careful eng alterSession levels (next result.1) result.2

/-- Whether a request is careful: its statements are, one after another, and a COMMIT keeps the
types. -/
def Request.Careful (eng : Engine) (alterSession : Env → String → String → Except OraError Env)
    (levels : Nat) (sys : System) : Request → Prop
  | .execute i utc localTime (.statement stmt binds _) =>
      ((sys.world i).startStatement utc localTime).Careful eng levels stmt binds
  | .execute i utc localTime (.block script) =>
      script.Careful eng alterSession levels ((sys.world i).startStatement utc localTime)
  | .commit i => (sys.world i).CommitKeepsTypes
  | _ => True

/-- A query whose blocks declare types that store what they compute copies rows that conform. -/
theorem World.DeclaresStorable.copiesConform {w : World} {binds : List Value} {ct : CreateTable}
    (conforms : w.db.state.Conforms eng.lib.dates)
    (declares : ∀ q, ct.asQuery = some q → w.DeclaresStorable eng levels binds q) :
    w.CopiesConform (eng.evaluator alterSession levels) binds eng.lib.dates ct := by
  intro rel eval evaluated row member
  unfold World.createQuery at evaluated
  split at evaluated
  · cases evaluated
  · next q asQuery =>
      split at evaluated
      · next success =>
          cases evaluated
          have kept := keeps_query conforms levels (declares q asQuery) success row member
          refine List.forall₂_map_left_iff.mpr (List.Forall₂.imp (fun c v stored => ?_) kept)
          by_cases zero : c.sqlType = .varchar2 0
          · have stored : c.sqlType.stores eng.lib.dates v := stored
            rw [zero] at stored
            exact Or.inl (eq_null_of_stores_zero stored)
          · rw [if_neg zero]
            exact Value.Conforms.of_type stored rfl
      · cases evaluated

/-- The engine stores what the column accepts. -/
theorem Engine.stores_evaluator :
    (eng.evaluator alterSession levels).Stores eng.lib.dates :=
  fun stored => TableColumn.storeValue_conforms stored

/-! ## Sessions -/

/-- The committed catalog and the session's transaction conform. -/
structure World.Conforms (dates : DateFormats) (w : World) : Prop where
  state : w.db.state.Conforms dates
  txn : ∀ txn, w.session.txn = some txn → txn.Conforms dates

namespace World.Conforms

section Steps

variable {w : World} (valid : w.Valid) (conforms : w.Conforms dates)

include conforms

/-- A step that changes neither the catalog nor the transaction. -/
theorem same {w' : World} (state : w'.db.state = w.db.state)
    (txn : w'.session.txn = w.session.txn) : w'.Conforms dates where
  state := by
    rw [state]
    exact conforms.state
  txn t open_ := by
    rw [txn] at open_
    exact conforms.txn t open_

/-- Closing the transaction keeps them conforming. -/
theorem closed : w.closed.Conforms dates :=
  ⟨conforms.state, fun _ open_ => by cases open_⟩

include valid

/-- COMMIT keeps them conforming when it keeps the types. -/
theorem commit (kept : w.CommitKeepsTypes) : w.commit.2.Conforms dates := by
  unfold World.commit
  split
  · exact conforms.closed
  · next txn open_ =>
      split
      · exact conforms.closed
      · split
        · next state success =>
            refine ⟨?_, fun _ open_ => by cases open_⟩
            have holds := conforms.txn txn open_
            by_cases fast : txn.baseVersion = w.db.state.version
            · unfold Txn.publish at success
              rw [if_pos fast.symm] at success
              cases success
              exact holds.work.of_tables rfl
            · exact holds.publish (valid.txn txn open_).1 valid.sound conforms.state
                (kept txn open_ fast) success
        · exact conforms.closed

/-- DML keeps them conforming when what it stores conforms. -/
theorem dml (stores : ev.Stores dates) (binds : List Value) (vars : Option VarLookup)
    (stmt : DmlStatement) : (w.dml ev binds vars stmt).2.Conforms dates := by
  have started : w.dmlState.txn.Conforms dates := by
    unfold World.dmlState
    cases open_ : w.session.txn with
    | none =>
        refine ⟨conforms.state, fun change member => ?_⟩
        cases member
    | some txn => exact conforms.txn txn open_
  have ran := @run_conforms dates ⟨ev, binds, w.db.state, vars⟩ stores w.dmlState
    valid.dmlTxn.work_sound started stmt
  have validAfter := fun txn => valid.run ⟨ev, binds, w.db.state, vars⟩ stmt rfl txn
  have after : ∀ {st : DmlState} {txn : Txn}, txn.Conforms dates →
      (w.afterDml st txn).Conforms dates := by
    intro st txn holds
    refine ⟨conforms.state, fun t open_ => ?_⟩
    obtain ⟨rfl, -⟩ := Txn.unlessEmpty_eq_some.mp open_
    exact holds
  unfold World.dml
  split
  · next r st equal =>
      rw [equal] at ran
      exact after ran
  · next e st equal =>
      rw [equal] at ran validAfter
      exact after (ran.undo (validAfter st.txn).2 _)

/-- ROLLBACK TO keeps them conforming. -/
theorem rollbackTo (savepoint : Savepoint) :
    World.Conforms dates { w with session := w.session.rollbackTo savepoint } := by
  refine ⟨conforms.state, fun t open_ => ?_⟩
  unfold Session.rollbackTo at open_
  simp only at open_
  split at open_
  · exact conforms.txn t open_
  · next txn here =>
      obtain ⟨rfl, -⟩ := Txn.unlessEmpty_eq_some.mp open_
      exact (conforms.txn txn here).undo (valid.txn txn here).1 _

end Steps

variable {w : World} (valid : w.Valid) (conforms : w.Conforms eng.lib.dates)

include valid conforms

/-- A careful statement keeps them conforming. -/
theorem runStatement {stmt : Statement} {binds : List Value}
    (careful : w.Careful eng levels stmt binds) (vars : Option VarLookup) :
    (w.run (eng.evaluator alterSession levels) stmt binds vars).2.Conforms eng.lib.dates := by
  have stores : (eng.evaluator alterSession levels).Stores eng.lib.dates := Engine.stores_evaluator
  have ddl : stmt.commits = true →
      (World.plain (w.commitAndDdl (eng.evaluator alterSession levels) binds stmt)).2.Conforms
        eng.lib.dates := by
    intro commits
    have committed := conforms.commit valid (careful.replays commits)
    have copies : ∀ ct, stmt = .createTable ct → w.commit.2.CopiesConform
        (eng.evaluator alterSession levels) binds eng.lib.dates ct :=
      fun ct same =>
        World.DeclaresStorable.copiesConform committed.state fun q => careful.copies ct q same
    unfold World.plain World.commitAndDdl
    split
    · next equal =>
        rw [equal] at committed
        exact committed
    · next w' equal =>
        rw [equal] at committed copies
        have publishes := World.ddl_publishes (eng.evaluator alterSession levels) binds w' stmt
        refine ⟨World.ddl_conforms _ binds committed.state stmt copies, fun t open_ => ?_⟩
        rw [publishes.txn] at open_
        exact committed.txn t open_
  cases stmt with
  | query q =>
      simp only [World.run, World.query]
      split <;> exact conforms.same rfl rfl
  | insert i => exact conforms.dml valid stores binds vars _
  | update u => exact conforms.dml valid stores binds vars _
  | delete d => exact conforms.dml valid stores binds vars _
  | commit => exact conforms.commit valid (careful.replays rfl)
  | rollback => exact conforms.closed
  | alterSession name value =>
      simp only [World.run, World.plain, World.alterSession]
      split
      · exact conforms.same rfl rfl
      · exact conforms
  | _ => exact ddl rfl

omit valid conforms in
/-- A block that fails goes back to where it began. -/
theorem settle (savepoint : Savepoint) {result : Except OraError (List Value) × World}
    (valid : result.2.Valid) (conforms : result.2.Conforms dates) :
    (World.settle savepoint result).2.Conforms dates := by
  obtain ⟨outcome, w'⟩ := result
  cases outcome with
  | ok values => exact conforms
  | error e => exact conforms.rollbackTo valid savepoint

/-- A block whose statements are careful keeps them conforming. -/
theorem runScript {script : Script} (careful : script.Careful eng alterSession levels w) :
    (w.runScript (eng.evaluator alterSession levels) script).2.Conforms eng.lib.dates := by
  induction script generalizing w with
  | done result => exact conforms
  | evaluate step next ih =>
      simp only [World.runScript]
      exact ih _ _ (valid.setEval _).valid (conforms.same rfl rfl) careful
  | execute stmt binds vars next ih =>
      simp only [World.runScript]
      exact ih _ (valid.runStatement _ stmt binds vars).valid
        (conforms.runStatement valid careful.1 vars) careful.2
  | block inner next ihInner ih =>
      simp only [World.runScript]
      have ran := ihInner valid conforms careful.1
      exact ih _ (World.Valid.settle _ (valid.runScript _ inner)).valid
        (settle _ (valid.runScript _ inner).valid ran) careful.2

end World.Conforms

/-! ## Runs -/

namespace System

/-- The committed catalog, all transactions and all snapshots conform. -/
structure Conforms (dates : DateFormats) (sys : System) : Prop where
  state : sys.db.state.Conforms dates
  txn : ∀ i txn, (sys.sessions i).txn = some txn → txn.Conforms dates
  snapshots : ∀ s ∈ sys.snapshots, s.catalog.Conforms dates

variable {sys sys' : System}

namespace Conforms

variable (conforms : sys.Conforms dates)

include conforms

/-- Each session of a system that conforms does so with its database. -/
theorem world (i : Nat) : (sys.world i).Conforms dates := ⟨conforms.state, conforms.txn i⟩

/-- A session's step that conforms leaves a system that conforms. -/
theorem put {i : Nat} {w : World} (after : w.Conforms dates) : (sys.put i w).Conforms dates where
  state := after.state
  txn j txn open_ := by
    by_cases same : j = i
    · subst same
      simp only [System.put, Function.update_self] at open_
      exact after.txn txn open_
    · simp only [System.put, Function.update_of_ne same] at open_
      exact conforms.txn j txn open_
  snapshots := conforms.snapshots

/-- Going back to a snapshot that conforms keeps the system conforming. -/
theorem restore {s : Snapshot} (saved : s.catalog.Conforms dates) :
    ({ sys with db := sys.db.restore s } : System).Conforms dates :=
  ⟨saved.of_tables rfl, conforms.txn, conforms.snapshots⟩

omit conforms in
/-- A careful request keeps the system conforming. -/
theorem act (valid : sys.Valid) (conforms : sys.Conforms eng.lib.dates) {request : Request}
    (careful : request.Careful eng alterSession levels sys) :
    (sys.act (eng.evaluator alterSession levels) request).2.Conforms eng.lib.dates := by
  cases request with
  | execute i utc localTime command =>
      refine conforms.put ?_
      have started : ((sys.world i).startStatement utc localTime).Conforms eng.lib.dates :=
        (conforms.world i).same rfl rfl
      have startedValid : ((sys.world i).startStatement utc localTime).Valid :=
        ⟨valid.sound, valid.txn i⟩
      cases command with
      | statement stmt binds vars => exact started.runStatement startedValid careful vars
      | block script =>
          exact World.Conforms.settle _ (startedValid.runScript _ script).valid
            (started.runScript startedValid careful)
      | evaluate step => exact started.same rfl rfl
  | commit i => exact conforms.put ((conforms.world i).commit (valid.world i) careful)
  | rollback i => exact conforms.put (conforms.world i).closed
  | rollbackTo i savepoint =>
      exact conforms.put ((conforms.world i).rollbackTo (valid.world i) savepoint)
  | connect i env => exact conforms.put ⟨conforms.state, fun txn open_ => by cases open_⟩
  | snapshot =>
      refine ⟨conforms.state, conforms.txn, fun s member => ?_⟩
      rcases List.mem_append.mp member with old | new
      · exact conforms.snapshots s old
      · rw [List.mem_singleton.mp new]
        exact conforms.state
  | restore position =>
      simp only [System.act]
      split
      · exact conforms
      · next s found => exact conforms.restore (conforms.snapshots s (List.mem_of_getElem? found))
  | reset => exact conforms.restore Catalog.conforms_empty

end Conforms

/-- An evaluator for expressions and queries nested up to eight levels. -/
def plainEvaluator : Evaluator := Engine.plain.evaluator (fun env _ _ => .ok env) 8

/-- CREATE TABLE T AS SELECT one expression A FROM dual. -/
def createAs (e : Expr) : Statement :=
  .createTable ⟨"T", [], [], some (.mk (.select
    (.mk false [.expr e "A"] [.mk (.table "DUAL" none) []] none [] none)) [] none none)⟩

/-- Create T as a copy of DUAL, insert a row and commit. -/
def storeRows : List Request :=
  [.sql 0 (createAs (.column none "DUMMY")), .sql 0 (Literal.insert "T" [.varchar2 "Y"]), .commit 0]

/-- Before the commit. -/
def inserted : System := (new fun _ => Literal.env "SCOTT").runAll plainEvaluator (storeRows.take 2)

end System

end MockOracle
