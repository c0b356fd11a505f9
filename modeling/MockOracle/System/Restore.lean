import MockOracle.System.Version

/-!
# Snapshots and their restoration

A snapshot holds the committed catalog and the two counters kept beside it. Restoring it
brings all of these back, under a version that no transaction has started from: whatever was
open before then commits by replaying its log, and only what is opened later may be published
as it is.
-/

namespace MockOracle

open Std Semantics

/-! ## Transactions over time -/

/-- A transaction started from what the session's transaction did at an earlier time. -/
def Session.Opened (before : Session) (txn : Txn) : Prop :=
  ∃ opened, before.txn = some opened ∧ txn.origin = opened.origin ∧
    txn.baseVersion = opened.baseVersion

namespace World

/-- A session's transaction is the one of before or was opened since. -/
structure Continues (w w' : World) : Prop where
  version : w.db.state.version ≤ w'.db.state.version
  txn : ∀ txn, w'.session.txn = some txn →
    w.session.Opened txn ∨ w.db.state.version ≤ txn.baseVersion

variable {w w' w'' : World}

theorem Continues.of_txn (version : w.db.state.version ≤ w'.db.state.version)
    (same : w'.session.txn = w.session.txn) : w.Continues w' where
  version := version
  txn txn open_ := by
    rw [same] at open_
    exact Or.inl ⟨txn, open_, rfl, rfl⟩

theorem Continues.of_closed (version : w.db.state.version ≤ w'.db.state.version)
    (closed : w'.session.txn = none) : w.Continues w' where
  version := version
  txn txn open_ := by
    rw [closed] at open_
    cases open_

theorem Continues.trans (first : w.Continues w') (second : w'.Continues w'') : w.Continues w'' where
  version := first.version.trans second.version
  txn txn open_ := by
    rcases second.txn txn open_ with ⟨middle, openMiddle, origin, base⟩ | later
    · rcases first.txn middle openMiddle with ⟨opened, openFirst, origin', base'⟩ | later
      · exact Or.inl ⟨opened, openFirst, origin.trans origin', base.trans base'⟩
      · rw [← base] at later
        exact Or.inr later
    · exact Or.inr (first.version.trans later)

/-- A DML statement runs in the open transaction or opens one on the committed catalog. -/
theorem dml_continues (valid : w.Valid) (ev : Evaluator) (binds : List Value)
    (vars : Option VarLookup) (stmt : DmlStatement) : w.Continues (w.dml ev binds vars stmt).2 where
  version := (valid.dml ev binds vars stmt).db.version_le
  txn txn open_ := by
    have origin := System.dml_origin valid ev binds vars stmt open_
    have after := ((valid.dml ev binds vars stmt).valid.txn txn open_).1
    have base : txn.baseVersion = w.dmlState.txn.baseVersion := by
      rw [← after.base, ← valid.dmlTxn.base, origin]
    cases before : w.session.txn with
    | none =>
        rw [dmlState, before] at base
        exact Or.inr base.ge
    | some opened =>
        rw [dmlState, before] at base origin
        exact Or.inl ⟨opened, before, origin, base⟩

theorem rollbackTo_continues (w : World) (savepoint : Savepoint) :
    w.Continues { w with session := w.session.rollbackTo savepoint } where
  version := Nat.le_refl _
  txn txn open_ := by
    unfold Session.rollbackTo at open_
    simp only at open_
    split at open_
    · exact Or.inl ⟨txn, open_, rfl, rfl⟩
    · next opened before =>
        obtain ⟨rfl, -⟩ := Txn.unlessEmpty_eq_some.mp open_
        exact Or.inl ⟨opened, before, rfl, rfl⟩

/-- Every step of a session runs in the transaction of before or in one opened since. -/
theorem stepwise_continues (ev : Evaluator) : Stepwise ev Continues where
  same state _ txn := .of_txn (by rw [state]) txn
  trans first second := first.trans second
  dml valid binds vars stmt := dml_continues valid ev binds vars stmt
  commit valid := .of_closed valid.commit.db.version_le (commit_txn _)
  closed _ := .of_closed (Nat.le_refl _) rfl
  rollbackTo _ savepoint := rollbackTo_continues _ savepoint
  ddl {w} _ closed binds stmt := by
    have publishes := ddl_publishes ev binds w stmt
    exact .of_closed publishes.db.version_le (publishes.txn.trans closed)

/-- COMMIT of a transaction that started from another committed version replays its log. -/
theorem commit_eq_replay {txn : Txn} (open_ : w.session.txn = some txn) (some_ : txn.log ≠ [])
    (newer : w.db.state.version ≠ txn.baseVersion) :
    w.commit =
      match replay w.session.env.user txn.log w.db.state with
      | .ok next => (.ok (), { w.closed with
          db := { w.db with state := { next with version := w.db.state.version + 1 } } })
      | .error e => (.error e, w.closed) := by
  have notEmpty : txn.log.isEmpty = false := by simpa using some_
  unfold commit Txn.publish
  simp only [open_, notEmpty, if_neg newer]
  cases replay w.session.env.user txn.log w.db.state <;> rfl

end World

/-! ## Runs -/

namespace System

variable {ev : Evaluator} {sys sys' : System}

theorem act_continues (ev : Evaluator) (valid : sys.Valid) (request : Request) (i : Nat) :
    (sys.world i).Continues ((sys.act ev request).2.world i) := by
  have version := (valid.advances ev request).version_le
  -- Of a request by another session this one notices the new version only.
  have put : ∀ {j : Nat} {w : World}, sys.db.state.version ≤ w.db.state.version →
      (sys.world j).Continues w → (sys.world i).Continues ((sys.put j w).world i) := by
    intro j w le continues
    by_cases same : i = j
    · subst same
      have world : (sys.put i w).world i = w := by
        simp only [System.world, System.put, Function.update_self]
      rw [world]
      exact continues
    · refine .of_txn le ?_
      simp only [System.world, System.put, Function.update_of_ne same]
  cases request with
  | execute j utc localTime command =>
      exact put version (valid.stepwise (World.stepwise_continues ev) j utc localTime command)
  | commit j => exact put version ((World.stepwise_continues ev).commit (valid.world j))
  | rollback j => exact put version ((World.stepwise_continues ev).closed _)
  | rollbackTo j savepoint => exact put version (World.rollbackTo_continues _ savepoint)
  | connect j env => exact put version (.of_closed (Nat.le_refl _) rfl)
  | snapshot => exact .of_txn (Nat.le_refl _) rfl
  | restore position =>
      refine .of_txn version ?_
      simp only [System.act]
      split <;> rfl
  | reset => exact .of_txn version rfl

theorem Run.continues {events : List Event} (run : Run ev sys events sys') (valid : sys.Valid)
    (i : Nat) : (sys.world i).Continues (sys'.world i) := by
  induction run with
  | nil => exact .of_txn (Nat.le_refl _) rfl
  | @cons _ event _ _ _ head _ ih =>
      have first := act_continues ev valid event.1 i
      rw [head] at first
      exact first.trans (ih (Step.valid head valid))

/-- Snapshots are kept, in the order they were taken. -/
theorem act_snapshots (ev : Evaluator) (sys : System) (request : Request) :
    sys.snapshots <+: (sys.act ev request).2.snapshots := by
  cases request with
  | snapshot => exact List.prefix_append _ _
  | restore position =>
      simp only [System.act]
      split <;> exact List.prefix_refl _
  | _ => exact List.prefix_refl _

theorem Run.snapshots {events : List Event} (run : Run ev sys events sys') :
    sys.snapshots <+: sys'.snapshots := by
  apply run.relates (fun sys => List.prefix_refl sys.snapshots) (fun first second => first.trans second)
  intro state event next step
  have first := act_snapshots ev state event.1
  rw [step] at first
  exact first

/-- Restoring a snapshot after any run brings back the catalog it was taken of, up to the
version, and the counters of identities and sequences. In every state reached from there, a
transaction that was open before commits by replaying its log, and any other one has started
from the restored catalog or a later one. -/
theorem restore_reinstates (reachable : Reachable ev sys) {events : List Event}
    (run : Run ev (sys.act ev .snapshot).2 events sys') :
    let back := (sys'.act ev (.restore sys.snapshots.length)).2
    back.db.state = { sys.db.state with version := sys'.db.state.version + 1 } ∧
    back.db.identities = sys.db.identities ∧
    back.db.sequences = sys.db.sequences ∧
    back.sessions = sys'.sessions ∧
    ∀ more later, Run ev back more later → ∀ i txn, (later.sessions i).txn = some txn →
      ((sys'.sessions i).Opened txn → (later.world i).commit =
        match replay (later.sessions i).env.user txn.log later.db.state with
        | .ok next => (.ok (), { (later.world i).closed with
            db := { later.db with
              state := { next with version := later.db.state.version + 1 } } })
        | .error e => (.error e, (later.world i).closed)) ∧
      (¬ (sys'.sessions i).Opened txn → back.db.state.version ≤ txn.baseVersion) := by
  intro back
  have valid : sys'.Valid := Run.valid run (reachable.valid.act ev .snapshot)
  have taken : sys'.snapshots[sys.snapshots.length]? = some sys.db.snapshot := by
    refine List.prefix_iff_getElem?.mp (Run.snapshots run) sys.snapshots.length ?_ |>.trans ?_
    · simp [System.act]
    · simp [System.act]
  have restored : back = { sys' with db := sys'.db.restore sys.db.snapshot } := by
    simp only [back, System.act, taken]
  have validBack : back.Valid := valid.act ev _
  have version : back.db.state.version = sys'.db.state.version + 1 := by
    rw [restored]
    rfl
  have sessions : back.sessions = sys'.sessions := by rw [restored]
  refine ⟨by rw [restored]; rfl, by rw [restored]; rfl, by rw [restored]; rfl, sessions, ?_⟩
  intro more later runLater i txn open_
  have continues := Run.continues runLater validBack i
  constructor
  · rintro ⟨opened, before, -, base⟩
    have validLater := Run.valid runLater validBack
    have older := (valid.txn i opened before).1.le
    have newer : back.db.state.version ≤ later.db.state.version := continues.version
    refine World.commit_eq_replay open_ (validLater.txn i txn open_).2 ?_
    have same : (later.world i).db = later.db := rfl
    rw [same]
    omega
  · intro fresh
    rcases continues.txn txn open_ with opened | later
    · have same : (back.world i).session = sys'.sessions i := congrFun sessions i
      rw [same] at opened
      exact absurd opened fresh
    · exact later

/-- A table with a row, of which a snapshot is taken. -/
def kept : System :=
  (new fun _ => Literal.env "SCOTT").runAll literalEvaluator
    [.sql 0 (Literal.createTable "T" ["ID"] [Literal.primaryKey "T_PK" "ID"]),
      .sql 0 (Literal.insert "T" [.ofInt 1]), .commit 0]

/-- After the snapshot one session inserts a row, and another drops the table. -/
def spoiled : List Request :=
  [.sql 1 (Literal.insert "T" [.ofInt 2]), .sql 0 (.dropTable "T" false)]

/-- The table is back as it was, and the session that had inserted before replays its log. -/
theorem restore_reinstates_dropped :
    let after := (kept.act literalEvaluator .snapshot).2.runAll literalEvaluator spoiled
    let back := (after.act literalEvaluator (.restore kept.snapshots.length)).2
    after.db.state.table "T" = none ∧
      (∀ name, back.db.state.table name = kept.db.state.table name) ∧
      ∃ txn, (back.sessions 1).txn = some txn ∧ (back.world 1).commit =
        match replay (back.sessions 1).env.user txn.log back.db.state with
        | .ok next => (.ok (), { (back.world 1).closed with
            db := { back.db with
              state := { next with version := back.db.state.version + 1 } } })
        | .error e => (.error e, (back.world 1).closed) := by
  intro after back
  obtain ⟨restored, -, -, sessions, transactions⟩ :=
    restore_reinstates (reachable_runAll literalEvaluator _ _ : Reachable _ kept)
      (runAll_run literalEvaluator spoiled _)
  have missing : (after.db.state.table "T").isNone = true := by decide +kernel
  have opened : (after.sessions 1).txn.isSome = true := by decide +kernel
  obtain ⟨txn, open_⟩ := Option.isSome_iff_exists.mp opened
  have here : (back.sessions 1).txn = some txn := by
    rw [show back.sessions = after.sessions from sessions]
    exact open_
  refine ⟨Option.isNone_iff_eq_none.mp missing, fun name => ?_, txn, here, ?_⟩
  · rw [show back.db.state = { kept.db.state with version := after.db.state.version + 1 }
      from restored]
    rfl
  · exact (transactions [] back .nil 1 txn here).1 ⟨txn, open_, rfl, rfl⟩

end System

end MockOracle
