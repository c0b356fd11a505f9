import MockOracle.Semantics.Snapshots
import MockOracle.Session.Atomic
import MockOracle.System.Commute

/-!
# Sessions are transactions on snapshots

A system of sessions is a `Shared` store of rows: what each session logs is a transaction on the
committed rows as they were when it began, and COMMIT publishes its log, whether it takes over the
private catalog or replays the log. This holds of every run without DDL, blocks, restores and
undoing to savepoints, in which the statements that fail are undone exactly.
-/

namespace MockOracle

open Std Semantics

/-! ## Changes of rows -/

/-- The rows after a change. An update of a row that is gone does nothing. -/
def Change.onRows (change : Change) (store : Address → Option Row) : Address → Option Row :=
  match change with
  | .update table id values _ =>
      if (store (table, id)).isSome then Function.update store (table, id) (some values) else store
  | change => change.apply store

/-- A change that finds its rows changes them as the shared store does. -/
theorem Change.onRows_of_finds {change : Change} {store : Address → Option Row}
    (finds : change.Finds store) : change.onRows store = change.apply store := by
  cases change with
  | insert | delete => rfl
  | update table id values old => exact if_pos (Option.isSome_iff_ne_none.mpr finds)

/-- Where every update finds its row, the log is written over the rows. -/
theorem Replayable.applyAll {store : Address → Option Row} {log : List Change}
    (replayable : Replayable store log) :
    Shared.applyAll Change.onRows log store = overlay (log.map Change.write) store := by
  induction log generalizing store with
  | nil => rfl
  | cons change rest ih =>
      obtain ⟨finds, later⟩ := replayable
      rw [Change.overlay_write_cons, ← ih later, ← Change.onRows_of_finds finds]
      rfl

/-- An entry that fits the catalog does to its rows what the change does. -/
theorem Replays.onRows {cat next : Catalog} {bound : Nat} {change : Change}
    (replays : Replays cat change next) (fits : change.Fits bound cat) :
    next.rowAt = change.onRows cat.rowAt := by
  by_cases finds : change.Finds cat.rowAt
  · rw [Change.onRows_of_finds finds]
    exact replays.rowAt fits finds
  · obtain ⟨_, u, foundU, widthU⟩ := fits
    cases change with
    | insert | delete => exact absurd trivial finds
    | update table id values old =>
        have gone : cat.rowAt (table, id) = none := not_not.mp finds
        rw [Change.onRows, gone]
        cases replays with
        | gone missing => rfl
        | misfit found image width => rfl
        | update found width success =>
            rw [rowAt_setTable_update found success, gone]

/-- A replay that succeeds changes the rows as the shared store does. -/
theorem replay_onRows {user : String} {cat next : Catalog} {bound : Nat} {log : List Change}
    (fits : ∀ change ∈ log, change.Fits bound cat) (success : replay user log cat = .ok next) :
    next.rowAt = Shared.applyAll Change.onRows log cat.rowAt := by
  induction log generalizing cat with
  | nil =>
      cases success
      rfl
  | cons change rest ih =>
      simp only [replay] at success
      split at success
      · next middle first =>
          have fitsHere := fits change List.mem_cons_self
          have replays := replayChange_replays first
          have keeps := replays.keeps fitsHere.1
          have rows := ih (fun other member => (fits other (List.mem_cons_of_mem _ member)).transfer
            (Nat.le_refl _) keeps.schema) success
          rw [rows, replays.onRows fitsHere]
          rfl
      · cases success

/-! ## What a session's transaction is -/

/-- The transaction is logged, and its tables have the columns of the committed ones. -/
structure Txn.Logged (state : Catalog) (txn : Txn) : Prop where
  schema : txn.work.schema = state.schema
  edits : ∃ edits, (Txn.start txn.origin).Grows edits txn

/-- A transaction's rows are its origin's, with its log applied. -/
theorem Txn.Logged.rows {state : Catalog} {txn : Txn} (logged : txn.Logged state) :
    txn.work.rowAt = Shared.applyAll Change.onRows txn.log txn.origin.rowAt := by
  obtain ⟨edits, grows⟩ := logged.edits
  have log : txn.log = Edit.log edits := grows.logged
  have replayable : Replayable txn.origin.rowAt (Edit.log edits) := Edit.Run.replayable grows.run
  rw [log, replayable.applyAll]
  exact Edit.Run.rowAt grows.run

/-- A COMMIT that succeeds applies the log to the committed rows. -/
theorem World.commit_onRows {w : World} (valid : w.Valid)
    (logged : ∀ txn, w.session.txn = some txn → txn.Logged w.db.state)
    (success : w.commit.1 = .ok ()) :
    w.commit.2.db.state.rowAt =
        Shared.applyAll Change.onRows w.session.pending w.db.state.rowAt ∧
      w.commit.2.db.state.schema = w.db.state.schema := by
  unfold World.commit at success ⊢
  unfold Session.pending
  cases open_ : w.session.txn with
  | none => exact ⟨rfl, rfl⟩
  | some txn =>
      obtain ⟨holds, some_⟩ := valid.txn txn open_
      have here := logged txn open_
      have notEmpty : txn.log.isEmpty = false := by simpa using some_
      simp only [open_, notEmpty] at success ⊢
      cases published : txn.publish w.session.env.user w.db.state with
      | error e =>
          rw [published] at success
          cases success
      | ok state =>
          simp only [Option.map_some, Option.getD_some]
          unfold Txn.publish at published
          split at published
          · next same =>
              cases published
              refine ⟨?_, here.schema⟩
              rw [holds.unchanged same.symm]
              exact here.rows
          · split at published
            · next next_ replayed =>
                cases published
                have fits : ∀ change ∈ txn.log, change.Fits w.db.nextRowId w.db.state :=
                  fun change member => (holds.fits change member).transfer (Nat.le_refl _)
                    here.schema.symm
                have keeps := replay_keeps (fun change member => (fits change member).1) replayed
                have rows := replay_onRows fits replayed
                exact ⟨rows, keeps.schema⟩
            · cases published

/-- A DML statement that succeeds grows the transaction it runs in. -/
theorem World.dml_grows {w : World} {ev : Evaluator} {binds : List Value}
    {vars : Option VarLookup} {stmt : DmlStatement} {r : Nat × List Row} (valid : w.Valid)
    (success : (w.dml ev binds vars stmt).1 = .ok r) :
    ∃ more txn, w.dmlState.txn.Grows more txn ∧
      (w.dml ev binds vars stmt).2.session.txn = txn.unlessEmpty := by
  obtain ⟨more, extends_⟩ :=
    run_extends ⟨ev, binds, w.db.state, vars⟩ valid.dmlTxn.work_sound stmt
  unfold World.dml at success ⊢
  split at success
  · next st equal =>
      rw [equal] at extends_
      exact ⟨more, st.txn, extends_.grows, rfl⟩
  · cases success

/-- The transaction that a DML statement runs in is logged. -/
theorem World.dmlTxn_logged {w : World}
    (logged : ∀ txn, w.session.txn = some txn → txn.Logged w.db.state) :
    w.dmlState.txn.Logged w.db.state := by
  unfold World.dmlState
  cases open_ : w.session.txn with
  | none => exact ⟨rfl, [], .refl _⟩
  | some txn => exact logged txn open_

/-- A transaction that grows stays logged. -/
theorem Txn.Logged.grows {state : Catalog} {txn txn' : Txn} {more : List Edit}
    (logged : txn.Logged state) (grows : txn.Grows more txn') : txn'.Logged state := by
  obtain ⟨edits, first⟩ := logged.edits
  refine ⟨grows.schema.trans logged.schema, edits ++ more, ?_⟩
  rw [grows.origin]
  exact first.trans grows

namespace System

variable {ev : Evaluator} {sys sys' : System}

/-- The rows a transaction began on, and its log. -/
def began (txn : Txn) : (Address → Option Row) × List Change := (txn.origin.rowAt, txn.log)

/-- The system as a store of rows with transactions on snapshots of it. -/
def shared (sys : System) : Shared (Address → Option Row) Change :=
  ⟨sys.db.state.rowAt, fun i => (sys.sessions i).txn.map began⟩

/-- What a step of a session does to the shared store. -/
theorem shared_put (i : Nat) (w : World) : (sys.put i w).shared =
    { sys.shared.set i (w.session.txn.map began) with store := w.db.state.rowAt } := by
  apply Shared.ext
  · rfl
  · funext j
    by_cases own : j = i
    · subst own
      simp only [shared, sessions_put_self, Shared.set, Function.update_self]
    · simp only [shared, sessions_put_ne (Ne.symm own), Shared.set, Function.update_of_ne own]

/-- The deed that an event amounts to. -/
inductive Amounts : Event → Deed Change → Prop where
  | commit {i} : Amounts (.commit i, .ok ()) (.publish i)
  | commitFailed {i e} : Amounts (.commit i, .error e) (.drop i)
  | commitStatement {i utc localTime binds vars} :
      Amounts (.execute i utc localTime (.statement .commit binds vars), .ok ()) (.publish i)
  | commitStatementFailed {i utc localTime binds vars e} :
      Amounts (.execute i utc localTime (.statement .commit binds vars), .error e) (.drop i)
  | rollback {i outcome} : Amounts (.rollback i, outcome) (.drop i)
  | rollbackStatement {i utc localTime binds vars outcome} :
      Amounts (.execute i utc localTime (.statement .rollback binds vars), outcome) (.drop i)
  | connect {i env outcome} : Amounts (.connect i env, outcome) (.drop i)
  | dml {i utc localTime stmt binds vars changes} :
      Amounts (.execute i utc localTime (.statement (DmlStatement.toStatement stmt) binds vars),
        .ok ()) (.write i changes)
  | dmlFailed {i utc localTime stmt binds vars e} :
      Amounts (.execute i utc localTime (.statement (DmlStatement.toStatement stmt) binds vars),
        .error e) .idle
  | query {i utc localTime q binds vars outcome} :
      Amounts (.execute i utc localTime (.statement (.query q) binds vars), outcome) .idle
  | alterSession {i utc localTime name value binds vars outcome} :
      Amounts (.execute i utc localTime (.statement (.alterSession name value) binds vars), outcome)
        .idle
  | evaluate {i utc localTime step outcome} :
      Amounts (.execute i utc localTime (.evaluate step), outcome) .idle
  | snapshot {outcome} : Amounts (.snapshot, outcome) .idle

/-- A step that amounts to a deed, and undoes a failing statement exactly. -/
structure PlainStep (ev : Evaluator) (sys : System) (event : Event) (sys' : System) : Prop where
  step : Step ev sys event sys'
  amounts : ∃ deed, Amounts event deed
  exact : ∀ i utc localTime stmt binds vars, event.1 =
    .execute i utc localTime (.statement (DmlStatement.toStatement stmt) binds vars) →
      event.2 = .ok () ∨ ((sys.world i).startStatement utc localTime).NullsOnce ev binds vars stmt

/-- Every open transaction is logged. -/
def Logged (sys : System) : Prop :=
  ∀ i txn, (sys.sessions i).txn = some txn → txn.Logged sys.db.state

/-- A step that changes neither the committed rows nor a transaction. -/
theorem Logged.idle (logged : sys.Logged) {i : Nat} {w : World} (state : w.db.state = sys.db.state)
    (txn : w.session.txn = (sys.sessions i).txn) :
    (sys.put i w).shared = sys.shared ∧ (sys.put i w).Logged := by
  constructor
  · rw [shared_put, state, txn]
    exact Shared.ext rfl (Function.update_eq_self i _)
  · intro j t open_
    rw [show (sys.put i w).db.state = sys.db.state from state]
    by_cases own : i = j
    · subst own
      rw [sessions_put_self, txn] at open_
      exact logged i t open_
    · rw [sessions_put_ne own] at open_
      exact logged j t open_

/-- A step that closes a session's transaction and leaves the tables' columns as they are. -/
theorem Logged.closed (logged : sys.Logged) {i : Nat} {w : World}
    (schema : w.db.state.schema = sys.db.state.schema) (txn : w.session.txn = none) :
    (sys.put i w).Logged := by
  intro j t open_
  by_cases own : i = j
  · subst own
    rw [sessions_put_self, txn] at open_
    cases open_
  · rw [sessions_put_ne own] at open_
    obtain ⟨same, edits⟩ := logged j t open_
    exact ⟨same.trans schema.symm, edits⟩

/-- COMMIT publishes the log or drops it. -/
theorem Logged.commit (logged : sys.Logged) {i : Nat} {w : World} (valid : w.Valid)
    (state : w.db.state = sys.db.state) (txn : w.session.txn = (sys.sessions i).txn) :
    (∀ u, w.commit.1 = .ok u →
      (sys.put i w.commit.2).shared = sys.shared.act Change.onRows (.publish i)) ∧
    (∀ e, w.commit.1 = .error e →
      (sys.put i w.commit.2).shared = sys.shared.act Change.onRows (.drop i)) ∧
    (sys.put i w.commit.2).Logged := by
  have here : ∀ t, w.session.txn = some t → t.Logged w.db.state := fun t open_ => by
    rw [state]
    exact logged i t (txn ▸ open_)
  have failed : ∀ e, w.commit.1 = .error e → w.commit.2.db.state = sys.db.state := by
    intro e failed
    rw [← state]
    unfold World.commit at failed ⊢
    split at failed
    · cases failed
    · split at failed
      · cases failed
      · split at failed
        · cases failed
        · next some_ _ _ unpublished =>
            simp only [if_neg some_]
            rfl
  refine ⟨fun u success => ?_, fun e error => ?_, ?_⟩
  · obtain ⟨rows, _⟩ := World.commit_onRows valid here success
    rw [shared_put, World.commit_txn, rows, state]
    have log : w.session.pending = sys.shared.log i := by
      unfold Session.pending Shared.log shared
      rw [txn, Option.map_map]
      rfl
    rw [log]
    rfl
  · rw [shared_put, World.commit_txn, failed e error]
    rfl
  · refine logged.closed ?_ w.commit_txn
    cases outcome : w.commit.1 with
    | ok u => exact (World.commit_onRows valid here outcome).2.trans (congrArg _ state)
    | error e => exact congrArg _ (failed e outcome)

/-- A DML statement that succeeds writes. -/
theorem Logged.dml (logged : sys.Logged) {i : Nat} {w : World} {binds : List Value}
    {vars : Option VarLookup} {stmt : DmlStatement} {r : Nat × List Row} (valid : w.Valid)
    (state : w.db.state = sys.db.state) (txn : w.session.txn = (sys.sessions i).txn)
    (success : (w.dml ev binds vars stmt).1 = .ok r) :
    (∃ changes, (sys.put i (w.dml ev binds vars stmt).2).shared =
      sys.shared.act Change.onRows (.write i changes)) ∧
      (sys.put i (w.dml ev binds vars stmt).2).Logged := by
  obtain ⟨more, txn', grows, after⟩ := World.dml_grows valid success
  have committed := w.dml_state ev binds vars stmt
  have here : ∀ t, w.session.txn = some t → t.Logged w.db.state := fun t open_ => by
    rw [state]
    exact logged i t (txn ▸ open_)
  constructor
  · refine ⟨Edit.log more, ?_⟩
    have log : txn'.log = w.dmlState.txn.log ++ Edit.log more := grows.logged
    have start : w.dmlState.txn = (sys.sessions i).txn.getD (.start sys.db.state) := by
      rw [World.dmlState, txn, state]
    have opened : ((sys.shared.pending i).getD (sys.shared.store, [])) = began w.dmlState.txn := by
      rw [start]
      cases open_ : (sys.sessions i).txn <;> simp only [shared, open_] <;> rfl
    rw [shared_put, after, committed, state]
    cases changes : Edit.log more with
    | nil =>
        rw [changes, List.append_nil] at log
        have same : txn'.unlessEmpty.map began = sys.shared.pending i := by
          change txn'.unlessEmpty.map began = (sys.sessions i).txn.map began
          rw [← txn]
          cases open_ : w.session.txn with
          | none =>
              rw [World.dmlState, open_] at log
              rw [Txn.unlessEmpty_eq_none.mpr log]
          | some t =>
              have some_ := (valid.txn t open_).2
              rw [World.dmlState, open_, Option.getD_some] at log grows
              rw [Txn.unlessEmpty_of_some (log.symm ▸ some_), Option.map_some, Option.map_some,
                began, began, log, grows.origin]
        rw [same]
        exact Shared.ext rfl (Function.update_eq_self i _)
    | cons change rest =>
        have some_ : txn'.log ≠ [] := by
          rw [log, changes]
          exact List.append_ne_nil_of_right_ne_nil _ (List.cons_ne_nil _ _)
        rw [Txn.unlessEmpty_of_some some_, Option.map_some, Shared.act, opened, began, began, log,
          changes, grows.origin]
        rfl
  · intro j t open_
    rw [show (sys.put i (w.dml ev binds vars stmt).2).db.state = sys.db.state from
      committed.trans state]
    by_cases own : i = j
    · subst own
      rw [sessions_put_self, after] at open_
      obtain ⟨rfl, _⟩ := Txn.unlessEmpty_eq_some.mp open_
      rw [← state]
      exact (World.dmlTxn_logged here).grows grows
    · rw [sessions_put_ne own] at open_
      exact logged j t open_

/-- A failing DML statement that is undone exactly. -/
theorem Logged.dmlFailed (logged : sys.Logged) {i : Nat} {w : World} {binds : List Value}
    {vars : Option VarLookup} {stmt : DmlStatement} {e : OraError} (valid : w.Valid)
    (state : w.db.state = sys.db.state) (txn : w.session.txn = (sys.sessions i).txn)
    (once : w.NullsOnce ev binds vars stmt) (failed : (w.dml ev binds vars stmt).1 = .error e) :
    (sys.put i (w.dml ev binds vars stmt).2).shared = sys.shared ∧
      (sys.put i (w.dml ev binds vars stmt).2).Logged :=
  logged.idle ((w.dml_state ev binds vars stmt).trans state)
    ((valid.dml_error (valid.dmlSafe once) failed).trans txn)

/-- A step does to the shared store what its deed does. -/
theorem PlainStep.shared {event : Event} (plain : PlainStep ev sys event sys') (valid : sys.Valid)
    (logged : sys.Logged) :
    (∃ deed, Amounts event deed ∧ sys'.shared = sys.shared.act Change.onRows deed) ∧
      sys'.Logged := by
  obtain ⟨deed, amounts⟩ := plain.amounts
  have outcome : (sys.act ev event.1).1 = event.2 := congrArg Prod.fst plain.step
  have after : (sys.act ev event.1).2 = sys' := congrArg Prod.snd plain.step
  have exact_ := plain.exact
  subst after
  cases amounts with
  | @commit i =>
      obtain ⟨published, -, after⟩ := logged.commit (valid.world i) rfl rfl
      exact ⟨⟨_, .commit, published () outcome⟩, after⟩
  | @commitFailed i e =>
      obtain ⟨-, dropped, after⟩ := logged.commit (valid.world i) rfl rfl
      exact ⟨⟨_, .commitFailed, dropped e outcome⟩, after⟩
  | @commitStatement i utc localTime binds vars =>
      obtain ⟨published, -, after⟩ := logged.commit (valid.started i utc localTime) rfl rfl
      refine ⟨⟨_, .commitStatement, ?_⟩, after⟩
      cases result : ((sys.world i).startStatement utc localTime).commit.1 with
      | ok u => exact published u result
      | error e =>
          simp only [act, World.execute, World.run, World.plain, result] at outcome
          cases outcome
  | @commitStatementFailed i utc localTime binds vars e =>
      obtain ⟨-, dropped, after⟩ := logged.commit (valid.started i utc localTime) rfl rfl
      refine ⟨⟨_, .commitStatementFailed, ?_⟩, after⟩
      cases result : ((sys.world i).startStatement utc localTime).commit.1 with
      | error e => exact dropped e result
      | ok u =>
          simp only [act, World.execute, World.run, World.plain, result] at outcome
          cases outcome
  | @rollback i outcome =>
      exact ⟨⟨_, .rollback, shared_put i _⟩, logged.closed rfl rfl⟩
  | @rollbackStatement i utc localTime binds vars outcome =>
      exact ⟨⟨_, .rollbackStatement, shared_put i _⟩, logged.closed rfl rfl⟩
  | @connect i env outcome =>
      exact ⟨⟨_, .connect, shared_put i _⟩, logged.closed rfl rfl⟩
  | @dml i utc localTime stmt binds vars changes =>
      have started := valid.started i utc localTime
      simp only [act, World.execute, run_dmlStatement, World.runDml] at outcome ⊢
      cases result : (((sys.world i).startStatement utc localTime).dml ev binds vars stmt).1 with
      | ok r =>
          obtain ⟨⟨changes, shared_⟩, after⟩ := logged.dml started rfl rfl result
          exact ⟨⟨_, .dml, shared_⟩, after⟩
      | error e =>
          rw [result] at outcome
          cases outcome
  | @dmlFailed i utc localTime stmt binds vars e =>
      have started := valid.started i utc localTime
      have once := (exact_ i utc localTime stmt binds vars rfl).resolve_left fun success => by
        cases success
      simp only [act, World.execute, run_dmlStatement, World.runDml] at outcome ⊢
      cases result : (((sys.world i).startStatement utc localTime).dml ev binds vars stmt).1 with
      | ok r =>
          rw [result] at outcome
          cases outcome
      | error e =>
          obtain ⟨same, after⟩ := logged.dmlFailed started rfl rfl once result
          exact ⟨⟨_, .dmlFailed, same⟩, after⟩
  | @query i utc localTime q binds vars outcome =>
      have kept (w : World) : (w.query ev q binds vars).2.db.state = w.db.state ∧
          (w.query ev q binds vars).2.session.txn = w.session.txn := by
        unfold World.query
        split <;> exact ⟨rfl, rfl⟩
      have here := kept ((sys.world i).startStatement utc localTime)
      obtain ⟨same, after⟩ := logged.idle (i := i) here.1 here.2
      exact ⟨⟨_, .query, same⟩, after⟩
  | @alterSession i utc localTime name value binds vars outcome =>
      have kept (w : World) : (w.alterSession ev name value).2.db.state = w.db.state ∧
          (w.alterSession ev name value).2.session.txn = w.session.txn := by
        unfold World.alterSession
        split <;> exact ⟨rfl, rfl⟩
      have here := kept ((sys.world i).startStatement utc localTime)
      obtain ⟨same, after⟩ := logged.idle (i := i) here.1 here.2
      exact ⟨⟨_, .alterSession, same⟩, after⟩
  | @evaluate i utc localTime step outcome =>
      let w := (sys.world i).startStatement utc localTime
      obtain ⟨same, after⟩ := logged.idle (i := i)
        (w := w.setEval (step ⟨w.catalog, [], w.db.state, none⟩ w.evalState)) rfl rfl
      exact ⟨⟨_, .evaluate, same⟩, after⟩
  | snapshot => exact ⟨⟨_, .snapshot, rfl⟩, logged⟩

/-- A session reads its transaction's work if it has one, and the committed state otherwise. -/
theorem catalog_eq (sys : System) (i : Nat) : (sys.world i).catalog =
    match (sys.sessions i).txn with
    | some txn => txn.work
    | none => sys.db.state :=
  rfl

/-- What a session sees is its view of the shared store. -/
theorem Logged.view (logged : sys.Logged) (i : Nat) :
    (sys.world i).catalog.rowAt = sys.shared.view Change.onRows i := by
  rw [catalog_eq]
  unfold Shared.view
  cases open_ : (sys.sessions i).txn with
  | none => simp only [shared, open_, Option.map_none]
  | some txn =>
      simp only [shared, open_, Option.map_some]
      exact (logged i txn open_).rows

/-- A step with the deed it does to the shared store. -/
structure DeedStep (ev : Evaluator) (sys : System) (label : Event × Deed Change) (sys' : System) :
    Prop where
  plain : PlainStep ev sys label.1 sys'
  amounts : Amounts label.1 label.2
  acts : sys'.shared = sys.shared.act Change.onRows label.2

/-- A run does to the shared store what its deeds do. -/
theorem DeedRun.shared {labels : List (Event × Deed Change)}
    (run : Steps (DeedStep ev) sys labels sys') :
    (∀ label ∈ labels, Amounts label.1 label.2) ∧
      sys'.shared = sys.shared.run Change.onRows (labels.map Prod.snd) := by
  induction run with
  | nil => exact ⟨fun label member => (List.not_mem_nil member).elim, rfl⟩
  | cons head _ ih =>
      refine ⟨List.forall_mem_cons.mpr ⟨head.amounts, ih.1⟩, ih.2.trans ?_⟩
      rw [head.acts]
      rfl

/-- A run with deeds is a run of the plain system. -/
theorem DeedRun.plain {labels : List (Event × Deed Change)}
    (run : Steps (DeedStep ev) sys labels sys') :
    Steps (PlainStep ev) sys (labels.map Prod.fst) sys' := by
  induction run with
  | nil => exact .nil
  | cons head _ ih => exact .cons head.plain ih

/-- The steps of a plain run have their deeds. -/
theorem PlainRun.deeds {events : List Event} (run : Steps (PlainStep ev) sys events sys')
    (reachable : Reachable ev sys) (closed : ∀ i, (sys.sessions i).txn = none) :
    (∃ labels, labels.map Prod.fst = events ∧ Steps (DeedStep ev) sys labels sys') ∧
      sys'.Logged := by
  have logged : sys.Logged := fun i txn open_ => by
    rw [closed i] at open_
    cases open_
  have tagged := Steps.tag (DeedStep ev) (fun sys => sys.Valid ∧ sys.Logged)
    (fun {state event next} holds plain => by
      obtain ⟨⟨deed, amounts, acts⟩, after⟩ := plain.shared holds.1 holds.2
      exact ⟨⟨deed, plain, amounts, acts⟩, plain.step.valid holds.1, after⟩)
    run ⟨reachable.valid, logged⟩
  exact ⟨tagged.1, tagged.2.2⟩

/-- A run of plain steps from a state without open transactions is a run of transactions on
snapshots, and what every session sees is its view. -/
theorem sessions_refine_snapshots (reachable : Reachable ev sys)
    (closed : ∀ i, (sys.sessions i).txn = none) {events : List Event}
    (run : Steps (PlainStep ev) sys events sys') :
    ∃ deeds, List.Forall₂ Amounts events deeds ∧
      sys'.shared = sys.shared.run Change.onRows deeds ∧
      ∀ i, (sys'.world i).catalog.rowAt = sys'.shared.view Change.onRows i := by
  obtain ⟨⟨labels, rfl, deeds⟩, logged⟩ := PlainRun.deeds run reachable closed
  obtain ⟨amounts, ran⟩ := DeedRun.shared deeds
  refine ⟨labels.map Prod.snd, ?_, ran, logged.view⟩
  rw [List.forall₂_map_left_iff, List.forall₂_map_right_iff, List.forall₂_same]
  exact amounts

/-- A DML statement that succeeds. -/
theorem PlainStep.of_dml {request : Request} (dml : request.IsDml)
    (success : (sys.act ev request).1 = .ok ()) :
    PlainStep ev sys (request, (sys.act ev request).1) (sys.act ev request).2 := by
  refine ⟨rfl, ?_, fun _ _ _ _ _ _ _ => .inl success⟩
  obtain ⟨i, utc, localTime, stmt, binds, vars, rfl⟩ := dml
  exact ⟨.write i [], success ▸ .dml⟩

/-- COMMIT is a plain step. -/
theorem PlainStep.commit (i : Nat) :
    PlainStep ev sys (.commit i, (sys.act ev (.commit i)).1) (sys.act ev (.commit i)).2 := by
  refine ⟨rfl, ?_, fun _ _ _ _ _ _ same => by cases same⟩
  cases (sys.act ev (.commit i)).1 with
  | ok u => exact ⟨_, .commit⟩
  | error e => exact ⟨_, .commitFailed⟩

/-- The sessions of the sample have no transaction open. -/
theorem emptyTable_closed (i : Nat) : (emptyTable.sessions i).txn = none := by
  by_cases own : 0 = i
  · subst own
    decide
  · exact congrArg Session.txn (sessions_put_ne own)

/-- Two sessions insert a row each, and the first commits. -/
def insertsAndCommit : List Request := [insertId 1 10, insertId 2 20, .commit 1]

/-- The sample's inserts and its commit are plain steps. -/
theorem insertsAndCommit_plain :
    Steps (PlainStep literalEvaluator) emptyTable
      (emptyTable.eventsOf literalEvaluator insertsAndCommit)
      (emptyTable.runAll literalEvaluator insertsAndCommit) :=
  .cons (.of_dml (insertId_isDml 1 10) (by decide))
    (.cons (.of_dml (insertId_isDml 2 20) (by decide)) (.cons (.commit 1) .nil))

/-- The committed row is in the store, and the other session sees only its own. -/
theorem sessions_refine_snapshots_inserts :
    let sys' := emptyTable.runAll literalEvaluator insertsAndCommit
    sys'.shared.store ("T", 1) = some [.ofInt 10] ∧
      sys'.shared.view Change.onRows 2 ("T", 1) = none ∧
      sys'.shared.view Change.onRows 2 ("T", 2) = some [.ofInt 20] := by
  intro sys'
  obtain ⟨deeds, amounts, ran, views⟩ := sessions_refine_snapshots
    (reachable_runAll _ _ _ : Reachable literalEvaluator emptyTable) emptyTable_closed
    insertsAndCommit_plain
  rw [← views 2]
  exact ⟨by decide, by decide, by decide⟩

/-! ## Snapshot isolation -/

/-- A session's transaction ends with a COMMIT, a ROLLBACK or a new connection. -/
def Event.Ends (i : Nat) (event : Event) : Prop :=
  match event.1 with
  | .commit j | .rollback j | .connect j _ | .execute j _ _ (.statement .commit _ _)
  | .execute j _ _ (.statement .rollback _ _) => j = i
  | _ => False

/-- An event ends a session's transaction if and only if its deed does. -/
theorem Amounts.ends {event : Event} {deed : Deed Change} {i : Nat} (amounts : Amounts event deed) :
    event.Ends i ↔ deed.Ends i := by
  cases amounts with
  | @dml _ _ _ stmt => cases stmt <;> exact .rfl
  | @dmlFailed _ _ _ stmt => cases stmt <;> exact .rfl
  | _ => exact .rfl

theorem shared_pending (i : Nat) : sys.shared.pending i = (sys.sessions i).txn.map began := rfl

/-- A transaction that is open at the end of a run began at a point of the run, after which its
session has not ended it. The session sees the rows that were committed at that point, with its own
changes applied to them, and none of the commits since. -/
theorem snapshot_isolation (reachable : Reachable ev sys)
    (closed : ∀ i, (sys.sessions i).txn = none) {events : List Event}
    (run : Steps (PlainStep ev) sys events sys') {i : Nat}
    (opened : (sys'.sessions i).txn ≠ none) :
    ∃ before after mid, events = before ++ after ∧ Steps (PlainStep ev) sys before mid ∧
      Steps (PlainStep ev) mid after sys' ∧ (mid.sessions i).txn = none ∧
      (∀ event ∈ after, ¬ event.Ends i) ∧
      (sys'.world i).catalog.rowAt =
        Shared.applyAll Change.onRows (sys'.sessions i).pending mid.db.state.rowAt := by
  obtain ⟨⟨labels, rfl, deeds⟩, logged⟩ := PlainRun.deeds run reachable closed
  obtain ⟨txn, open_⟩ := Option.ne_none_iff_exists'.mp opened
  have start : sys.shared.pending i = none := by rw [shared_pending, closed i, Option.map_none]
  have pending : (sys.shared.run Change.onRows (labels.map Prod.snd)).pending i =
      some (began txn) := by
    rw [← (DeedRun.shared deeds).2, shared_pending, open_, Option.map_some]
  obtain ⟨first, second, parts, goes, none_, origin, -⟩ := Shared.pending_run start pending
  obtain ⟨before, after, rfl, rfl, rfl⟩ := List.map_eq_append_iff.mp parts
  obtain ⟨mid, toMid, fromMid⟩ := deeds.split
  have reached := (DeedRun.shared toMid).2
  rw [← reached] at none_ origin
  refine ⟨before.map Prod.fst, after.map Prod.fst, mid, List.map_append, DeedRun.plain toMid,
    DeedRun.plain fromMid, Option.map_eq_none_iff.mp none_, fun event member ends => ?_, ?_⟩
  · obtain ⟨label, among, rfl⟩ := List.mem_map.mp member
    have amounts := (DeedRun.shared fromMid).1 label among
    exact goes label.2 (List.mem_map_of_mem among) (amounts.ends.mp ends)
  · rw [logged.view, Shared.view, shared_pending, open_, Option.map_some]
    change Shared.applyAll _ txn.log txn.origin.rowAt = _
    rw [Session.pending, open_, show txn.origin.rowAt = mid.db.state.rowAt from origin]
    rfl

/-- The second session began before the first committed. -/
theorem snapshot_isolation_inserts :
    let sys' := emptyTable.runAll literalEvaluator insertsAndCommit
    ∃ before mid, Steps (PlainStep literalEvaluator) emptyTable before mid ∧
      (sys'.world 2).catalog.rowAt =
        Shared.applyAll Change.onRows (sys'.sessions 2).pending mid.db.state.rowAt := by
  intro sys'
  obtain ⟨before, after, mid, -, toMid, -, -, -, sees⟩ := snapshot_isolation
    (reachable_runAll _ _ _ : Reachable literalEvaluator emptyTable) emptyTable_closed
    insertsAndCommit_plain (i := 2) (Option.isSome_iff_ne_none.mp (by decide))
  exact ⟨before, mid, toMid, sees⟩

end System

end MockOracle
