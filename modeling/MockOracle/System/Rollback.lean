import MockOracle.Eval.Literal
import MockOracle.Session.Savepoint
import MockOracle.System.System

/-!
# Savepoints in a running system

A session takes a savepoint, runs any number of successful DML statements while others do
as they like, and undoes to the savepoint. The transaction is then what it was, tables,
indexes and log, provided that the entries since the savepoint are `UndoSafe`. The same
holds of a block that fails.
-/

namespace MockOracle

open Std Semantics

/-- The statement of a change of rows. -/
def DmlStatement.toStatement : DmlStatement → Statement
  | .insert i => .insert i
  | .update u => .update u
  | .delete d => .delete d

namespace Request

/-- The session that a request is made by. -/
def actor : Request → Option Nat
  | .execute i _ _ _ => some i
  | .commit i => some i
  | .rollback i => some i
  | .rollbackTo i _ => some i
  | .connect i _ => some i
  | .snapshot => none
  | .restore _ => none
  | .reset => none

/-- A DML statement. -/
def IsDml (request : Request) : Prop :=
  ∃ i utc localTime stmt binds vars,
    request = .execute i utc localTime (.statement (DmlStatement.toStatement stmt) binds vars)

end Request

namespace System

variable {ev : Evaluator} {sys sys' : System} {i : Nat}

/-- A session takes no part in the event, or has run a DML statement successfully. -/
def Event.OnlyDml (i : Nat) (event : Event) : Prop :=
  event.1.actor = some i → event.1.IsDml ∧ event.2 = .ok ()

/-- Another actor's event changes no rows of the session. -/
theorem Event.onlyDml_of_other {event : Event} (other : event.1.actor ≠ some i) :
    event.OnlyDml i := fun own => absurd own other

/-- A session's own step updates the session. -/
theorem sessions_put_self {w : World} : (sys.put i w).sessions i = w.session :=
  Function.update_self _ _ _

/-- A session's step leaves the others as they are. -/
theorem sessions_put_ne {j : Nat} {w : World} (other : j ≠ i) :
    (sys.put j w).sessions i = sys.sessions i := Function.update_of_ne other.symm _ _

/-- A request of another session leaves a session alone. -/
theorem act_other (request : Request) (other : request.actor ≠ some i) :
    (sys.act ev request).2.sessions i = sys.sessions i := by
  have apart : ∀ {j : Nat}, some j ≠ some i → j ≠ i := fun different same => different (same ▸ rfl)
  cases request with
  | execute j utc localTime command => exact sessions_put_ne (apart other)
  | commit j => exact sessions_put_ne (apart other)
  | rollback j => exact sessions_put_ne (apart other)
  | rollbackTo j savepoint => exact sessions_put_ne (apart other)
  | connect j env => exact sessions_put_ne (apart other)
  | snapshot => rfl
  | restore position =>
      simp only [act]
      split <;> rfl
  | reset => rfl

/-- A session's transaction has only grown, and was neither committed nor rolled back. -/
def SessionGrown (i : Nat) (sys sys' : System) : Prop :=
  Txn.GrownSince (sys.sessions i).txn (sys'.sessions i).txn ∧
    (sys'.sessions i).commits = (sys.sessions i).commits

/-- Starting a statement keeps the session valid. -/
theorem Valid.started (valid : sys.Valid) (i : Nat) (utc localTime : NaiveDateTime) :
    ((sys.world i).startStatement utc localTime).Valid := ⟨valid.sound, valid.txn i⟩

/-- A change of rows runs as one. -/
theorem run_dmlStatement (w : World) (stmt : DmlStatement) (binds : List Value)
    (vars : Option VarLookup) :
    w.run ev stmt.toStatement binds vars = w.runDml ev stmt binds vars := by
  cases stmt <;> rfl

/-- A successful DML statement of a session, as a step of the system. -/
theorem Step.dml_ok {event : Event} (step : Step ev sys event sys') (dml : event.1.IsDml)
    (success : event.2 = .ok ()) :
    ∃ j utc localTime stmt binds vars r, event.1.actor = some j ∧
      (((sys.world j).startStatement utc localTime).dml ev binds vars stmt).1 = .ok r ∧
      sys' = sys.put j (((sys.world j).startStatement utc localTime).dml ev binds vars stmt).2 := by
  obtain ⟨request, outcome⟩ := event
  obtain ⟨j, utc, localTime, stmt, binds, vars, rfl⟩ := dml
  have ok : (sys.act ev (.execute j utc localTime (.statement stmt.toStatement binds vars))).1 =
      .ok () := (congrArg Prod.fst step).trans success
  have after := (congrArg Prod.snd step).symm
  simp only [act, World.execute, run_dmlStatement, World.runDml] at ok after
  cases result : (((sys.world j).startStatement utc localTime).dml ev binds vars stmt).1 with
  | error e =>
      rw [result] at ok
      cases ok
  | ok r => exact ⟨j, utc, localTime, stmt, binds, vars, r, rfl, result, after⟩

/-- A step in which the session only changes rows grows its transaction. -/
theorem Step.sessionGrown {event : Event} (step : Step ev sys event sys') (valid : sys.Valid)
    (only : event.OnlyDml i) : SessionGrown i sys sys' := by
  by_cases own : event.1.actor = some i
  · obtain ⟨dml, success⟩ := only own
    obtain ⟨j, utc, localTime, stmt, binds, vars, r, actor, ok, rfl⟩ := step.dml_ok dml success
    rw [own] at actor
    cases actor
    have grown := World.Grown.dml (valid.started i utc localTime) (World.dmlSafe_of_ok ⟨r, ok⟩)
    rw [SessionGrown, sessions_put_self]
    exact ⟨grown.txn, grown.commits⟩
  · have after : (sys.act ev event.1).2 = sys' := congrArg Prod.snd step
    rw [← after, SessionGrown, act_other event.1 own]
    exact ⟨.refl (valid.world i), rfl⟩

/-- So does a run of such steps. -/
theorem Run.sessionGrown {events : List Event} (run : Run ev sys events sys') (valid : sys.Valid)
    (only : ∀ event ∈ events, Event.OnlyDml i event) : SessionGrown i sys sys' := by
  induction run with
  | nil => exact ⟨.refl (valid.world i), rfl⟩
  | cons head tail ih =>
      have first := Step.sessionGrown head valid (only _ List.mem_cons_self)
      have rest := ih (Step.valid head valid) fun event member =>
        only event (List.mem_cons_of_mem _ member)
      exact ⟨first.1.trans rest.1, rest.2.trans first.2⟩

end System

/-! ## What a transaction publishes -/

/-- The user's name is only in the error of a replay. -/
theorem replayChange_user (user user' : String) (cat : Catalog) (change : Change) :
    (replayChange user cat change).toOption = (replayChange user' cat change).toOption := by
  cases change with
  | insert table id values =>
      simp only [replayChange]
      split
      · rfl
      · split
        · split <;> rfl
        · rfl
  | update table id values old =>
      simp only [replayChange]
      split
      · rfl
      · split
        · split <;> rfl
        · rfl
  | delete table id old => rfl

/-- Replaying depends on the user for the text of errors only. -/
theorem replay_user (user user' : String) (log : List Change) (cat : Catalog) :
    (replay user log cat).toOption = (replay user' log cat).toOption := by
  induction log generalizing cat with
  | nil => rfl
  | cons change rest ih =>
      have first := replayChange_user user user' cat change
      simp only [replay]
      cases left : replayChange user cat change with
      | ok next =>
          cases right : replayChange user' cat change with
          | ok next' =>
              rw [left, right] at first
              cases first
              exact ih next
          | error e' =>
              rw [left, right] at first
              cases first
      | error e =>
          cases right : replayChange user' cat change with
          | ok next' =>
              rw [left, right] at first
              cases first
          | error e' => rfl

/-- It is only in the error of a COMMIT. -/
theorem publish_user (user user' : String) (txn : Txn) (state : Catalog) :
    (txn.publish user state).toOption = (txn.publish user' state).toOption := by
  have same := replay_user user user' txn.log state
  unfold Txn.publish
  split
  · rfl
  · cases left : replay user txn.log state <;> cases right : replay user' txn.log state <;>
      rw [left, right] at same <;> cases same <;> rfl

/-- What COMMIT leaves committed is decided by the transaction and the committed state. -/
theorem World.commit_congr {w w' : World} (txn : w'.session.txn = w.session.txn)
    (state : w'.db.state = w.db.state) : w'.commit.2.db.state = w.commit.2.db.state := by
  unfold World.commit
  rw [txn]
  cases w.session.txn with
  | none => exact state
  | some t =>
      have same := publish_user w'.session.env.user w.session.env.user t w.db.state
      rw [state]
      simp only
      split
      · exact state
      · cases left : t.publish w'.session.env.user w.db.state <;>
          cases right : t.publish w.session.env.user w.db.state <;> rw [left, right] at same
        · exact state
        · cases same
        · cases same
        · cases same
          rfl

namespace System

/-- From every reachable state: after a run in which a session only ran DML statements
successfully, undoing to the savepoint taken before restores the session's transaction,
provided that the entries since then are undo-safe. A block that fails, and whose own
entries are undo-safe, leaves the transaction, the catalog the session sees and what its
COMMIT would publish as they were. -/
theorem savepoint_rollback_exact {ev : Evaluator} {sys : System} (reachable : Reachable ev sys)
    (i : Nat) :
    (∀ events sys', Run ev sys events sys' → (∀ event ∈ events, Event.OnlyDml i event) →
      (sys'.sessions i).UndoSafe (sys.sessions i).savepoint →
      ((sys'.sessions i).rollbackTo (sys.sessions i).savepoint).txn = (sys.sessions i).txn) ∧
    (∀ script e, script.Safe ev (sys.world i) → (sys.world i).BlockSafe ev script →
      ((sys.world i).block ev script).1 = .error e →
      ((sys.world i).block ev script).2.session.txn = (sys.sessions i).txn ∧
      ((sys.world i).block ev script).2.catalog = (sys.world i).catalog ∧
      ((sys.world i).block ev script).2.commit.2.db.state = (sys.world i).commit.2.db.state) := by
  have valid := reachable.valid
  constructor
  · intro events sys' run only safe
    have grown := Run.sessionGrown run valid only
    exact Session.rollbackTo_grown grown.1 grown.2 safe
  · intro script e safe blockSafe failed
    obtain ⟨grown, restored⟩ :=
      World.Grown.settle (valid.world i) (World.Grown.runScript (valid.world i) safe) blockSafe
    have txn : ((sys.world i).block ev script).2.session.txn = (sys.world i).session.txn :=
      restored e failed
    refine ⟨txn, ?_, World.commit_congr txn grown.state⟩
    unfold World.catalog
    rw [txn, grown.state]

/-- A session with one uncommitted row, V = 0. -/
def oneRow : System :=
  (new fun _ => Literal.env "SCOTT").runAll literalEvaluator
    [.sql 0 (Literal.createTable "T" ["ID", "V"] [Literal.primaryKey "T_PK" "ID"]),
      .sql 0 (Literal.insert "T" [.ofInt 1, .ofInt 0])]

/-- UPDATE of V in every row of the table. -/
def setV (n : Int) : Request := .sql 0 (Literal.update "T" "V" (.literal (.ofInt n)) none)

/-- The sample's update changes rows. -/
theorem setV_isDml (n : Int) : (setV n).IsDml :=
  ⟨0, ⟨0, 0⟩, ⟨0, 0⟩, .update ⟨"T", none, [("V", .literal (.ofInt n))], none, none⟩, [], none, rfl⟩

/-- Two updates of one row after the savepoint: undoing them is refused for a duplicate key
and the row keeps its newest value. -/
theorem savepoint_rollback_two_updates :
    let sys' := oneRow.runAll literalEvaluator [setV 1, setV 2]
    let restored := (sys'.sessions 0).rollbackTo (oneRow.sessions 0).savepoint
    Reachable literalEvaluator oneRow ∧
      Run literalEvaluator oneRow (oneRow.eventsOf literalEvaluator [setV 1, setV 2]) sys' ∧
      (∀ event ∈ oneRow.eventsOf literalEvaluator [setV 1, setV 2], Event.OnlyDml 0 event) ∧
      (oneRow.sessions 0).txn.map (·.work.rowAt ("T", 1)) =
        some (some [.ofInt 1, .ofInt 0]) ∧
      restored.txn.map (·.work.rowAt ("T", 1)) = some (some [.ofInt 1, .ofInt 2]) ∧
      restored.txn ≠ (oneRow.sessions 0).txn := by
  intro sys' restored
  have before : (oneRow.sessions 0).txn.map (·.work.rowAt ("T", 1)) =
      some (some [.ofInt 1, .ofInt 0]) := by decide
  have after : restored.txn.map (·.work.rowAt ("T", 1)) =
      some (some [.ofInt 1, .ofInt 2]) := by decide
  refine ⟨reachable_runAll _ _ _, runAll_run _ _ _, ?_, before, after, fun same => ?_⟩
  · simp only [eventsOf, List.forall_mem_cons, List.not_mem_nil, false_imp_iff, implies_true,
      and_true]
    exact ⟨fun _ => ⟨setV_isDml 1, by decide⟩, fun _ => ⟨setV_isDml 2, by decide⟩⟩
  · rw [same, before] at after
    revert after
    decide

/-- A block that updates V and fails. -/
def failingBlock : Script :=
  .execute (Literal.update "T" "V" (.literal (.ofInt 1)) none) [] none
    fun _ => .done (.error ⟨20000, "stop"⟩)

/-- Undoing is safe if the log names no row twice after the savepoint. -/
theorem undoSafe_of_addresses {s : Session} {savepoint : Savepoint}
    (distinct : s.txn.all (fun txn =>
      decide ((txn.log.drop (s.keep savepoint)).map Change.address).Nodup) = true) :
    s.UndoSafe savepoint := by
  intro txn open_
  rw [open_] at distinct
  exact .of_nodup (by simpa using distinct)

/-- One update after the savepoint is undone exactly, also by a block that fails. -/
theorem savepoint_rollback_one_update :
    let sys' := oneRow.runAll literalEvaluator [setV 1]
    ((sys'.sessions 0).rollbackTo (oneRow.sessions 0).savepoint).txn = (oneRow.sessions 0).txn ∧
      ((oneRow.world 0).block literalEvaluator failingBlock).2.session.txn =
        (oneRow.sessions 0).txn := by
  intro sys'
  have exact_ := savepoint_rollback_exact (reachable_runAll literalEvaluator _ _ : Reachable _ oneRow) 0
  constructor
  · refine exact_.1 _ sys' (runAll_run _ [setV 1] _) ?_ (undoSafe_of_addresses (by decide))
    simp only [eventsOf, List.forall_mem_cons, List.not_mem_nil, false_imp_iff, implies_true,
      and_true]
    exact fun _ => ⟨setV_isDml 1, by decide⟩
  · refine (exact_.2 failingBlock ⟨20000, "stop"⟩ ⟨?_, trivial⟩ ?_ rfl).1
    · exact World.dmlSafe_of_ok ⟨(1, []), by decide⟩
    · intro e failed
      exact undoSafe_of_addresses (by decide)

end System

end MockOracle
