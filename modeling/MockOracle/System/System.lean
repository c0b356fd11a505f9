import MockOracle.Session.Stepwise

/-!
# Any number of sessions over one database

A request is one thing a client can have done: a session executes a statement or a block,
commits, rolls back, or undoes to a savepoint; a session is opened; a snapshot is taken
or restored. A run is any sequence of requests, in any order and whatever their outcomes.
A block is a single request here, and it is also covered as the sequence of requests that
its statements make, with those of other sessions in between.
-/

namespace MockOracle

open Std Semantics

/-! ## The code -/

/-- A saved copy of a database's committed tables. -/
structure Snapshot where
  catalog : Catalog
  identities : ExtTreeMap String Int
  sequences : ExtTreeMap String Int

namespace Database

/-- Save the committed tables. -/
def snapshot (db : Database) : Snapshot := ⟨db.state, db.identities, db.sequences⟩

/-- Replace the committed state with a snapshot. -/
def restore (db : Database) (s : Snapshot) : Database :=
  { db with
    state := { s.catalog with version := db.state.version + 1 }
    identities := s.identities
    sequences := s.sequences }

/-- Drop every table, sequence, procedure and function. -/
def reset (db : Database) : Database := db.restore ⟨.empty, ∅, ∅⟩

end Database

/-- A session that has just been opened. -/
def Session.new (env : Env) : Session := ⟨env, none, 0⟩

/-- A database, its sessions, and the snapshots taken of it. -/
structure System where
  db : Database
  sessions : Nat → Session
  snapshots : List Snapshot

/-- What a session is asked to execute. -/
inductive Command where
  | statement (stmt : Statement) (binds : List Value) (vars : Option VarLookup)
  | block (script : Script)
  /-- A block evaluates something between its statements. -/
  | evaluate (step : Ex → EvalState → EvalState)

/-- What is asked of a system. -/
inductive Request where
  /-- A session executes a command, at the given time in UTC and local. -/
  | execute (session : Nat) (utc localTime : NaiveDateTime) (command : Command)
  | commit (session : Nat)
  | rollback (session : Nat)
  | rollbackTo (session : Nat) (savepoint : Savepoint)
  /-- Open a session; one that was there before is dropped, which rolls it back. -/
  | connect (session : Nat) (env : Env)
  | snapshot
  | restore (position : Nat)
  | reset

/-- A session executes a statement without binds, at the epoch. -/
def Request.sql (session : Nat) (stmt : Statement) : Request :=
  .execute session ⟨0, 0⟩ ⟨0, 0⟩ (.statement stmt [] none)

namespace World

/-- Note the time for the statement to come. -/
def startStatement (utc localTime : NaiveDateTime) (w : World) : World :=
  { w with session := { w.session with
      env := { w.session.env with nowUtc := utc, nowLocal := localTime } } }

/-- A session executes a statement or a block. -/
def execute (ev : Evaluator) (command : Command) (w : World) : Except OraError Unit × World :=
  match command with
  | .statement stmt binds vars =>
      let result := w.run ev stmt binds vars
      (result.1.map fun _ => (), result.2)
  | .block script =>
      let result := w.block ev script
      (result.1.map fun _ => (), result.2)
  | .evaluate step => (.ok (), w.setEval (step ⟨w.catalog, [], w.db.state, none⟩ w.evalState))

end World

namespace System

/-- A new database with sessions in which nothing has happened. -/
def new (envs : Nat → Env) : System := ⟨.new, fun i => .new (envs i), []⟩

/-- A session of the system with the database. -/
def world (sys : System) (i : Nat) : World := ⟨sys.db, sys.sessions i⟩

/-- The system after a session has made a step. -/
def put (sys : System) (i : Nat) (w : World) : System :=
  { sys with db := w.db, sessions := Function.update sys.sessions i w.session }

/-- The system after a request, and the outcome of the request. -/
def act (ev : Evaluator) (sys : System) : Request → Except OraError Unit × System
  | .execute i utc localTime command =>
      let result := ((sys.world i).startStatement utc localTime).execute ev command
      (result.1, sys.put i result.2)
  | .commit i =>
      let result := (sys.world i).commit
      (result.1, sys.put i result.2)
  | .rollback i => (.ok (), sys.put i (sys.world i).rollback)
  | .rollbackTo i savepoint =>
      (.ok (), sys.put i { sys.world i with session := (sys.sessions i).rollbackTo savepoint })
  | .connect i env => (.ok (), sys.put i ⟨sys.db, .new env⟩)
  | .snapshot => (.ok (), { sys with snapshots := sys.snapshots ++ [sys.db.snapshot] })
  | .restore position =>
      match sys.snapshots[position]? with
      | none => (.ok (), sys)
      | some s => (.ok (), { sys with db := sys.db.restore s })
  | .reset => (.ok (), { sys with db := sys.db.reset })

/-- One request with its outcome. -/
abbrev Event := Request × Except OraError Unit

/-- One step of the system. -/
def Step (ev : Evaluator) (sys : System) (event : Event) (sys' : System) : Prop :=
  sys.act ev event.1 = (event.2, sys')

/-- A run of the system. -/
abbrev Run (ev : Evaluator) := Steps (Step ev)

/-- A state that some run of a new system ends in. -/
def Reachable (ev : Evaluator) (sys : System) : Prop :=
  ∃ envs events, Run ev (new envs) events sys

/-! ## The invariant -/

/-- The catalogs of a system are sound, and its open transactions are valid and have changed
something. -/
structure Valid (sys : System) : Prop where
  sound : sys.db.state.Sound sys.db.nextRowId
  txn : ∀ i txn, (sys.sessions i).txn = some txn → txn.Valid sys.db ∧ txn.log ≠ []
  snapshots : ∀ s ∈ sys.snapshots, s.catalog.Sound sys.db.nextRowId

variable {ev : Evaluator} {sys sys' : System}

/-- A new system is valid. -/
theorem valid_new (envs : Nat → Env) : (new envs).Valid where
  sound := Catalog.sound_empty
  txn i txn open_ := by cases open_
  snapshots s member := by cases member

/-- Each session of a valid system is valid with its database. -/
theorem Valid.world (valid : sys.Valid) (i : Nat) : (sys.world i).Valid :=
  ⟨valid.sound, valid.txn i⟩

/-- A valid step of one session keeps the others' transactions valid. -/
theorem Valid.put (valid : sys.Valid) {i : Nat} {w : World} (moves : (sys.world i).Moves w) :
    (sys.put i w).Valid where
  sound := moves.valid.sound
  txn j txn open_ := by
    by_cases same : j = i
    · subst same
      simp only [System.put, Function.update_self] at open_
      exact moves.valid.txn txn open_
    · simp only [System.put, Function.update_of_ne same] at open_
      exact ⟨(valid.txn j txn open_).1.advance moves.db, (valid.txn j txn open_).2⟩
  snapshots s member := (valid.snapshots s member).mono moves.db.draws

/-- Going back to a snapshot advances the database: the version goes up all the same. -/
theorem restore_advances (db : Database) {s : Snapshot} (sound : s.catalog.Sound db.nextRowId) :
    db.Advances (db.restore s) where
  draws := Nat.le_refl _
  versioned := Or.inr (Nat.lt_succ_self _)
  sound _ := sound.of_tables rfl

/-- A change of the database alone keeps the transactions valid. -/
theorem Valid.setDb (valid : sys.Valid) {db : Database} (advances : sys.db.Advances db) :
    ({ sys with db } : System).Valid where
  sound := advances.sound valid.sound
  txn i txn open_ := ⟨(valid.txn i txn open_).1.advance advances, (valid.txn i txn open_).2⟩
  snapshots s member := (valid.snapshots s member).mono advances.draws

/-- Executing a command is a move of its session. -/
theorem Valid.execute (ev : Evaluator) (valid : sys.Valid) (i : Nat) (utc localTime : NaiveDateTime)
    (command : Command) :
    (sys.world i).Moves (((sys.world i).startStatement utc localTime).execute ev command).2 := by
  have started : (sys.world i).Moves ((sys.world i).startStatement utc localTime) :=
    .of_advances (valid.world i) (.refl _) rfl
  refine started.trans ?_
  cases command with
  | statement stmt binds vars => exact started.valid.runStatement ev stmt binds vars
  | block script => exact started.valid.block ev script
  | evaluate step => exact started.valid.setEval _

/-- A relation that the steps of a session respect is respected by whatever it executes. -/
theorem Valid.stepwise {R : World → World → Prop} (stepwise : World.Stepwise ev R)
    (valid : sys.Valid) (i : Nat) (utc localTime : NaiveDateTime) (command : Command) :
    R (sys.world i) (((sys.world i).startStatement utc localTime).execute ev command).2 := by
  have started : R (sys.world i) ((sys.world i).startStatement utc localTime) :=
    stepwise.same rfl rfl rfl
  have startedValid : ((sys.world i).startStatement utc localTime).Valid :=
    ⟨valid.sound, valid.txn i⟩
  refine stepwise.trans started ?_
  cases command with
  | statement stmt binds vars => exact stepwise.run startedValid stmt binds vars
  | block script => exact stepwise.block startedValid script
  | evaluate step => exact stepwise.same rfl rfl rfl

/-- Every request keeps a system valid. -/
theorem Valid.act (ev : Evaluator) (valid : sys.Valid) (request : Request) :
    (sys.act ev request).2.Valid := by
  cases request with
  | execute i utc localTime command => exact valid.put (valid.execute ev i utc localTime command)
  | commit i => exact valid.put (valid.world i).commit
  | rollback i => exact valid.put (valid.world i).closed
  | rollbackTo i savepoint => exact valid.put ((valid.world i).rollbackTo savepoint)
  | connect i env => exact valid.put (.of_closed (valid.world i) (.refl _) rfl)
  | snapshot =>
      refine ⟨valid.sound, valid.txn, fun s member => ?_⟩
      rcases List.mem_append.mp member with old | new
      · exact valid.snapshots s old
      · rw [List.mem_singleton.mp new]
        exact valid.sound
  | restore position =>
      simp only [System.act]
      split
      · exact valid
      · next s found =>
          exact valid.setDb (restore_advances _ (valid.snapshots s (List.mem_of_getElem? found)))
  | reset => exact valid.setDb (restore_advances _ Catalog.sound_empty)

/-- Every request lets the database advance. -/
theorem Valid.advances (ev : Evaluator) (valid : sys.Valid) (request : Request) :
    sys.db.Advances (sys.act ev request).2.db := by
  cases request with
  | execute i utc localTime command => exact (valid.execute ev i utc localTime command).db
  | commit i => exact (valid.world i).commit.db
  | rollback i => exact .refl _
  | rollbackTo i savepoint => exact .refl _
  | connect i env => exact .refl _
  | snapshot => exact .refl _
  | restore position =>
      simp only [System.act]
      split
      · exact .refl _
      · next s found =>
          exact restore_advances _ (valid.snapshots s (List.mem_of_getElem? found))
  | reset => exact restore_advances _ Catalog.sound_empty

/-- Every step keeps a system valid. -/
theorem Step.valid {event : Event} (step : Step ev sys event sys') (valid : sys.Valid) :
    sys'.Valid := by
  have after := valid.act ev event.1
  rw [step] at after
  exact after

/-- Every run keeps a system valid. -/
theorem Run.valid {events : List Event} (run : Run ev sys events sys') (valid : sys.Valid) :
    sys'.Valid := run.preserves (fun holds step => Step.valid step holds) valid

/-- Every step advances the database. -/
theorem Step.advances {event : Event} (step : Step ev sys event sys') (valid : sys.Valid) :
    sys.db.Advances sys'.db := by
  have after := valid.advances ev event.1
  rw [step] at after
  exact after

/-- Every run advances the database. -/
theorem Run.advances {events : List Event} (run : Run ev sys events sys') (valid : sys.Valid) :
    sys.db.Advances sys'.db := by
  induction run with
  | nil => exact .refl _
  | cons head _ ih => exact (Step.advances head valid).trans (ih (Step.valid head valid))

/-- The invariant holds in every reachable state. -/
theorem Reachable.valid (reachable : Reachable ev sys) : sys.Valid := by
  obtain ⟨envs, events, run⟩ := reachable
  exact Run.valid run (valid_new envs)

/-- Run requests one after another. -/
def runAll (ev : Evaluator) (requests : List Request) (sys : System) : System :=
  requests.foldl (fun sys request => (sys.act ev request).2) sys

/-- The requests with the outcomes they have one after another. -/
def eventsOf (ev : Evaluator) : List Request → System → List Event
  | [], _ => []
  | request :: rest, sys =>
      (request, (sys.act ev request).1) :: eventsOf ev rest (sys.act ev request).2

/-- Running requests is a run. -/
theorem runAll_run (ev : Evaluator) (requests : List Request) (sys : System) :
    Run ev sys (sys.eventsOf ev requests) (sys.runAll ev requests) := by
  induction requests generalizing sys with
  | nil => exact .nil
  | cons request rest ih => exact .cons rfl (ih (sys.act ev request).2)

/-- What requests make of a new system is reachable. -/
theorem reachable_runAll (ev : Evaluator) (envs : Nat → Env) (requests : List Request) :
    Reachable ev ((new envs).runAll ev requests) :=
  ⟨envs, _, runAll_run ev requests (new envs)⟩

end System

end MockOracle
