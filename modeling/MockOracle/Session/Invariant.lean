import MockOracle.Session.DdlContract
import MockOracle.Session.Run

/-!
# The invariant of a session and its database

Whatever a session does, successfully or not, the committed catalog and the transaction's
private one stay sound, every log entry fits the private catalog, and a transaction that
still has the committed version was cloned from the committed catalog. Undoing may restore
a state inexactly, but it never leaves an unsound one.
-/

namespace MockOracle

open Std Semantics

/-! ## Undo -/

/-- The updates that are undone together are consecutive ones of the log. -/
theorem popUpdates_mem (table : String) (stack : List Change) :
    (∀ entry ∈ (popUpdates table stack).1, ∃ values, .update table entry.1 values entry.2 ∈ stack) ∧
      (popUpdates table stack).2 ⊆ stack := by
  induction stack with
  | nil => simp [popUpdates]
  | cons change rest ih =>
      cases change with
      | insert next id values => simp [popUpdates]
      | delete next id old => simp [popUpdates]
      | update next id values old =>
          by_cases same : next = table
          · subst same
            simp only [popUpdates, if_true]
            constructor
            · intro entry member
              rcases List.mem_cons.mp member with rfl | later
              · exact ⟨values, List.mem_cons_self⟩
              · obtain ⟨values', among⟩ := ih.1 entry later
                exact ⟨values', List.mem_cons_of_mem _ among⟩
            · exact List.subset_cons_of_subset _ ih.2
          · simp [popUpdates, same]

/-- The parts of a catalog that undoing leaves alone, and its soundness. -/
structure Catalog.Keeps (bound : Nat) (cat cat' : Catalog) : Prop where
  schema : cat'.schema = cat.schema
  sequences : cat'.sequences = cat.sequences
  routines : cat'.routines = cat.routines
  version : cat'.version = cat.version
  sound : cat.Sound bound → cat'.Sound bound

namespace Catalog.Keeps

variable {bound : Nat} {cat cat' cat'' : Catalog}

/-- A catalog keeps itself. -/
theorem refl (cat : Catalog) : cat.Keeps bound cat := ⟨rfl, rfl, rfl, rfl, fun sound => sound⟩

/-- What is kept twice is kept. -/
theorem trans (first : cat.Keeps bound cat') (second : cat'.Keeps bound cat'') :
    cat.Keeps bound cat'' where
  schema := second.schema.trans first.schema
  sequences := second.sequences.trans first.sequences
  routines := second.routines.trans first.routines
  version := second.version.trans first.version
  sound := second.sound ∘ first.sound

/-- Modifying a table soundly, with its schema, keeps the rest. -/
theorem modifyTable {name : String} {f : Table → Table}
    (schema : ∀ t, cat.table name = some t → (f t).schema = t.schema)
    (sound : ∀ t, cat.table name = some t → t.Sound bound name → (f t).Sound bound name) :
    cat.Keeps bound (cat.modifyTable name f) := by
  cases found : cat.table name with
  | none => simpa [Catalog.modifyTable, found] using Keeps.refl cat
  | some t =>
      rw [Catalog.modifyTable_of_found f found]
      exact ⟨Catalog.schema_setTable found (schema t found), rfl, rfl, rfl, fun holds =>
        holds.setTable (sound t found (holds name t found))⟩

end Catalog.Keeps

/-- A run of edits whose ids have been handed out keeps the catalog's other parts. -/
theorem Edit.Run.keeps {bound : Nat} {cat cat' : Catalog} {edits : List Edit}
    (run : Edit.Run cat edits cat') (below : Edit.Below bound edits) : cat.Keeps bound cat' :=
  ⟨run.frame.1, run.frame.2.1, run.frame.2.2.1, run.frame.2.2.2, fun sound => run.sound sound below⟩

/-- Undoing entries that fit keeps the catalog's other parts. -/
theorem undoLoop_keeps {bound : Nat} {cat : Catalog} (fuel : Nat) {stack : List Change}
    (fits : ∀ change ∈ stack, change.Fits bound cat) : cat.Keeps bound (undoLoop fuel stack cat) := by
  induction fuel generalizing stack cat with
  | zero => exact .refl cat
  | succ fuel ih =>
      -- After a round the remaining entries fit, since it keeps the schema.
      have continue_ : ∀ {rest : List Change} {middle : Catalog}, rest ⊆ stack →
          cat.Keeps bound middle → cat.Keeps bound (undoLoop fuel rest middle) := by
        intro rest middle among keeps
        refine keeps.trans (ih fun change member => ?_)
        exact (fits change (among member)).transfer (Nat.le_refl _) keeps.schema
      have width : ∀ {table : String} {t : Table} {change : Change}, change ∈ stack →
          change.table = table → cat.table table = some t →
          ∀ row ∈ change.carried, row.length = t.columns.length := by
        intro table t change member same found
        obtain ⟨_, u, foundU, carried⟩ := fits change member
        rw [same, found] at foundU
        cases foundU
        exact carried
      match stack with
      | [] => exact .refl cat
      | .insert table id values :: rest =>
          refine continue_ (List.subset_cons_self _ _) ?_
          exact .modifyTable (fun t _ => t.schema_delete id) fun t _ sound => sound.delete id
      | .delete table id old :: rest =>
          refine continue_ (List.subset_cons_self _ _) ?_
          refine .modifyTable (fun t _ => t.schema_insert id old) fun t found sound => ?_
          exact sound.insert (fits _ List.mem_cons_self).1
            (width List.mem_cons_self rfl found old (by simp [Change.carried]))
      | .update table id values old :: rest =>
          have popped := popUpdates_mem table rest
          refine continue_ (List.subset_cons_of_subset _ popped.2) ?_
          refine .modifyTable (fun t _ => t.schema_update _) fun t found sound => ?_
          refine sound.update fun change member => ?_
          rcases List.mem_cons.mp member with rfl | later
          · exact width List.mem_cons_self rfl found old (by simp [Change.carried])
          · obtain ⟨values', among⟩ := popped.1 change later
            exact width (List.mem_cons_of_mem _ among) rfl found change.2 (by simp [Change.carried])

/-! ## Replay -/

/-- Everything that replaying one entry successfully can do. -/
inductive Replays (cat : Catalog) : Change → Catalog → Prop where
  | gone {change : Change} (missing : cat.table change.table = none) : Replays cat change cat
  | misfit {change : Change} {t : Table} {values : Row} (found : cat.table change.table = some t)
      (image : change.image = some values) (width : t.columns.length ≠ values.length) :
      Replays cat change cat
  | insert {table : String} {id : Nat} {values : Row} {t t' : Table}
      (found : cat.table table = some t) (width : t.columns.length = values.length)
      (success : t.insert id values = (.ok (), t')) :
      Replays cat (.insert table id values) (cat.setTable table t')
  | update {table : String} {id : Nat} {values old : Row} {t t' : Table}
      (found : cat.table table = some t) (width : t.columns.length = values.length)
      (success : t.update [(id, values)] = (.ok (), t')) :
      Replays cat (.update table id values old) (cat.setTable table t')
  | delete {table : String} {id : Nat} {old : Row} {t : Table}
      (found : cat.table table = some t) :
      Replays cat (.delete table id old) (cat.setTable table (t.delete id).2)

/-- A successful replay of an entry is one of these. -/
theorem replayChange_replays {user : String} {cat next : Catalog} {change : Change}
    (success : replayChange user cat change = .ok next) : Replays cat change next := by
  cases found : cat.table change.table with
  | none =>
      cases change <;> rw [Change.table] at found <;>
        simp only [replayChange, Catalog.modifyTable, found] at success <;> cases success <;>
        exact .gone found
  | some t =>
      cases change with
      | insert table id values =>
          rw [Change.table] at found
          simp only [replayChange, found] at success
          split at success
          · next width =>
              split at success
              · next t' inserted =>
                  cases success
                  exact .insert found width inserted
              · cases success
          · next misfit =>
              cases success
              exact .misfit found rfl misfit
      | update table id values old =>
          rw [Change.table] at found
          simp only [replayChange, found] at success
          split at success
          · next width =>
              split at success
              · next t' updated =>
                  cases success
                  exact .update found width updated
              · cases success
          · next misfit =>
              cases success
              exact .misfit found rfl misfit
      | delete table id old =>
          rw [Change.table] at found
          simp only [replayChange, Catalog.modifyTable_of_found _ found] at success
          cases success
          exact .delete found

/-- Replaying an entry keeps the catalog's other parts. -/
theorem Replays.keeps {bound : Nat} {cat next : Catalog} {change : Change}
    (replays : Replays cat change next) (used : change.id < bound) : cat.Keeps bound next := by
  cases replays with
  | gone missing => exact .refl cat
  | misfit found image width => exact .refl cat
  | @insert table id values t t' found width success =>
      have schema := t.schema_insert id values
      rw [success] at schema
      refine ⟨Catalog.schema_setTable found schema, rfl, rfl, rfl, fun sound => ?_⟩
      have after := (sound table t found).insert used width.symm
      rw [Change.id, success] at after
      exact sound.setTable after
  | @update table id values old t t' found width success =>
      have schema := t.schema_update [(id, values)]
      rw [success] at schema
      refine ⟨Catalog.schema_setTable found schema, rfl, rfl, rfl, fun sound => ?_⟩
      have after : (t.update [(id, values)]).2.Sound bound table :=
        (sound table t found).update (by simpa using width.symm)
      rw [success] at after
      exact sound.setTable after
  | @delete table id old t found =>
      exact ⟨Catalog.schema_setTable found (t.schema_delete id), rfl, rfl, rfl, fun sound =>
        sound.setTable ((sound table t found).delete id)⟩

/-- Replaying a log keeps the catalog's other parts. -/
theorem replay_keeps {bound : Nat} {user : String} {cat next : Catalog} {log : List Change}
    (used : ∀ change ∈ log, change.id < bound) (success : replay user log cat = .ok next) :
    cat.Keeps bound next := by
  induction log generalizing cat with
  | nil =>
      cases success
      exact .refl _
  | cons change rest ih =>
      simp only [replay] at success
      split at success
      · next middle first =>
          exact ((replayChange_replays first).keeps (used change List.mem_cons_self)).trans
            (ih (fun change member => used change (List.mem_cons_of_mem _ member)) success)
      · cases success

/-! ## Transactions and worlds -/

/-- What holds of an open transaction and its database. -/
structure Txn.Valid (db : Database) (txn : Txn) : Prop where
  /-- The private catalog is that of the origin up to rows. -/
  keeps : txn.origin.Keeps db.nextRowId txn.work
  sound : txn.origin.Sound db.nextRowId
  fits : ∀ change ∈ txn.log, change.Fits db.nextRowId txn.work
  base : txn.origin.version = txn.baseVersion
  /-- The transaction started from the committed state or from an older one. -/
  le : txn.baseVersion ≤ db.state.version
  unchanged : txn.baseVersion = db.state.version → db.state = txn.origin

namespace Txn.Valid

variable {db db' : Database} {txn : Txn}

/-- The private catalog of a transaction is sound. -/
theorem work_sound (valid : txn.Valid db) : txn.work.Sound db.nextRowId :=
  valid.keeps.sound valid.sound

/-- A transaction that starts from a sound catalog is valid. -/
theorem start (sound : db.state.Sound db.nextRowId) : (Txn.start db.state).Valid db where
  keeps := .refl _
  sound := sound
  fits := by simp [Txn.start]
  base := rfl
  le := Nat.le_refl _
  unchanged _ := rfl

/-- Other sessions' work does not invalidate a transaction. -/
theorem advance (valid : txn.Valid db) (advances : db.Advances db') : txn.Valid db' where
  keeps := ⟨valid.keeps.schema, valid.keeps.sequences, valid.keeps.routines, valid.keeps.version,
    fun _ => valid.work_sound.mono advances.draws⟩
  sound := valid.sound.mono advances.draws
  fits change member := (valid.fits change member).transfer advances.draws rfl
  base := valid.base
  le := valid.le.trans advances.version_le
  unchanged same := by
    rcases advances.versioned with equal | larger
    · rw [equal] at same ⊢
      exact valid.unchanged same
    · have := valid.le
      omega

/-- A transaction of the same origin whose catalog and log fit. -/
theorem replaceWork {txn' : Txn} (valid : txn.Valid db)
    (keeps : txn.work.Keeps db.nextRowId txn'.work)
    (fits : ∀ change ∈ txn'.log, change.Fits db.nextRowId txn'.work)
    (base : txn'.baseVersion = txn.baseVersion) (origin : txn'.origin = txn.origin) :
    txn'.Valid db where
  keeps := by
    rw [origin]
    exact valid.keeps.trans keeps
  sound := by
    rw [origin]
    exact valid.sound
  fits := fits
  base := by
    rw [origin, base]
    exact valid.base
  le := by
    rw [base]
    exact valid.le
  unchanged same := by
    rw [origin]
    rw [base] at same
    exact valid.unchanged same

/-- Undoing changes keeps a transaction valid. -/
theorem undo (valid : txn.Valid db) (keep : Nat) : (undo txn keep).Valid db := by
  have keeps : txn.work.Keeps db.nextRowId (MockOracle.undo txn keep).work :=
    undoLoop_keeps _ fun change member =>
      valid.fits change (List.mem_of_mem_drop (List.mem_reverse.mp member))
  refine valid.replaceWork keeps (fun change member => ?_) rfl rfl
  exact (valid.fits change (List.mem_of_mem_take member)).transfer (Nat.le_refl _) keeps.schema

end Txn.Valid

/-- What holds of a session and its database. A transaction without changes is closed. -/
structure World.Valid (w : World) : Prop where
  sound : w.db.state.Sound w.db.nextRowId
  txn : ∀ txn, w.session.txn = some txn → txn.Valid w.db ∧ txn.log ≠ []

/-- The transaction that a DML statement runs in is valid. -/
theorem World.Valid.dmlTxn {w : World} (valid : w.Valid) : w.dmlState.txn.Valid w.db := by
  unfold dmlState
  cases open_ : w.session.txn with
  | none => exact Txn.Valid.start valid.sound
  | some txn => exact (valid.txn txn open_).1

/-- A session's step: the database advances, and the world is valid afterwards. -/
structure World.Moves (w w' : World) : Prop where
  db : w.db.Advances w'.db
  valid : w'.Valid

namespace World.Moves

variable {w w' w'' : World}

/-- Staying is a move. -/
theorem refl (valid : w.Valid) : w.Moves w := ⟨.refl _, valid⟩

/-- Moves add up. -/
theorem trans (first : w.Moves w') (second : w'.Moves w'') : w.Moves w'' :=
  ⟨first.db.trans second.db, second.valid⟩

/-- A step that leaves the transaction alone. -/
theorem of_advances (valid : w.Valid) (db : w.db.Advances w'.db)
    (txn : w'.session.txn = w.session.txn) : w.Moves w' where
  db := db
  valid :=
    { sound := db.sound valid.sound
      txn := fun t open_ => by
        rw [txn] at open_
        exact ⟨(valid.txn t open_).1.advance db, (valid.txn t open_).2⟩ }

/-- A step that ends the transaction. -/
theorem of_closed (valid : w.Valid) (db : w.db.Advances w'.db) (txn : w'.session.txn = none) :
    w.Moves w' where
  db := db
  valid :=
    { sound := db.sound valid.sound
      txn := fun t open_ => by
        rw [txn] at open_
        cases open_ }

end World.Moves

namespace World.Valid

variable {w : World} (valid : w.Valid)

include valid

/-- Evaluations move nothing. -/
theorem setEval (eval : EvalState) : w.Moves (w.setEval eval) :=
  .of_advances valid (.of_same rfl (Nat.le_refl _)) rfl

/-- The world after a statement is valid when its transaction is. -/
theorem afterDml {st : DmlState} {txn : Txn} (draws : w.db.nextRowId ≤ st.nextRowId)
    (holds : txn.Valid (w.afterDml st txn).db) : w.Moves (w.afterDml st txn) := by
  refine ⟨.of_same rfl draws, valid.sound.mono draws, fun t open_ => ?_⟩
  obtain ⟨rfl, some_⟩ := Txn.unlessEmpty_eq_some.mp open_
  exact ⟨holds, some_⟩

/-- The transaction after a statement has run is valid, whatever the outcome. -/
theorem run (ctx : Dml) (stmt : DmlStatement) {st : DmlState}
    (state : (ctx.run stmt w.dmlState).state = st) (txn : Txn) :
    w.db.nextRowId ≤ st.nextRowId ∧ st.txn.Valid (w.afterDml st txn).db := by
  have before := valid.dmlTxn
  obtain ⟨edits, extends_⟩ := run_extends ctx before.work_sound stmt
  rw [state] at extends_
  refine ⟨extends_.draws, ?_⟩
  have advances : w.db.Advances (w.afterDml st txn).db := .of_same rfl extends_.draws
  have keeps := Edit.Run.keeps extends_.grows.run extends_.below
  refine (before.advance advances).replaceWork keeps ?_ extends_.grows.base extends_.grows.origin
  intro change member
  rw [extends_.grows.logged] at member
  rcases List.mem_append.mp member with old | new
  · exact (before.fits change old).transfer extends_.draws keeps.schema
  · exact extends_.grows.run.fits (before.work_sound.mono extends_.draws) extends_.below change new

/-- A DML statement is a move. -/
theorem dml (ev : Evaluator) (binds : List Value) (vars : Option VarLookup) (stmt : DmlStatement) :
    w.Moves (w.dml ev binds vars stmt).2 := by
  unfold World.dml
  split
  · next r st equal =>
      have after := valid.run _ stmt (congrArg DmlResult.state equal) st.txn
      exact valid.afterDml after.1 after.2
  · next e st equal =>
      have after := valid.run _ stmt (congrArg DmlResult.state equal)
        (undo st.txn w.dmlState.txn.log.length)
      exact valid.afterDml after.1 (after.2.undo _)

/-- What a transaction publishes is sound and has a larger version. -/
theorem publish {txn : Txn} {state : Catalog} (open_ : w.session.txn = some txn)
    (success : txn.publish w.session.env.user w.db.state = .ok state) :
    state.Sound w.db.nextRowId ∧ w.db.state.version < state.version := by
  have holds := (valid.txn txn open_).1
  unfold Txn.publish at success
  split at success
  · next same =>
      cases success
      refine ⟨holds.work_sound.of_tables rfl, ?_⟩
      simp only
      omega
  · split at success
    · next next_ replayed =>
        cases success
        have keeps := replay_keeps (fun change member => (holds.fits change member).1) replayed
        exact ⟨(keeps.sound valid.sound).of_tables rfl, Nat.lt_succ_self _⟩
    · cases success

/-- Closing the transaction is a move. -/
theorem closed : w.Moves w.closed := .of_closed valid (.refl _) rfl

/-- COMMIT is a move. -/
theorem commit : w.Moves w.commit.2 := by
  unfold World.commit
  split
  · exact valid.closed
  · next txn open_ =>
      split
      · exact valid.closed
      · split
        · next state success =>
            have published := valid.publish open_ success
            refine .of_closed valid ⟨Nat.le_refl _, Or.inr published.2, fun _ => published.1⟩ rfl
        · exact valid.closed

/-- ROLLBACK TO is a move. -/
theorem rollbackTo (savepoint : Savepoint) :
    w.Moves { w with session := w.session.rollbackTo savepoint } := by
  refine ⟨.refl _, valid.sound, fun t open_ => ?_⟩
  unfold Session.rollbackTo at open_
  simp only at open_
  split at open_
  · exact valid.txn t open_
  · next txn here =>
      obtain ⟨rfl, some_⟩ := Txn.unlessEmpty_eq_some.mp open_
      exact ⟨(valid.txn txn here).1.undo _, some_⟩

/-- What works on the committed state only is a move. -/
theorem of_publishes {w' : World} (publishes : w.Publishes w') : w.Moves w' :=
  .of_advances valid publishes.db publishes.txn

/-- Every statement keeps the world valid. -/
theorem runStatement (ev : Evaluator) (stmt : Statement) (binds : List Value)
    (vars : Option VarLookup) : w.Moves (w.run ev stmt binds vars).2 := by
  have ddl : w.Moves (World.plain (w.commitAndDdl ev binds stmt)).2 := by
    have committed := valid.commit
    unfold World.plain World.commitAndDdl
    split
    · next equal =>
        rw [equal] at committed
        exact committed
    · next w' equal =>
        rw [equal] at committed
        exact committed.trans (committed.valid.of_publishes (World.ddl_publishes ev binds w' stmt))
  cases stmt with
  | query q =>
      simp only [World.run, World.query]
      split <;> exact valid.setEval _
  | insert i => exact valid.dml ev binds vars _
  | update u => exact valid.dml ev binds vars _
  | delete d => exact valid.dml ev binds vars _
  | commit => exact valid.commit
  | rollback => exact valid.closed
  | alterSession name value =>
      simp only [World.run, World.plain, World.alterSession]
      split
      · exact .of_advances valid (.refl _) rfl
      · exact .refl valid
  | _ => exact ddl

omit valid in
/-- Going back to the start of a failed block is a move. -/
theorem settle (savepoint : Savepoint) {result : Except OraError (List Value) × World}
    (moves : w.Moves result.2) : w.Moves (World.settle savepoint result).2 := by
  obtain ⟨outcome, w'⟩ := result
  cases outcome with
  | ok values => exact moves
  | error e => exact moves.trans (moves.valid.rollbackTo savepoint)

/-- What a block asks of its session is a move. -/
theorem runScript (ev : Evaluator) (script : Script) : w.Moves (w.runScript ev script).2 := by
  induction script generalizing w with
  | done result => exact .refl valid
  | evaluate step next ih =>
      simp only [World.runScript]
      have evaluated := valid.setEval (step ⟨w.catalog, [], w.db.state, none⟩ w.evalState)
      exact evaluated.trans (ih _ _ evaluated.valid)
  | execute stmt binds vars next ih =>
      simp only [World.runScript]
      have ran := valid.runStatement ev stmt binds vars
      exact ran.trans (ih _ ran.valid)
  | block inner next ihInner ih =>
      simp only [World.runScript]
      have ran := settle w.session.savepoint (ihInner valid)
      exact ran.trans (ih _ ran.valid)

/-- A block is a move. -/
theorem block (ev : Evaluator) (script : Script) : w.Moves (w.block ev script).2 :=
  settle w.session.savepoint (valid.runScript ev script)

end World.Valid

end MockOracle
