import MockOracle.Session.Dml
import MockOracle.Session.Undo

/-!
# Sessions: DML statements, savepoints and COMMIT

A session runs against a database that it shares with others. The two together are a
`World`; what other sessions do meanwhile is left to the module on whole systems. A DML
statement opens a transaction if there is none, runs, has the foreign keys enforced, and
undoes its own changes if any of this fails.
-/

namespace MockOracle

open Std Semantics

/-! ## The code -/

/-- One in-memory database, shared by its sessions. -/
structure Database where
  state : Catalog
  nextRowId : Nat
  nextConstraint : Nat
  /-- Next value of each table's identity column. -/
  identities : ExtTreeMap String Int
  /-- The next value NEXTVAL returns for each sequence. -/
  sequences : ExtTreeMap String Int

/-- A database without tables. -/
def Database.new : Database := ⟨.empty, 1, 10000, ∅, ∅⟩

/-- A connection's view of a database. -/
structure Session where
  env : Env
  txn : Option Txn
  /-- Counts commits and rollbacks, so a failed block knows whether it may undo changes
  made before it. -/
  commits : Nat

/-- A point in a session's transaction that later changes can be undone to. -/
structure Savepoint where
  commits : Nat
  changes : Nat
  deriving DecidableEq, Repr

/-- A session and its database. -/
structure World where
  db : Database
  session : Session

/-- The statements that change rows. -/
inductive DmlStatement where
  | insert (i : Insert)
  | update (u : Update)
  | delete (d : Delete)

/-- Running a statement that changes rows. -/
def Dml.statement (ctx : Dml) (stmt : DmlStatement) (st : DmlState) : DmlResult :=
  match stmt with
  | .insert i => ctx.insert i st
  | .update u => ctx.update u st
  | .delete d => ctx.delete d st

/-- A statement followed by the enforcement of the foreign keys. -/
def Dml.run (ctx : Dml) (stmt : DmlStatement) (st : DmlState) : DmlResult :=
  match ctx.statement stmt st with
  | .error e after => .error e after
  | .ok r after =>
      match enforceForeignKeys after.eval.env.user st.txn.log.length after.txn with
      | (.ok _, txn) => .ok r { after with txn }
      | (.error e, txn) => .error e { after with txn }

/-- Without changes there is no transaction, so later queries see other sessions' commits. -/
def Txn.unlessEmpty (txn : Txn) : Option Txn := if txn.log.isEmpty then none else some txn

namespace World

/-- The state this session sees: its transaction's, or the committed state. -/
def catalog (w : World) : Catalog :=
  match w.session.txn with
  | some txn => txn.work
  | none => w.db.state

/-- What evaluation may change in this world. -/
def evalState (w : World) : EvalState := ⟨w.db.sequences, w.db.identities, w.session.env⟩

/-- The state a DML statement starts in; it opens a transaction if there is none. -/
def dmlState (w : World) : DmlState :=
  ⟨w.evalState, w.db.nextRowId, w.session.txn.getD (.start w.db.state)⟩

/-- The world after a DML statement. -/
def afterDml (w : World) (st : DmlState) (txn : Txn) : World where
  db := { w.db with
    nextRowId := st.nextRowId
    identities := st.eval.identities
    sequences := st.eval.sequences }
  session := { w.session with
    env := st.eval.env
    txn := txn.unlessEmpty }

/-- Run INSERT, UPDATE or DELETE. A failing statement undoes only its own changes. -/
def dml (ev : Evaluator) (binds : List Value) (vars : Option VarLookup) (stmt : DmlStatement)
    (w : World) : Except OraError (Nat × List Row) × World :=
  match (Dml.mk ev binds w.db.state vars).run stmt w.dmlState with
  | .ok r st => (.ok r, w.afterDml st st.txn)
  | .error e st => (.error e, w.afterDml st (undo st.txn w.dmlState.txn.log.length))

end World

/-- Replay one change onto a catalog. Rows for a table that is gone or has another number
of columns are skipped. -/
def replayChange (user : String) (cat : Catalog) : Change → Except OraError Catalog
  | .insert table id values =>
      match cat.table table with
      | none => .ok cat
      | some t =>
          if t.columns.length = values.length then
            match t.insert id values with
            | (.ok _, t) => .ok (cat.setTable table t)
            | (.error c, _) => .error (uniqueViolation user c)
          else .ok cat
  | .update table id values _ =>
      match cat.table table with
      | none => .ok cat
      | some t =>
          if t.columns.length = values.length then
            match t.update [(id, values)] with
            | (.ok _, t) => .ok (cat.setTable table t)
            | (.error c, _) => .error (uniqueViolation user c)
          else .ok cat
  | .delete table id _ => .ok (cat.modifyTable table fun t => (t.delete id).2)

/-- Replay a log, entry by entry. -/
def replay (user : String) : List Change → Catalog → Except OraError Catalog
  | [], cat => .ok cat
  | change :: rest, cat =>
      match replayChange user cat change with
      | .ok cat => replay user rest cat
      | .error e => .error e

/-- The catalog a transaction publishes over the committed one. -/
def Txn.publish (user : String) (txn : Txn) (state : Catalog) : Except OraError Catalog :=
  if state.version = txn.baseVersion then .ok { txn.work with version := txn.baseVersion + 1 }
  else
    match replay user txn.log state with
    | .ok next => .ok { next with version := state.version + 1 }
    | .error e => .error e

namespace World

/-- The world without the session's transaction, after a commit or a rollback. -/
def closed (w : World) : World :=
  { w with session := { w.session with txn := none, commits := w.session.commits + 1 } }

/-- COMMIT. If nobody else committed, the transaction's catalog becomes the committed one;
otherwise its log is replayed. The transaction ends also when that fails. -/
def commit (w : World) : Except OraError Unit × World :=
  match w.session.txn with
  | none => (.ok (), w.closed)
  | some txn =>
      if txn.log.isEmpty then (.ok (), w.closed)
      else
        match txn.publish w.session.env.user w.db.state with
        | .ok state => (.ok (), { w.closed with db := { w.db with state } })
        | .error e => (.error e, w.closed)

/-- ROLLBACK drops the transaction. -/
def rollback (w : World) : World := w.closed

end World

namespace Session

/-- A savepoint of the session: its commits and the length of its log. -/
def savepoint (s : Session) : Savepoint :=
  ⟨s.commits, (s.txn.map fun txn => txn.log.length).getD 0⟩

/-- How many changes of the current transaction are older than a savepoint. Changes
committed since then stay; all those after the last commit are newer. -/
def keep (s : Session) (savepoint : Savepoint) : Nat :=
  if s.commits = savepoint.commits then savepoint.changes else 0

/-- Undo the uncommitted changes made since `savepoint`. -/
def rollbackTo (s : Session) (savepoint : Savepoint) : Session :=
  match s.txn with
  | none => s
  | some txn =>
      { s with txn := (undo txn (min (s.keep savepoint) txn.log.length)).unlessEmpty }

end Session

/-! ## What a statement does to the transaction -/

/-- A transaction is kept if its log is not empty. -/
theorem Txn.unlessEmpty_eq_some {txn txn' : Txn} :
    txn.unlessEmpty = some txn' ↔ txn = txn' ∧ txn.log ≠ [] := by
  unfold unlessEmpty
  split
  · next none => simp [List.isEmpty_iff.mp none]
  · next some_ => simpa using fun _ => some_

/-- A statement, whatever its outcome, grows the transaction by logged edits and draws row
ids. -/
structure DmlState.Extends (st st' : DmlState) (edits : List Edit) : Prop where
  grows : st.txn.Grows edits st'.txn
  draws : st.nextRowId ≤ st'.nextRowId
  below : Edit.Below st'.nextRowId edits

/-- The state a DML result carries. -/
def DmlResult.state : DmlResult → DmlState
  | .ok _ st => st
  | .error _ st => st

variable {ctx : Dml} {st : DmlState}

/-- Edits run from a sound catalog insert below the bound. -/
theorem Edit.Run.below {cat cat' : Catalog} {edits : List Edit} {bound : Nat}
    (run : Edit.Run cat edits cat') (sound : cat.Sound bound)
    (inserts : ∀ table id values, Edit.insert table id values ∈ edits → id < bound) :
    Edit.Below bound edits := by
  induction run with
  | nil => simp [Edit.Below]
  | @cons first edit second rest last head tail ih =>
      have belowHead : ∀ change ∈ edit.entries, change.id < bound := by
        intro change member
        cases head with
        | insert found fresh width success =>
            cases List.mem_singleton.mp member
            exact inserts _ _ _ List.mem_cons_self
        | delete found stored =>
            cases List.mem_singleton.mp member
            exact (sound _ _ found).below stored
        | update found replaces =>
            obtain ⟨r, memberR, rfl⟩ := List.mem_map.mp member
            exact (sound _ _ found).below (replaces.stored r memberR)
      intro change member
      rcases List.mem_append.mp member with here | later
      · exact belowHead change here
      · exact ih (head.sound sound belowHead)
          (fun table id values among => inserts table id values (List.mem_cons_of_mem _ among))
          change later

/-- A statement that changes no row. -/
theorem DmlState.Extends.of_same {st' : DmlState} (txn : st'.txn = st.txn)
    (next : st'.nextRowId = st.nextRowId) : st.Extends st' [] :=
  ⟨txn ▸ .refl _, next.ge, by simp [Edit.Below]⟩

/-- The rows that an INSERT or UPDATE evaluates to, with the table they are for. -/
def Dml.Writes (ctx : Dml) (stmt : DmlStatement) (st : DmlState) (table : String) (row : Row) :
    Prop :=
  match stmt with
  | .insert ins => table = ins.table ∧ ∃ t rows returned eval,
      st.txn.work.table ins.table = some t ∧
      evalInsert ctx (ctx.ex st.txn.work) t ins st.eval = .ok (rows, returned) eval ∧ row ∈ rows
  | .update upd => table = upd.table ∧ ∃ t changes returned eval,
      st.txn.work.table upd.table = some t ∧
      evalUpdate ctx (ctx.ex st.txn.work) t upd st.eval = .ok (changes, returned) eval ∧
      ∃ r ∈ changes, row = r.values
  | .delete _ => False

/-- INSERT adds rows it evaluates to. -/
theorem insert_extends (sound : st.txn.work.Sound st.nextRowId) (ins : Insert) :
    ∃ inserted : List (Nat × Row),
      st.Extends (ctx.insert ins st).state
        (inserted.map fun row => .insert ins.table row.1 row.2) ∧
      ∀ row ∈ inserted, ctx.Writes (.insert ins) st ins.table row.2 := by
  unfold Dml.insert
  split
  · exact ⟨[], .of_same rfl rfl, by simp⟩
  · next t found =>
      split
      · exact ⟨[], .of_same rfl rfl, by simp⟩
      · next rows returned eval evaluated =>
          have spec := evalInsert_ok evaluated
          obtain ⟨inserted, grows, le, ids, part, _⟩ := Txn.insertRows_grows eval.env.user found
            (sound _ _ found) fun row member => (spec row member).1
          have below : Edit.Below
              (st.txn.insertRows eval.env.user ins.table rows st.nextRowId).2.1
              (inserted.map fun row => Edit.insert ins.table row.1 row.2) := by
            intro change member
            simp only [Edit.log, List.flatMap_map, List.mem_flatMap] at member
            obtain ⟨row, among, entry⟩ := member
            cases List.mem_singleton.mp entry
            exact (ids row among).2
          refine ⟨inserted, ?_, ?_⟩
          · split
            · next equal =>
                rw [equal] at grows le below
                exact ⟨grows, le, below⟩
            · next equal =>
                rw [equal] at grows le below
                exact ⟨grows, le, below⟩
          · intro row member
            exact ⟨rfl, t, rows, returned, eval, found, evaluated,
              part.subset (List.mem_map_of_mem member)⟩

/-- UPDATE replaces rows by rows it evaluates to. -/
theorem update_extends (sound : st.txn.work.Sound st.nextRowId) (upd : Update) :
    ∃ changes : List RowChange,
      st.Extends (ctx.update upd st).state (Txn.replacing upd.table changes) ∧
      ∀ r ∈ changes, ctx.Writes (.update upd) st upd.table r.values := by
  unfold Dml.update
  split
  · exact ⟨[], .of_same rfl rfl, by simp⟩
  · next t found =>
      split
      · exact ⟨[], .of_same rfl rfl, by simp⟩
      · next changes returned eval evaluated =>
          obtain ⟨distinct, spec⟩ := evalUpdate_ok evaluated
          rcases Txn.updateRows_spec eval.env.user found (sound _ _ found).covers distinct
            (fun r member => (spec r member).1) (fun r member => (spec r member).2.1) with
            ⟨success, grows⟩ | ⟨e, failed⟩
          · refine ⟨changes, ?_, fun r member => ?_⟩
            · split
              · next equal =>
                  rw [equal] at success
                  cases success
              · next txn equal =>
                  rw [equal] at grows
                  exact ⟨grows, Nat.le_refl _, Edit.Run.below grows.run sound fun _ _ _ member => by
                    unfold Txn.replacing at member
                    split at member <;> simp at member⟩
            · exact ⟨rfl, t, changes, returned, eval, found, evaluated, r, member, rfl⟩
          · rw [failed]
            exact ⟨[], .of_same rfl rfl, by simp⟩

/-- The rows that the WHERE clause of a DELETE selects. -/
def Dml.Selects (ctx : Dml) (del : Delete) (st : DmlState) (a : Address) : Prop :=
  ∃ t rows returned eval, st.txn.work.table del.table = some t ∧
    evalDelete ctx (ctx.ex st.txn.work) t del st.eval = .ok (rows, returned) eval ∧
    ∃ row ∈ rows, a = (del.table, row.1)

/-- DELETE removes the rows it selects. -/
theorem delete_extends (sound : st.txn.work.Sound st.nextRowId) (del : Delete) :
    ∃ rows : List (Nat × Row),
      st.Extends (ctx.delete del st).state
        (rows.map fun row => .delete del.table row.1 row.2) ∧
      ∀ row ∈ rows, ctx.Selects del st (del.table, row.1) := by
  unfold Dml.delete
  split
  · exact ⟨[], .of_same rfl rfl, by simp⟩
  · next t found =>
      split
      · exact ⟨[], .of_same rfl rfl, by simp⟩
      · next rows returned eval evaluated =>
          obtain ⟨distinct, stored⟩ := evalDelete_ok evaluated
          have grows := Txn.deleteRows_grows found distinct stored
          refine ⟨rows, ⟨grows, Nat.le_refl _, ?_⟩, fun row member => ?_⟩
          · exact Edit.Run.below grows.run sound fun _ _ _ member => by simp at member
          · exact ⟨t, rows, returned, eval, found, evaluated, row, member, rfl⟩

/-- A statement extends the transaction by its edits. -/
theorem statement_extends (ctx : Dml) (sound : st.txn.work.Sound st.nextRowId) (stmt : DmlStatement) :
    ∃ edits, st.Extends (ctx.statement stmt st).state edits := by
  cases stmt with
  | insert ins =>
      obtain ⟨_, extends_, _⟩ := insert_extends sound ins
      exact ⟨_, extends_⟩
  | update upd =>
      obtain ⟨_, extends_, _⟩ := update_extends sound upd
      exact ⟨_, extends_⟩
  | delete del =>
      obtain ⟨_, extends_, _⟩ := delete_extends sound del
      exact ⟨_, extends_⟩

namespace DmlState.Extends

variable {st' : DmlState} {edits : List Edit}

/-- A state that is extended stays sound. -/
theorem sound (extends_ : st.Extends st' edits) (sound : st.txn.work.Sound st.nextRowId) :
    st'.txn.work.Sound st'.nextRowId :=
  Edit.Run.sound extends_.grows.run (sound.mono extends_.draws) extends_.below

end DmlState.Extends

/-- The indexes of a sound catalog cover its rows. -/
theorem Catalog.Sound.covers {cat : Catalog} {bound : Nat} (sound : cat.Sound bound) :
    cat.Covers := fun name t found => (sound name t found).covers

/-- The enforcement of foreign keys inserts no rows. -/
theorem Turn.insertFree (turn : Turn) (table : String) (id : Nat) (values : Row) :
    Edit.insert table id values ∉ turn.edits := by
  intro member
  unfold Turn.edits at member
  split at member
  · cases member
  · simp at member
  · unfold Txn.replacing at member
    split at member <;> simp at member

/-- The rounds of the foreign keys grow the transaction. -/
theorem CascadeRun.extends {fks : List ForeignKeyRef} {turns : List Turn} {start bound : Nat}
    {txn txn' : Txn} (run : CascadeRun fks start txn turns txn') (sound : txn.work.Sound bound) :
    ∃ edits, txn.Grows edits txn' ∧ Edit.Below bound edits := by
  refine ⟨_, run.grows, Edit.Run.below run.grows.run sound fun table id values member => ?_⟩
  obtain ⟨turn, -, among⟩ := List.mem_flatMap.mp member
  exact absurd among (turn.insertFree table id values)

/-- A statement and the enforcement after it, whatever their outcome, grow the transaction
by logged edits. -/
theorem run_extends (ctx : Dml) (sound : st.txn.work.Sound st.nextRowId) (stmt : DmlStatement) :
    ∃ edits, st.Extends (ctx.run stmt st).state edits := by
  obtain ⟨edits, first⟩ := statement_extends ctx sound stmt
  unfold Dml.run
  cases outcome : ctx.statement stmt st with
  | error e after =>
      rw [outcome] at first
      exact ⟨edits, first⟩
  | ok r after =>
      rw [outcome] at first
      have soundAfter : after.txn.work.Sound after.nextRowId := first.sound sound
      have cascades :=
        enforceForeignKeys_run after.eval.env.user st.txn.log.length soundAfter.covers
      obtain ⟨more, grows, below⟩ := cascades.extends soundAfter
      have together : st.Extends { after with
          txn := (enforceForeignKeys after.eval.env.user st.txn.log.length after.txn).2 }
          (edits ++ more) := by
        refine ⟨first.grows.trans grows, first.draws, fun change member => ?_⟩
        rw [Edit.log_append] at member
        rcases List.mem_append.mp member with here | later
        · exact first.below change here
        · exact below change later
      refine ⟨edits ++ more, ?_⟩
      simp only
      split
      · next equal =>
          rw [equal] at together
          exact together
      · next equal =>
          rw [equal] at together
          exact together

end MockOracle
