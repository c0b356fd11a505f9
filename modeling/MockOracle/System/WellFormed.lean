import MockOracle.Session.DdlFormed
import MockOracle.System.System
import MockOracle.Eval.Literal

/-!
# Well-formed catalogs in every run

The committed catalog, every session's private one and every snapshot are well formed in
every reachable state. Private catalogs have the schema of the committed catalog they were
cloned from, and both ways to commit change rows only.
-/

namespace MockOracle

open Std Semantics

/-- A formed catalog whose rows have one value for each column. -/
structure Catalog.WellFormed (cat : Catalog) : Prop extends cat.Formed where
  width : ∀ {name t}, cat.table name = some t → ∀ {id : Nat} {row : Row},
    t.rows[id]? = some row → row.length = t.columns.length

namespace Catalog.WellFormed

variable {cat : Catalog} (wellFormed : cat.WellFormed)

include wellFormed

/-- No position in a constraint is beyond the end of a row. -/
theorem inRow {name : String} {t : Table} (found : cat.table name = some t) {c : Constraint}
    (member : c ∈ t.constraints) {i : Nat} (position : i ∈ c.columns) {id : Nat} {row : Row}
    (stored : t.rows[id]? = some row) : i < row.length := by
  rw [wellFormed.width found stored]
  exact (wellFormed.constraints found c member).inRange i position

/-- The tables of a foreign key are there, with the rows long enough for its columns. -/
theorem tables {f : ForeignKeyRef} (foreign : f ∈ cat.foreignKeys) :
    ∃ child parent, cat.table f.child = some child ∧ cat.table f.parent = some parent ∧
      (∀ (id : Nat) (row : Row), child.rows[id]? = some row → ∀ i ∈ f.columns, i < row.length) ∧
      (∀ (id : Nat) (row : Row), parent.rows[id]? = some row →
        ∀ i ∈ f.parentColumns, i < row.length) ∧
      f.columns.length = f.parentColumns.length := by
  obtain ⟨⟨name, t⟩, entry, inner⟩ := List.mem_flatMap.mp foreign
  obtain ⟨c, member, refers⟩ := List.mem_filterMap.mp inner
  have found : cat.table name = some t := ExtTreeMap.mem_toList_iff_getElem?_eq_some.mp entry
  obtain ⟨label, kind, isIndex, enabled⟩ := c
  cases kind with
  | unique columns primary index => cases refers
  | check condition => cases refers
  | index => cases refers
  | foreignKey columns parent positions onDelete =>
      cases refers
      obtain ⟨lengths, p, foundParent, range⟩ :=
        (wellFormed.constraints found _ member).parent parent positions rfl
      refine ⟨t, p, ?_, foundParent, ?_, ?_, lengths⟩
      · rw [wellFormed.named found]
        exact found
      · exact fun id row stored i position => wellFormed.inRow found member position stored
      · intro id row stored i position
        rw [wellFormed.width foundParent stored]
        exact range i position

end Catalog.WellFormed

/-! ## Sessions -/

/-- The committed catalog and the transaction's origin are well formed. -/
structure World.Formed (w : World) : Prop where
  state : w.db.state.Formed
  origin : ∀ txn, w.session.txn = some txn → txn.origin.Formed

namespace World.Formed

variable {w : World} (valid : w.Valid) (formed : w.Formed)

include formed

/-- A step that changes neither the catalog nor the transaction. -/
theorem same {w' : World} (state : w'.db.state = w.db.state)
    (txn : w'.session.txn = w.session.txn) : w'.Formed where
  state := by
    rw [state]
    exact formed.state
  origin t open_ := by
    rw [txn] at open_
    exact formed.origin t open_

/-- Closing the transaction keeps them so. -/
theorem closed : w.closed.Formed :=
  ⟨formed.state, fun _ open_ => by cases open_⟩

/-- The private catalog of a transaction has the schema of its origin. -/
theorem work {db : Database} {txn : Txn} (holds : txn.Valid db)
    (open_ : w.session.txn = some txn) : txn.work.Formed :=
  (formed.origin txn open_).trims
    (.of_schema holds.keeps.schema holds.keeps.sequences holds.keeps.routines)

include valid

/-- COMMIT keeps them so. -/
theorem commit : w.commit.2.Formed := by
  unfold World.commit
  split
  · exact formed.closed
  · next txn open_ =>
      split
      · exact formed.closed
      · split
        · next state success =>
            refine ⟨?_, fun _ open_ => by cases open_⟩
            have holds := (valid.txn txn open_).1
            unfold Txn.publish at success
            split at success
            · cases success
              have work := formed.work holds open_
              exact work.of_tables rfl work.tableOrSequence work.tableOrRoutine
                work.sequenceOrRoutine
            · split at success
              · next replayed_ replayed =>
                  cases success
                  have keeps := replay_keeps (fun change member => (holds.fits change member).1)
                    replayed
                  have after := formed.state.trims
                    (.of_schema keeps.schema keeps.sequences keeps.routines)
                  exact after.of_tables rfl after.tableOrSequence after.tableOrRoutine
                    after.sequenceOrRoutine
              · cases success
        · exact formed.closed

/-- A change of rows keeps them so. -/
theorem dml (ev : Evaluator) (binds : List Value) (vars : Option VarLookup) (stmt : DmlStatement) :
    (w.dml ev binds vars stmt).2.Formed := by
  have started : w.dmlState.txn.origin.Formed := by
    unfold World.dmlState
    cases open_ : w.session.txn with
    | none => exact formed.state
    | some txn => exact formed.origin txn open_
  obtain ⟨edits, extends_⟩ := run_extends ⟨ev, binds, w.db.state, vars⟩ valid.dmlTxn.work_sound stmt
  have after : ∀ {st : DmlState} {txn : Txn}, txn.origin = w.dmlState.txn.origin →
      (w.afterDml st txn).Formed := by
    intro st txn origin
    refine ⟨formed.state, fun t open_ => ?_⟩
    obtain ⟨rfl, -⟩ := Txn.unlessEmpty_eq_some.mp open_
    rw [origin]
    exact started
  unfold World.dml
  split
  · next r st equal =>
      have origin := extends_.grows.origin
      rw [equal] at origin
      exact after origin
  · next e st equal =>
      have origin := extends_.grows.origin
      rw [equal] at origin
      exact after origin

omit valid in
/-- Rolling back to a savepoint keeps them so. -/
theorem rollbackTo (savepoint : Savepoint) :
    World.Formed { w with session := w.session.rollbackTo savepoint } := by
  refine ⟨formed.state, fun t open_ => ?_⟩
  unfold Session.rollbackTo at open_
  simp only at open_
  split at open_
  · exact formed.origin t open_
  · next txn here =>
      obtain ⟨rfl, -⟩ := Txn.unlessEmpty_eq_some.mp open_
      exact formed.origin txn here

omit valid formed in
/-- Every step of a session keeps the catalogs formed. -/
theorem stepwise (ev : Evaluator) : World.Stepwise ev fun w w' => w.Formed → w'.Formed where
  same state _ txn formed := formed.same state txn
  trans first second formed := second (first formed)
  dml valid binds vars stmt formed := formed.dml valid ev binds vars stmt
  commit valid formed := formed.commit valid
  closed _ formed := formed.closed
  rollbackTo _ savepoint formed := formed.rollbackTo savepoint
  ddl _ closed binds stmt formed :=
    { state := World.ddl_formed ev binds formed.state stmt
      origin := fun t open_ => by
        rw [(World.ddl_publishes ev binds _ stmt).txn, closed] at open_
        cases open_ }

end World.Formed

/-! ## Runs -/

namespace System

/-- All the catalogs of the system are well formed. -/
structure Formed (sys : System) : Prop where
  state : sys.db.state.Formed
  origin : ∀ i txn, (sys.sessions i).txn = some txn → txn.origin.Formed
  snapshots : ∀ s ∈ sys.snapshots, s.catalog.Formed

variable {ev : Evaluator} {sys : System}

/-- A new system is well formed. -/
theorem formed_new (envs : Nat → Env) : (new envs).Formed where
  state := Catalog.formed_empty
  origin i txn open_ := by cases open_
  snapshots s member := by cases member

namespace Formed

variable (formed : sys.Formed)

include formed

/-- Each session of a well-formed system is. -/
theorem world (i : Nat) : (sys.world i).Formed := ⟨formed.state, formed.origin i⟩

/-- One session's step leaves the others' transactions alone. -/
theorem put {i : Nat} {w : World} (after : w.Formed) : (sys.put i w).Formed where
  state := after.state
  origin j txn open_ := by
    by_cases same : j = i
    · subst same
      simp only [System.put, Function.update_self] at open_
      exact after.origin txn open_
    · simp only [System.put, Function.update_of_ne same] at open_
      exact formed.origin j txn open_
  snapshots := formed.snapshots

/-- Restoring a snapshot keeps the system well formed. -/
theorem restore {s : Snapshot} (saved : s.catalog.Formed) :
    ({ sys with db := sys.db.restore s } : System).Formed where
  state := saved.of_tables rfl saved.tableOrSequence saved.tableOrRoutine saved.sequenceOrRoutine
  origin := formed.origin
  snapshots := formed.snapshots

/-- Every request keeps the system well formed. -/
theorem act (ev : Evaluator) (valid : sys.Valid) (request : Request) :
    (sys.act ev request).2.Formed := by
  cases request with
  | execute i utc localTime command =>
      refine formed.put (valid.stepwise (World.Formed.stepwise ev) i utc localTime command ?_)
      exact formed.world i
  | commit i => exact formed.put ((formed.world i).commit (valid.world i))
  | rollback i => exact formed.put (formed.world i).closed
  | rollbackTo i savepoint => exact formed.put ((formed.world i).rollbackTo savepoint)
  | connect i env => exact formed.put ⟨formed.state, fun txn open_ => by cases open_⟩
  | snapshot =>
      refine ⟨formed.state, formed.origin, fun s member => ?_⟩
      rcases List.mem_append.mp member with old | new
      · exact formed.snapshots s old
      · rw [List.mem_singleton.mp new]
        exact formed.state
  | restore position =>
      simp only [System.act]
      split
      · exact formed
      · next s found => exact formed.restore (formed.snapshots s (List.mem_of_getElem? found))
  | reset => exact formed.restore Catalog.formed_empty

end Formed

/-- In every reachable state every catalog is formed. -/
theorem Reachable.formed (reachable : Reachable ev sys) : sys.Formed := by
  obtain ⟨envs, events, run⟩ := reachable
  have both : sys.Valid ∧ sys.Formed := by
    apply run.preserves
    · intro sys event sys' holds step
      have after := holds.2.act ev holds.1 event.1
      rw [step] at after
      exact ⟨Step.valid step holds.1, after⟩
    · exact ⟨valid_new envs, formed_new envs⟩
  exact both.2

/-- The catalogs of a system: the committed one, the private ones of open transactions, and
those of snapshots. -/
inductive Holds (sys : System) : Catalog → Prop where
  | committed : Holds sys sys.db.state
  | work {i : Nat} {txn : Txn} (open_ : (sys.sessions i).txn = some txn) : Holds sys txn.work
  | snapshot {s : Snapshot} (member : s ∈ sys.snapshots) : Holds sys s.catalog

/-- In every reachable state every catalog is well formed, so that no position in a constraint
is beyond the end of a row, and the tables of every foreign key are there. -/
theorem catalogs_well_formed (reachable : Reachable ev sys) {cat : Catalog}
    (holds : sys.Holds cat) :
    cat.WellFormed ∧
      (∀ name t c i (id : Nat) (row : Row), cat.table name = some t → c ∈ t.constraints →
        i ∈ c.columns → t.rows[id]? = some row → i < row.length) ∧
      ∀ f ∈ cat.foreignKeys, ∃ child parent, cat.table f.child = some child ∧
        cat.table f.parent = some parent ∧
        (∀ (id : Nat) (row : Row), child.rows[id]? = some row → ∀ i ∈ f.columns, i < row.length) ∧
        (∀ (id : Nat) (row : Row), parent.rows[id]? = some row →
          ∀ i ∈ f.parentColumns, i < row.length) ∧
        f.columns.length = f.parentColumns.length := by
  have valid := reachable.valid
  have formed := reachable.formed
  have wellFormed : cat.WellFormed := by
    cases holds with
    | committed => exact ⟨formed.state, fun found => (valid.sound _ _ found).width⟩
    | @work i txn open_ =>
        have holds := (valid.txn i txn open_).1
        exact ⟨(formed.world i).work holds open_, fun found => (holds.work_sound _ _ found).width⟩
    | @snapshot s member =>
        exact ⟨formed.snapshots s member, fun found => (valid.snapshots s member _ _ found).width⟩
  refine ⟨wellFormed, ?_, fun f foreign => wellFormed.tables foreign⟩
  exact fun name t c i id row found member position stored =>
    wellFormed.inRow found member position stored

/-- A parent and a child table, after the parent was dropped and created again and a sequence
could not take its name. -/
def reparented : System :=
  let parent := Literal.createTable "P" ["ID"] [Literal.primaryKey "P_PK" "ID"]
  (new fun _ => Literal.env "SCOTT").runAll literalEvaluator
    [.sql 0 parent,
      .sql 0 (Literal.createTable "C" ["P"] [Literal.references "C_FK" "P" "P" .restrict]),
      .sql 0 (.dropTable "P" true), .sql 0 parent, .sql 0 (.createSequence "P" []),
      .sql 0 (.alterTable "C" (.addConstraints [Literal.references "C_FK" "P" "P" .cascade])),
      .sql 1 (Literal.insert "P" [.ofInt 1]), .sql 1 (Literal.insert "C" [.ofInt 1])]

/-- The foreign key dropped with the first parent was declared again on the second, and both
its tables are there. -/
theorem catalogs_well_formed_reparented :
    reparented.db.state.WellFormed ∧ reparented.db.state.foreignKeys.length = 1 ∧
      ∀ f ∈ reparented.db.state.foreignKeys, ∃ parent,
        reparented.db.state.table f.parent = some parent := by
  obtain ⟨wellFormed, -, tables⟩ :=
    catalogs_well_formed (reachable_runAll literalEvaluator _ _ : Reachable _ reparented) .committed
  refine ⟨wellFormed, by decide +kernel, fun f foreign => ?_⟩
  obtain ⟨_, parent, -, found, -⟩ := tables f foreign
  exact ⟨parent, found⟩

end System

end MockOracle
