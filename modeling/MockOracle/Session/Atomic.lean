import MockOracle.Session.Cascade
import MockOracle.Session.Savepoint
import MockOracle.Semantics.Stretches

/-!
# Failing statements leave no trace

A DML statement that fails undoes the entries it has logged. INSERT and UPDATE change no
row twice and cascade nothing, so they are always undone exactly. A DELETE is, unless two turns
of its enforcement, with nothing of another table in between, set a row to NULL that has a unique
key when the second one finds it.
-/

namespace MockOracle

open Std Semantics

/-- A log without updates is undo-safe. -/
theorem UndoSafe.of_no_updates {cat : Catalog} {log : List Change}
    (none : ∀ table r, RowChange.entry table r ∉ log) : UndoSafe cat log := by
  intro table t found rows stretch
  cases rows with
  | nil => exact .nil
  | cons r rest => exact absurd (stretch.subset List.mem_cons_self) (none table r)

/-! ## Rows that are set to NULL twice -/

/-- Where two turns set a row of one table to NULL and log nothing of another table in between,
the row has no unique key left when the second turn finds it. -/
def NullsOnce (turns : List Turn) : Prop :=
  ∀ before first between second after, turns = before ++ first :: (between ++ second :: after) →
    first.key.onDelete = .setNull → second.key.onDelete = .setNull →
    second.key.child = first.key.child →
    (∀ turn ∈ between, turn.hits = [] ∨
      turn.key.onDelete = .setNull ∧ turn.key.child = first.key.child) →
    ∀ row ∈ second.hits, row.1 ∈ first.hits.map Prod.fst →
      ∀ t, second.txn.work.table first.key.child = some t → ∀ c ∈ t.constraints, c.key row.2 = none

namespace CascadeRun

variable {fks : List ForeignKeyRef} {start : Nat} {txn txn' : Txn} {turns : List Turn}

/-- A run as it was before one of its turns, that turn, and the run after it. -/
theorem at_turn {before after : List Turn} {turn : Turn}
    (run : CascadeRun fks start txn (before ++ turn :: after) txn') :
    ∃ next, CascadeRun fks start txn before turn.txn ∧ CascadeStep fks start turn.txn turn next ∧
      CascadeRun fks start next after txn' := by
  obtain ⟨middle, first, rest⟩ := Steps.split run
  cases rest with
  | cons head tail =>
      have found := head.found
      subst found
      exact ⟨_, first, head, tail⟩

theorem step_of_mem (run : CascadeRun fks start txn turns txn') {turn : Turn} (member : turn ∈ turns) :
    ∃ next, CascadeStep fks start turn.txn turn next ∧ turn.txn.work.schema = txn.work.schema := by
  obtain ⟨before, after, rfl⟩ := List.append_of_mem member
  obtain ⟨next, first, step, -⟩ := run.at_turn
  exact ⟨next, step, first.grows.schema⟩

end CascadeRun

namespace Turn

variable {turn : Turn} {table : String}

/-- An update that a turn logs sets a row to NULL. -/
theorem setsNull {r : RowChange} (member : RowChange.entry table r ∈ Edit.log turn.edits) :
    turn.key.onDelete = .setNull ∧ turn.key.child = table ∧
      ∃ row ∈ turn.hits, r = turn.key.nulling row := by
  cases action : turn.key.onDelete with
  | restrict => simp [Turn.edits, action] at member
  | cascade =>
      rw [Turn.log_edits_cascade action] at member
      obtain ⟨row, -, entry⟩ := List.mem_map.mp member
      cases entry
  | setNull =>
      rw [Turn.log_edits_setNull action] at member
      obtain ⟨row, hit, entry⟩ := List.mem_map.mp member
      obtain ⟨id, values, old⟩ := r
      simp only [RowChange.entry, Change.update.injEq] at entry
      obtain ⟨rfl, rfl, rfl, rfl⟩ := entry
      exact ⟨rfl, rfl, row, hit, rfl⟩

/-- The rows of one turn differ. -/
theorem nodup_log : ((Edit.log turn.edits).map Change.address).Nodup := by
  have distinct : (turn.hits.map fun row => (turn.key.child, row.1)).Nodup := by
    have numbers : (turn.hits.map Prod.fst).Nodup := ForeignKeyRef.nodup_hits
    exact List.pairwise_map.mpr ((List.pairwise_map.mp numbers).imp
      fun different same => different (Prod.mk.inj same).2)
  cases action : turn.key.onDelete with
  | restrict => simp [edits, action]
  | cascade =>
      rw [log_edits_cascade action, List.map_map]
      exact distinct
  | setNull =>
      rw [log_edits_setNull action, List.map_map]
      exact distinct

end Turn

/-- If no row is set to NULL twice while it has a key, what the turns have logged after entries
that update nothing can be reverted exactly. -/
theorem CascadeRun.undoSafe {fks : List ForeignKeyRef} {start : Nat} {txn txn' : Txn}
    {turns : List Turn} (run : CascadeRun fks start txn turns txn') (once : NullsOnce turns)
    {early : List Change} (plain : ∀ table r, RowChange.entry table r ∉ early) :
    UndoSafe txn'.work (early ++ Edit.log (turns.flatMap Turn.edits)) := by
  intro table t found rows stretch
  have apart : ∀ change ∈ rows.map (RowChange.entry table), change ∉ early := by
    intro change member
    obtain ⟨r, -, rfl⟩ := List.mem_map.mp member
    exact plain table r
  -- The stretch starts after the early entries.
  have inside : rows.map (RowChange.entry table) <:+: turns.flatMap fun turn => Edit.log turn.edits := by
    have log : Edit.log (turns.flatMap Turn.edits) = turns.flatMap fun turn => Edit.log turn.edits :=
      List.flatMap_assoc
    rw [log, List.infix_append_iff] at stretch
    rcases stretch with inEarly | inTurns | ⟨head, tail, split, end_, front⟩
    · rw [List.eq_nil_iff_forall_not_mem.mpr fun change member =>
        apart change member (inEarly.subset member)]
      exact List.nil_infix
    · exact inTurns
    · have none_ : head = [] := List.eq_nil_iff_forall_not_mem.mpr fun change member =>
        apart change (split ▸ List.mem_append_left _ member) (end_.subset member)
      rw [split, none_, List.nil_append]
      exact front.isInfix
  have pairs : (rows.map (RowChange.entry table)).Pairwise fun change later =>
      change.address = later.address → ∀ old, later.old = some old →
        ∀ c ∈ t.constraints, c.key old = none := by
    refine pairwise_of_stretch inside (fun turn _ => ?_) ?_
    · exact (List.pairwise_map.mp turn.nodup_log).imp fun different same => absurd same different
    · intro before first between second after split full x inFirst y inSecond memberX memberY
      obtain ⟨r, -, rfl⟩ := List.mem_map.mp memberX
      obtain ⟨later, -, rfl⟩ := List.mem_map.mp memberY
      obtain ⟨actionFirst, childFirst, row, hit, rfl⟩ := Turn.setsNull inFirst
      obtain ⟨actionSecond, childSecond, row', hit', rfl⟩ := Turn.setsNull inSecond
      intro same old replaced
      cases replaced
      have id : row.1 = row'.1 := congrArg Prod.snd same
      have memberSecond : second ∈ turns := by simp [split]
      obtain ⟨next, step, schema⟩ := run.step_of_mem memberSecond
      obtain ⟨u, foundU, sameSchema⟩ :=
        Catalog.table_of_schema (schema.trans run.grows.schema.symm) found
      refine (Table.forall_key_iff sameSchema fun key => key row'.2 = none).mp
        (once before first between second after split actionFirst actionSecond
          (childSecond.trans childFirst.symm) (fun inner among => ?_) row' hit'
          (id ▸ List.mem_map_of_mem hit) u (childFirst.symm ▸ foundU))
      by_cases none_ : inner.hits = []
      · exact Or.inl none_
      · refine Or.inr ?_
        have memberTurn : inner ∈ turns := by simp [split, among]
        obtain ⟨next, step, -⟩ := run.step_of_mem memberTurn
        obtain ⟨hitInner, memberInner⟩ := List.exists_mem_of_ne_nil _ none_
        obtain ⟨change, logged, -⟩ :=
          List.mem_map.mp (step.touches_iff.mp (Turn.touches_of_hit memberInner))
        obtain ⟨r, -, rfl⟩ := List.mem_map.mp (full inner among logged)
        obtain ⟨action, child, -⟩ := Turn.setsNull logged
        exact ⟨action, child.trans childFirst.symm⟩
  exact (List.pairwise_map.mp pairs).imp fun imposes same =>
    imposes (congrArg (Prod.mk table) same) _ rfl

section Statements

variable {ctx : Dml} {st st' : DmlState}

/-- What a statement has logged can be reverted exactly. -/
theorem statement_undoSafe (ctx : Dml) (sound : st.txn.work.Sound st.nextRowId)
    (stmt : DmlStatement) (cat : Catalog) :
    ∃ edits, st.Extends (ctx.statement stmt st).state edits ∧ UndoSafe cat (Edit.log edits) ∧
      (¬ HasDelete (Edit.log edits) ∨ ∀ table r, RowChange.entry table r ∉ Edit.log edits) := by
  cases stmt with
  | insert ins =>
      obtain ⟨inserted, extends_, _⟩ := insert_extends sound ins
      refine ⟨_, extends_, .of_no_updates fun table r member => ?_, Or.inl fun deletes => ?_⟩
      · simp only [Edit.log, List.flatMap_map, List.mem_flatMap] at member
        obtain ⟨row, _, entry⟩ := member
        cases List.mem_singleton.mp entry
      · obtain ⟨table, id, old, member⟩ := deletes
        simp only [Edit.log, List.flatMap_map, List.mem_flatMap] at member
        obtain ⟨row, _, entry⟩ := member
        cases List.mem_singleton.mp entry
  | update upd =>
      obtain ⟨changes, extends_, _⟩ := update_extends sound upd
      refine ⟨_, extends_, .of_nodup (Txn.nodup_replacing extends_.grows.run),
        Or.inl fun deletes => ?_⟩
      obtain ⟨table, id, old, member⟩ := deletes
      rw [Txn.log_replacing] at member
      obtain ⟨r, _, entry⟩ := List.mem_map.mp member
      cases entry
  | delete del =>
      obtain ⟨rows, extends_, _⟩ := delete_extends sound del
      have plain : ∀ table r, RowChange.entry table r ∉
          Edit.log (rows.map fun row => .delete del.table row.1 row.2) := by
        intro table r member
        simp only [Edit.log, List.flatMap_map, List.mem_flatMap] at member
        obtain ⟨row, _, entry⟩ := member
        cases List.mem_singleton.mp entry
      exact ⟨_, extends_, .of_no_updates plain, Or.inr plain⟩

/-- The turns of the enforcement after a statement, up to the first that is refused; none if the
statement itself fails. -/
def Dml.turns (ctx : Dml) (stmt : DmlStatement) (st : DmlState) : List Turn :=
  match ctx.statement stmt st with
  | .ok _ after => enforcementTurns after.eval.env.user st.txn.log.length after.txn
  | .error _ _ => []

/-- What a failing statement and the enforcement after it have logged can be reverted
exactly, unless a row with a unique key is set to NULL twice. -/
theorem run_undoSafe (sound : st.txn.work.Sound st.nextRowId) {stmt : DmlStatement} {e : OraError}
    (once : NullsOnce (ctx.turns stmt st)) (failed : ctx.run stmt st = .error e st') :
    UndoSafe st'.txn.work (st'.txn.log.drop st.txn.log.length) := by
  obtain ⟨edits, extends_, safe, kind⟩ :=
    statement_undoSafe ctx sound stmt (ctx.statement stmt st).state.txn.work
  have logged : (ctx.statement stmt st).state.txn.log = st.txn.log ++ Edit.log edits :=
    extends_.grows.logged
  unfold Dml.run at failed
  unfold Dml.turns at once
  cases outcome : ctx.statement stmt st with
  | error e' after =>
      rw [outcome] at failed safe logged
      cases failed
      rw [show st'.txn.log = st.txn.log ++ Edit.log edits from logged, List.drop_left]
      exact safe
  | ok r after =>
      rw [outcome] at failed safe logged extends_ once
      have soundAfter : after.txn.work.Sound after.nextRowId := extends_.sound sound
      have run := enforceForeignKeys_run after.eval.env.user st.txn.log.length soundAfter.covers
      have final : (enforceForeignKeys after.eval.env.user st.txn.log.length after.txn).2 =
          st'.txn := by
        simp only at failed
        split at failed
        · cases failed
        · next txn equal =>
            cases failed
            rw [equal]
      rw [final] at run
      have whole : st'.txn.log.drop st.txn.log.length = Edit.log edits ++
          Edit.log ((enforcementTurns after.eval.env.user st.txn.log.length after.txn).flatMap
            Turn.edits) := by
        rw [run.grows.logged, show after.txn.log = st.txn.log ++ Edit.log edits from logged,
          List.append_assoc, List.drop_left]
      rcases kind with cascadeless | plain
      · have none_ : ¬ HasDelete (after.txn.log.drop st.txn.log.length) := by
          rw [show after.txn.log = st.txn.log ++ Edit.log edits from logged, List.drop_left]
          exact cascadeless
        obtain ⟨work, log, -⟩ := run.of_no_deletes none_
        rw [work, log, show after.txn.log = st.txn.log ++ Edit.log edits from logged, List.drop_left]
        exact safe
      · rw [whole]
        exact run.undoSafe once plain

end Statements

namespace World

/-- The condition under which a statement that fails is undone exactly: before it fails, its
enforcement sets no row to NULL twice that has a unique key in between. -/
def NullsOnce (ev : Evaluator) (binds : List Value) (vars : Option VarLookup)
    (stmt : DmlStatement) (w : World) : Prop :=
  MockOracle.NullsOnce ((Dml.mk ev binds w.db.state vars).turns stmt w.dmlState)

theorem Valid.dmlSafe {w : World} (valid : w.Valid) {ev : Evaluator} {binds : List Value}
    {vars : Option VarLookup} {stmt : DmlStatement} (once : w.NullsOnce ev binds vars stmt) :
    w.DmlSafe ev binds vars stmt := fun _ _ failed =>
  run_undoSafe valid.dmlTxn.work_sound once failed

end World

end MockOracle
