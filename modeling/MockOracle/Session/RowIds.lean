import MockOracle.Session.DdlRows
import MockOracle.Session.Stepwise

/-!
# Row ids

Rows are numbered from one counter of the database, and a row keeps its id through undo,
rollback and replay. Whatever a session does, the ids it knows afterwards (of committed rows,
of rows in its private catalog, and in its log) are ids it knew before or ids drawn since; and
the rows it has inserted are numbered apart from each other and from the committed rows.
-/

namespace MockOracle

open Std Semantics

/-- Some table of the catalog has a row of this id. -/
def Catalog.HasRow (cat : Catalog) (id : Nat) : Prop :=
  ∃ name t row, cat.table name = some t ∧ t.rows[id]? = some row

/-- The id of a row that a change inserts. -/
def Change.insertedId : Change → Option Nat
  | .insert _ id _ => some id
  | _ => none

/-- The ids of the rows that a log inserts. -/
def Change.inserted (log : List Change) : List Nat := log.filterMap insertedId

namespace Change

/-- The inserted rows of two logs are those of the first and those of the second. -/
@[simp] theorem inserted_append (log more : List Change) :
    inserted (log ++ more) = inserted log ++ inserted more := List.filterMap_append

/-- An id is among the inserted ones if and only if an INSERT of it is logged. -/
theorem mem_inserted {log : List Change} {id : Nat} :
    id ∈ inserted log ↔ ∃ table values, .insert table id values ∈ log := by
  rw [inserted, List.mem_filterMap]
  constructor
  · rintro ⟨change, member, equal⟩
    cases change with
    | insert table other values =>
        cases equal
        exact ⟨table, values, member⟩
    | update table other values old => cases equal
    | delete table other old => cases equal
  · rintro ⟨table, values, member⟩
    exact ⟨_, member, rfl⟩

end Change

/-! ## Rows of catalogs -/

namespace Catalog.HasRow

variable {cat cat' : Catalog} {id : Nat}

/-- Row ids that are in use have been handed out. -/
theorem below {bound : Nat} (has : cat.HasRow id) (sound : cat.Sound bound) : id < bound := by
  obtain ⟨name, t, row, found, stored⟩ := has
  exact (sound name t found).below stored

/-- Which rows there are depends on the tables only. -/
theorem of_tables (has : cat'.HasRow id) (same : cat'.tables = cat.tables) : cat.HasRow id := by
  obtain ⟨name, t, row, found, stored⟩ := has
  rw [Catalog.table, same] at found
  exact ⟨name, t, row, found, stored⟩

/-- Narrowing a catalog adds no rows. -/
theorem of_narrows (has : cat'.HasRow id) (narrows : cat.Narrows cat') : cat.HasRow id := by
  obtain ⟨name, t', row, found', stored⟩ := has
  obtain ⟨t, found, -, rows⟩ := narrows name t' found'
  exact ⟨name, t, row, found, rows id row stored⟩

/-- Where only one table has changed, a row is as before or in that table. -/
theorem of_setTable {name : String} {u : Table} (has : (cat.setTable name u).HasRow id) :
    cat.HasRow id ∨ ∃ row, u.rows[id]? = some row := by
  obtain ⟨other, t, row, found, stored⟩ := has
  rw [Catalog.table_setTable] at found
  split at found
  · cases found
    exact Or.inr ⟨row, stored⟩
  · exact Or.inl ⟨other, t, row, found, stored⟩

/-- A table that has changed adds no row but one of this kind. -/
theorem of_changed {P : Prop} {name : String} {t u : Table} (found : cat.table name = some t)
    (rows : ∀ row, u.rows[id]? = some row → (∃ old, t.rows[id]? = some old) ∨ P)
    (has : (cat.setTable name u).HasRow id) : cat.HasRow id ∨ P := by
  rcases has.of_setTable with old | ⟨row, stored⟩
  · exact Or.inl old
  · rcases rows row stored with ⟨old, storedOld⟩ | holds
    · exact Or.inl ⟨name, t, old, found, storedOld⟩
    · exact Or.inr holds

/-- Modifying a table adds only the rows that the modification adds. -/
theorem of_modifyTable {P : Prop} {name : String} {f : Table → Table}
    (rows : ∀ t row, (f t).rows[id]? = some row → (∃ old, t.rows[id]? = some old) ∨ P)
    (has : (cat.modifyTable name f).HasRow id) : cat.HasRow id ∨ P := by
  cases found : cat.table name with
  | none =>
      rw [Catalog.modifyTable, found] at has
      exact Or.inl has
  | some t =>
      rw [Catalog.modifyTable_of_found f found] at has
      exact has.of_changed found (rows t)

end Catalog.HasRow

namespace Table

variable {t : Table} {id other : Nat} {row : Row}

/-- Deleting a row adds none. -/
theorem row_of_delete (stored : (t.delete other).2.rows[id]? = some row) :
    ∃ old, t.rows[id]? = some old := by
  rw [rows_delete, ExtTreeMap.getElem?_erase] at stored
  split at stored
  · cases stored
  · exact ⟨row, stored⟩

/-- Inserting a row adds that row only. -/
theorem row_of_insert {values : Row} (stored : (t.insert other values).2.rows[id]? = some row) :
    (∃ old, t.rows[id]? = some old) ∨ other = id := by
  rcases t.rows_insert other values with rows | rows
  · rw [rows, ExtTreeMap.getElem?_insert] at stored
    split at stored
    · next same => exact Or.inr (LawfulEqOrd.eq_of_compare same)
    · exact Or.inl ⟨row, stored⟩
  · rw [rows] at stored
    exact Or.inl ⟨row, stored⟩

/-- Updating a table, successfully or not, adds no row. -/
theorem row_of_update {changes : List (Nat × Row)}
    (stored : (t.update changes).2.rows[id]? = some row) : ∃ old, t.rows[id]? = some old := by
  have present : ∀ {rows : List (Nat × Row)}, rows.map Prod.fst = (t.present changes).map Prod.fst →
      (KeyIndex.writeAll rows t.rows)[id]? = some row → ∃ old, t.rows[id]? = some old := by
    intro rows same written
    by_cases changed : id ∈ rows.map Prod.fst
    · rw [same] at changed
      obtain ⟨change, member, rfl⟩ := List.mem_map.mp changed
      have exists_ := (List.mem_filter.mp member).2
      rw [ExtTreeMap.contains_eq_isSome_getElem?] at exists_
      exact Option.isSome_iff_exists.mp exists_
    · rw [KeyIndex.getElem?_writeAll_of_absent changed] at written
      exact ⟨row, written⟩
  rcases t.update_cases changes with ⟨equal, -⟩ | ⟨_, equal, -⟩
  · rw [equal] at stored
    exact present rfl stored
  · rw [equal] at stored
    refine present (List.map_fst_zip ?_) stored
    simp [currents]

/-- The rows of a new table are numbered from the counter. -/
theorem row_of_fill {rows : List Row} {next : Nat}
    (stored : (t.fill rows next).2.2.rows[id]? = some row) :
    (∃ old, t.rows[id]? = some old) ∨ next ≤ id := by
  induction rows generalizing t next with
  | nil => exact Or.inl ⟨row, stored⟩
  | cons values rest ih =>
      have first : ∀ {old : Row}, (t.insert next values).2.rows[id]? = some old →
          (∃ old, t.rows[id]? = some old) ∨ next ≤ id := by
        intro old storedOld
        rcases row_of_insert storedOld with before | same
        · exact Or.inl before
        · exact Or.inr same.le
      unfold Table.fill at stored
      split at stored
      · next equal =>
          rw [equal] at first
          exact first stored
      · next equal =>
          rw [equal] at first
          rcases ih stored with ⟨old, storedOld⟩ | later
          · exact first storedOld
          · exact Or.inr (by omega)

end Table

/-! ## Edits, undo and replay -/

namespace Edit

variable {cat cat' : Catalog} {edit : Edit} {edits : List Edit} {id : Nat}

/-- The rows after an edit were there before, or the edit inserts them. -/
theorem Applies.hasRow (applies : Applies cat edit cat') (has : cat'.HasRow id) :
    cat.HasRow id ∨ id ∈ Change.inserted edit.entries := by
  cases applies with
  | @insert table other values t t' found fresh width success =>
      refine has.of_changed found fun row stored => ?_
      rw [show t' = (t.insert other values).2 by rw [success]] at stored
      rcases Table.row_of_insert stored with old | same
      · exact Or.inl old
      · exact Or.inr (by simp [entries, Change.inserted, Change.insertedId, same])
  | delete found stored =>
      exact has.of_changed found fun row storedRow => Or.inl (Table.row_of_delete storedRow)
  | update found replaces =>
      exact has.of_changed found fun row stored => Or.inl ((replaces.isSome_iff id).mp ⟨row, stored⟩)

/-- What an edit logs is an insert or names a row that was there. -/
theorem Applies.named (applies : Applies cat edit cat') {change : Change}
    (member : change ∈ edit.entries) :
    cat.HasRow change.id ∨ change.id ∈ Change.inserted edit.entries := by
  cases applies with
  | insert found fresh width success =>
      cases List.mem_singleton.mp member
      exact Or.inr (Change.mem_inserted.mpr ⟨_, _, List.mem_singleton_self _⟩)
  | delete found stored =>
      cases List.mem_singleton.mp member
      exact Or.inl ⟨_, _, _, found, stored⟩
  | update found replaces =>
      obtain ⟨r, memberR, rfl⟩ := List.mem_map.mp member
      exact Or.inl ⟨_, _, _, found, replaces.stored r memberR⟩

/-- The rows after a run of edits were there before, or an edit inserts them. -/
theorem Run.hasRow (run : Run cat edits cat') (has : cat'.HasRow id) :
    cat.HasRow id ∨ id ∈ Change.inserted (log edits) := by
  induction run with
  | nil => exact Or.inl has
  | cons head _ ih =>
      rw [log_cons, Change.inserted_append, List.mem_append]
      rcases ih has with before | later
      · rcases head.hasRow before with first | here
        · exact Or.inl first
        · exact Or.inr (Or.inl here)
      · exact Or.inr (Or.inr later)

/-- The rows that a run of edits logs were there before, or it inserts them. -/
theorem Run.named (run : Run cat edits cat') {change : Change} (member : change ∈ log edits) :
    cat.HasRow change.id ∨ change.id ∈ Change.inserted (log edits) := by
  induction run with
  | nil => cases member
  | cons head _ ih =>
      rw [log_cons, Change.inserted_append, List.mem_append]
      rcases List.mem_append.mp member with here | later
      · rcases head.named here with old | new
        · exact Or.inl old
        · exact Or.inr (Or.inl new)
      · rcases ih later with before | new
        · rcases head.hasRow before with first | inserted
          · exact Or.inl first
          · exact Or.inr (Or.inl inserted)
        · exact Or.inr (Or.inr new)

/-- Edits without an INSERT insert no ids. -/
theorem inserted_log_of_none (none : ∀ table id values, Edit.insert table id values ∉ edits) :
    Change.inserted (log edits) = [] := by
  refine List.eq_nil_iff_forall_not_mem.mpr fun id member => ?_
  obtain ⟨table, values, entry⟩ := Change.mem_inserted.mp member
  obtain ⟨edit, memberEdit, among⟩ := List.mem_flatMap.mp entry
  cases edit with
  | insert table' id' values' =>
      cases List.mem_singleton.mp among
      exact none _ _ _ memberEdit
  | delete table' id' old => simp [entries] at among
  | update table' rows => simp [entries, RowChange.entry] at among

end Edit

/-- Undoing brings back rows of the log at most. -/
theorem undoLoop_hasRow {fuel id : Nat} {stack : List Change} {cat : Catalog}
    (has : (undoLoop fuel stack cat).HasRow id) :
    cat.HasRow id ∨ ∃ change ∈ stack, change.id = id := by
  induction fuel generalizing stack cat with
  | zero => exact Or.inl has
  | succ fuel ih =>
      match stack with
      | [] => exact Or.inl has
      | .insert table other values :: rest =>
          rcases ih has with before | ⟨change, member, same⟩
          · refine before.of_modifyTable fun t row stored => ?_
            exact Or.inl (Table.row_of_delete stored)
          · exact Or.inr ⟨change, List.mem_cons_of_mem _ member, same⟩
      | .delete table other old :: rest =>
          rcases ih has with before | ⟨change, member, same⟩
          · refine before.of_modifyTable fun t row stored => ?_
            rcases Table.row_of_insert stored with there | same
            · exact Or.inl there
            · exact Or.inr ⟨_, List.mem_cons_self, same⟩
          · exact Or.inr ⟨change, List.mem_cons_of_mem _ member, same⟩
      | .update table other values old :: rest =>
          rcases ih has with before | ⟨change, member, same⟩
          · refine before.of_modifyTable fun t row stored => ?_
            exact Or.inl (Table.row_of_update stored)
          · have among := (popUpdates_mem table rest).2 member
            exact Or.inr ⟨change, List.mem_cons_of_mem _ among, same⟩

/-- The rows after replaying a change were there before, or the change inserts them. -/
theorem Replays.hasRow {cat next : Catalog} {change : Change} {id : Nat}
    (replays : Replays cat change next) (has : next.HasRow id) :
    cat.HasRow id ∨ id ∈ Change.inserted [change] := by
  cases replays with
  | gone missing => exact Or.inl has
  | misfit found image width => exact Or.inl has
  | @insert table other values t t' found width success =>
      refine has.of_changed found fun row stored => ?_
      rw [show t' = (t.insert other values).2 by rw [success]] at stored
      rcases Table.row_of_insert stored with old | same
      · exact Or.inl old
      · exact Or.inr (by simp [Change.inserted, Change.insertedId, same])
  | @update table other values old t t' found width success =>
      refine has.of_changed found fun row stored => ?_
      rw [show t' = (t.update [(other, values)]).2 by rw [success]] at stored
      exact Or.inl (Table.row_of_update stored)
  | delete found =>
      exact has.of_changed found fun row stored => Or.inl (Table.row_of_delete stored)

/-- Replaying a log adds the rows it inserts at most. -/
theorem replay_hasRow {user : String} {log : List Change} {cat next : Catalog} {id : Nat}
    (success : replay user log cat = .ok next) (has : next.HasRow id) :
    cat.HasRow id ∨ id ∈ Change.inserted log := by
  induction log generalizing cat with
  | nil =>
      cases success
      exact Or.inl has
  | cons change rest ih =>
      rw [show change :: rest = [change] ++ rest from rfl, Change.inserted_append, List.mem_append]
      simp only [replay] at success
      split at success
      · next middle first =>
          rcases ih success with before | later
          · rcases (replayChange_replays first).hasRow before with old | new
            · exact Or.inl old
            · exact Or.inr (Or.inl new)
          · exact Or.inr (Or.inr later)
      · cases success

/-! ## Transactions -/

/-- A row of the private catalog or an entry of the log has this id. -/
def Txn.Mentions (txn : Txn) (id : Nat) : Prop :=
  txn.work.HasRow id ∨ ∃ change ∈ txn.log, change.id = id

/-- A transaction after a step that draws row ids from `next` on. -/
structure Txn.Numbers (next : Nat) (txn txn' : Txn) : Prop where
  mentions : ∀ id, txn'.Mentions id → txn.Mentions id ∨ next ≤ id
  inserted : ∀ id ∈ Change.inserted txn'.log, id ∈ Change.inserted txn.log ∨ next ≤ id
  once : (Change.inserted txn.log).Nodup → (Change.inserted txn'.log).Nodup

namespace Txn

variable {txn txn' txn'' : Txn} {next id : Nat}

/-- A row that a transaction has inserted is mentioned in it. -/
theorem mentions_of_inserted (member : id ∈ Change.inserted txn.log) : txn.Mentions id := by
  obtain ⟨table, values, entry⟩ := Change.mem_inserted.mp member
  exact Or.inr ⟨_, entry, rfl⟩

/-- The rows that a transaction mentions have been handed out. -/
theorem Valid.mentioned_below {db : Database} (valid : txn.Valid db) (mentions : txn.Mentions id) :
    id < db.nextRowId := by
  rcases mentions with has | ⟨change, member, rfl⟩
  · exact has.below valid.work_sound
  · exact (valid.fits change member).1

/-- Steps that number the rows of a transaction apart add up. -/
theorem Numbers.trans (first : txn.Numbers next txn') (second : txn'.Numbers next txn'') :
    txn.Numbers next txn'' where
  mentions id mentions := by
    rcases second.mentions id mentions with before | new
    · exact first.mentions id before
    · exact Or.inr new
  inserted id member := by
    rcases second.inserted id member with before | new
    · exact first.inserted id before
    · exact Or.inr new
  once distinct := second.once (first.once distinct)

/-- Undoing changes inserts nothing. -/
theorem undo_numbers (txn : Txn) (keep next : Nat) : txn.Numbers next (undo txn keep) where
  mentions id mentions := by
    refine Or.inl ?_
    rcases mentions with has | ⟨change, member, same⟩
    · rcases undoLoop_hasRow has with before | ⟨change, member, same⟩
      · exact Or.inl before
      · exact Or.inr ⟨change, List.mem_of_mem_drop (List.mem_reverse.mp member), same⟩
    · exact Or.inr ⟨change, List.mem_of_mem_take member, same⟩
  inserted id member := by
    refine Or.inl ?_
    obtain ⟨table, values, entry⟩ := Change.mem_inserted.mp member
    exact Change.mem_inserted.mpr ⟨table, values, List.mem_of_mem_take entry⟩
  once distinct := distinct.sublist ((List.take_sublist _ _).filterMap _)

/-- Logged edits whose inserted rows are numbered from the counter. -/
theorem Grows.numbers {edits : List Edit} (grows : txn.Grows edits txn')
    (below : ∀ change ∈ txn.log, change.id < next)
    (distinct : (Change.inserted (Edit.log edits)).Nodup)
    (drawn : ∀ id ∈ Change.inserted (Edit.log edits), next ≤ id) : txn.Numbers next txn' where
  mentions id mentions := by
    rcases mentions with has | ⟨change, member, rfl⟩
    · rcases Edit.Run.hasRow grows.run has with before | new
      · exact Or.inl (Or.inl before)
      · exact Or.inr (drawn id new)
    · rw [grows.logged] at member
      rcases List.mem_append.mp member with old | new
      · exact Or.inl (Or.inr ⟨change, old, rfl⟩)
      · rcases Edit.Run.named grows.run new with before | inserted
        · exact Or.inl (Or.inl before)
        · exact Or.inr (drawn _ inserted)
  inserted id member := by
    rw [grows.logged, Change.inserted_append] at member
    rcases List.mem_append.mp member with old | new
    · exact Or.inl old
    · exact Or.inr (drawn id new)
  once before := by
    rw [grows.logged, Change.inserted_append, List.nodup_append]
    refine ⟨before, distinct, fun id old other new same => ?_⟩
    obtain ⟨table, values, entry⟩ := Change.mem_inserted.mp old
    have used : id < next := below _ entry
    have unused : next ≤ other := drawn other new
    omega

/-- Inserted rows are numbered one after another. -/
theorem insertRows_ids (user table : String) (rows : List Row) (next : Nat) (txn : Txn) :
    ∃ ids, Change.inserted (txn.insertRows user table rows next).2.2.log =
        Change.inserted txn.log ++ ids ∧ ids.Nodup ∧ ∀ id ∈ ids, next ≤ id := by
  induction rows generalizing next txn with
  | nil => exact ⟨[], (List.append_nil _).symm, List.nodup_nil, by simp⟩
  | cons values rest ih =>
      unfold insertRows
      split
      · exact ⟨[], (List.append_nil _).symm, List.nodup_nil, by simp⟩
      · split
        · exact ⟨[], (List.append_nil _).symm, List.nodup_nil, by simp⟩
        · next t success =>
            obtain ⟨ids, logged, distinct, drawn⟩ := ih (next + 1)
              { txn with
                work := txn.work.setTable table t
                log := txn.log ++ [.insert table next values] }
            refine ⟨next :: ids, ?_, ?_, ?_⟩
            · rw [logged, Change.inserted_append, List.append_assoc]
              rfl
            · refine List.nodup_cons.mpr ⟨fun member => ?_, distinct⟩
              have := drawn next member
              omega
            · intro id member
              rcases List.mem_cons.mp member with rfl | later
              · exact Nat.le_refl _
              · exact Nat.le_of_succ_le (drawn id later)

end Txn

/-! ## DML statements -/

/-- Edits whose inserted rows are numbered apart, from `next` on. -/
def Edit.Numbered (next : Nat) (edits : List Edit) : Prop :=
  (Change.inserted (Edit.log edits)).Nodup ∧ ∀ id ∈ Change.inserted (Edit.log edits), next ≤ id

/-- Edits without an INSERT are numbered apart. -/
theorem Edit.Numbered.of_none {next : Nat} {edits : List Edit}
    (none : ∀ table id values, Edit.insert table id values ∉ edits) : Edit.Numbered next edits := by
  rw [Edit.Numbered, Edit.inserted_log_of_none none]
  exact ⟨List.nodup_nil, by simp⟩

variable {ctx : Dml} {st : DmlState}

/-- The rows of an INSERT are numbered apart, from the counter on. -/
theorem insert_numbered (sound : st.txn.work.Sound st.nextRowId) (ins : Insert) :
    ∃ edits, st.Extends (ctx.insert ins st).state edits ∧ Edit.Numbered st.nextRowId edits := by
  obtain ⟨inserted, extends_, -⟩ := @insert_extends ctx st sound ins
  refine ⟨_, extends_, ?_⟩
  have ids : ∃ ids, Change.inserted (ctx.insert ins st).state.txn.log =
      Change.inserted st.txn.log ++ ids ∧ ids.Nodup ∧ ∀ id ∈ ids, st.nextRowId ≤ id := by
    unfold Dml.insert
    split
    · exact ⟨[], (List.append_nil _).symm, List.nodup_nil, by simp⟩
    · split
      · exact ⟨[], (List.append_nil _).symm, List.nodup_nil, by simp⟩
      · next rows returned eval evaluated =>
          have drawn := Txn.insertRows_ids eval.env.user ins.table rows st.nextRowId st.txn
          split
          · next equal =>
              rw [equal] at drawn
              exact drawn
          · next equal =>
              rw [equal] at drawn
              exact drawn
  obtain ⟨ids, logged, distinct, drawn⟩ := ids
  rw [extends_.grows.logged, Change.inserted_append, List.append_cancel_left_eq] at logged
  rw [Edit.Numbered, logged]
  exact ⟨distinct, drawn⟩

/-- The rows that a statement inserts are numbered apart, from the counter on. -/
theorem statement_numbered (ctx : Dml) (sound : st.txn.work.Sound st.nextRowId)
    (stmt : DmlStatement) :
    ∃ edits, st.Extends (ctx.statement stmt st).state edits ∧
      Edit.Numbered st.nextRowId edits := by
  cases stmt with
  | insert ins => exact insert_numbered sound ins
  | update upd =>
      obtain ⟨changes, extends_, -⟩ := @update_extends ctx st sound upd
      refine ⟨_, extends_, .of_none fun table id values member => ?_⟩
      unfold Txn.replacing at member
      split at member <;> simp at member
  | delete del =>
      obtain ⟨rows, extends_, -⟩ := @delete_extends ctx st sound del
      exact ⟨_, extends_, .of_none fun table id values member => by simp at member⟩

/-- The enforcement of foreign keys numbers no row. -/
theorem CascadeRun.inserts {fks : List ForeignKeyRef} {turns : List Turn} {start : Nat}
    {txn txn' : Txn} (run : CascadeRun fks start txn turns txn') :
    Change.inserted txn'.log = Change.inserted txn.log := by
  induction run with
  | nil => rfl
  | @cons _ turn _ _ _ head _ ih =>
      rw [ih, head.grows.logged, Change.inserted_append, Edit.inserted_log_of_none turn.insertFree,
        List.append_nil]

/-- The rows that a statement inserts are numbered apart, with those of its cascades. -/
theorem run_numbered (ctx : Dml) (sound : st.txn.work.Sound st.nextRowId) (stmt : DmlStatement) :
    ∃ edits, st.Extends (ctx.run stmt st).state edits ∧ Edit.Numbered st.nextRowId edits := by
  obtain ⟨edits, extends_⟩ := run_extends ctx sound stmt
  refine ⟨edits, extends_, ?_⟩
  obtain ⟨first, extendsFirst, numbered⟩ := statement_numbered ctx sound stmt
  have same : Change.inserted (ctx.run stmt st).state.txn.log =
      Change.inserted (ctx.statement stmt st).state.txn.log := by
    unfold Dml.run
    cases outcome : ctx.statement stmt st with
    | error e after => rfl
    | ok r after =>
        rw [outcome] at extendsFirst
        have soundAfter : after.txn.work.Sound after.nextRowId := extendsFirst.sound sound
        have cascades :=
          enforceForeignKeys_run after.eval.env.user st.txn.log.length soundAfter.covers
        have kept := cascades.inserts
        simp only
        split
        · next equal =>
            rw [equal] at kept
            exact kept
        · next equal =>
            rw [equal] at kept
            exact kept
  rw [extends_.grows.logged, extendsFirst.grows.logged, Change.inserted_append,
    Change.inserted_append, List.append_cancel_left_eq] at same
  rw [Edit.Numbered, same]
  exact numbered

/-! ## Sessions -/

namespace World

/-- A committed row or the session's transaction has this id. -/
def Knows (w : World) (id : Nat) : Prop :=
  w.db.state.HasRow id ∨ ∃ txn, w.session.txn = some txn ∧ txn.Mentions id

/-- The ids of the rows that the session's transaction has inserted. -/
def inserted (w : World) : List Nat :=
  match w.session.txn with
  | some txn => Change.inserted txn.log
  | none => []

/-- The rows that the session has inserted are numbered apart from each other and from the
committed rows. -/
structure Numbered (w : World) : Prop where
  fresh : ∀ id ∈ w.inserted, ¬ w.db.state.HasRow id
  once : w.inserted.Nodup

/-- A step of a session that draws row ids from the counter. -/
structure Numbers (w w' : World) : Prop where
  draws : w.db.nextRowId ≤ w'.db.nextRowId
  knows : ∀ id, w'.Knows id → w.Knows id ∨ w.db.nextRowId ≤ id
  inserted : ∀ id ∈ w'.inserted, id ∈ w.inserted ∨ w.db.nextRowId ≤ id
  numbered : w.Numbered → w'.Numbered

variable {w w' w'' : World}

/-- Without a transaction nothing has been inserted. -/
theorem inserted_closed (closed : w.session.txn = none) : w.inserted = [] := by
  rw [inserted, closed]

/-- Without a transaction there is nothing to number. -/
theorem numbered_closed (closed : w.session.txn = none) : w.Numbered := by
  constructor <;> simp [inserted_closed closed]

/-- With a transaction open, the inserted rows are those of its log. -/
theorem inserted_open {txn : Txn} (open_ : w.session.txn = some txn) :
    w.inserted = Change.inserted txn.log := by
  rw [inserted, open_]

/-- Steps of a session that draw from the counter add up. -/
theorem Numbers.trans (first : w.Numbers w') (second : w'.Numbers w'') : w.Numbers w'' where
  draws := first.draws.trans second.draws
  knows id known := by
    rcases second.knows id known with before | new
    · exact first.knows id before
    · exact Or.inr (first.draws.trans new)
  inserted id member := by
    rcases second.inserted id member with before | new
    · exact first.inserted id before
    · exact Or.inr (first.draws.trans new)
  numbered holds := second.numbered (first.numbered holds)

/-- A step that changes neither the catalog nor the transaction draws no ids. -/
theorem Numbers.of_same (state : w'.db.state = w.db.state)
    (next : w'.db.nextRowId = w.db.nextRowId) (txn : w'.session.txn = w.session.txn) :
    w.Numbers w' where
  draws := next.ge
  knows id known := by
    rw [Knows, state, txn] at known
    exact Or.inl known
  inserted id member := by
    rw [World.inserted, txn] at member
    exact Or.inl member
  numbered holds := by
    have same : w'.inserted = w.inserted := by rw [World.inserted, txn, World.inserted]
    constructor
    · rw [same, state]
      exact holds.fresh
    · rw [same]
      exact holds.once

/-- A step that ends the transaction. -/
theorem Numbers.of_closed (draws : w.db.nextRowId ≤ w'.db.nextRowId)
    (closed : w'.session.txn = none)
    (state : ∀ id, w'.db.state.HasRow id → w.Knows id ∨ w.db.nextRowId ≤ id) : w.Numbers w' where
  draws := draws
  knows id known := by
    rcases known with has | ⟨txn, open_, -⟩
    · exact state id has
    · rw [closed] at open_
      cases open_
  inserted id member := by
    rw [inserted_closed closed] at member
    cases member
  numbered _ := numbered_closed closed

/-- A step that changes the transaction of the session only, from the one that a DML statement
would run in. -/
theorem Numbers.of_txn (valid : w.Valid) (state : w'.db.state = w.db.state)
    (draws : w.db.nextRowId ≤ w'.db.nextRowId)
    (txn : ∀ txn', w'.session.txn = some txn' → w.dmlState.txn.Numbers w.db.nextRowId txn') :
    w.Numbers w' := by
  have mentions : ∀ id, w.dmlState.txn.Mentions id → w.Knows id := by
    intro id mentions
    unfold dmlState at mentions
    cases open_ : w.session.txn with
    | none =>
        rw [open_] at mentions
        rcases mentions with has | ⟨change, member, -⟩
        · exact Or.inl has
        · cases member
    | some txn =>
        rw [open_] at mentions
        exact Or.inr ⟨txn, open_, mentions⟩
  have inserted : Change.inserted w.dmlState.txn.log = w.inserted := by
    unfold dmlState World.inserted
    cases w.session.txn <;> rfl
  have grown : ∀ id ∈ w'.inserted, id ∈ w.inserted ∨ w.db.nextRowId ≤ id := by
    intro id member
    cases open_ : w'.session.txn with
    | none =>
        rw [inserted_closed open_] at member
        cases member
    | some txn' =>
        rw [inserted_open open_] at member
        rw [← inserted]
        exact (txn txn' open_).inserted id member
  refine ⟨draws, fun id known => ?_, grown, fun holds => ⟨fun id member has => ?_, ?_⟩⟩
  · rcases known with has | ⟨txn', open_, mentioned⟩
    · rw [state] at has
      exact Or.inl (Or.inl has)
    · rcases (txn txn' open_).mentions id mentioned with before | new
      · exact Or.inl (mentions id before)
      · exact Or.inr new
  · rw [state] at has
    rcases grown id member with old | new
    · exact holds.fresh id old has
    · have used : id < w.db.nextRowId := has.below valid.sound
      omega
  · cases open_ : w'.session.txn with
    | none => simp [inserted_closed open_]
    | some txn' =>
        rw [inserted_open open_]
        refine (txn txn' open_).once ?_
        rw [inserted]
        exact holds.once

/-- A DML statement draws the ids of its rows from the counter. -/
theorem dml_numbers (valid : w.Valid) (ev : Evaluator) (binds : List Value)
    (vars : Option VarLookup) (stmt : DmlStatement) : w.Numbers (w.dml ev binds vars stmt).2 := by
  have before := valid.dmlTxn
  obtain ⟨edits, extends_, distinct, drawn⟩ :=
    run_numbered ⟨ev, binds, w.db.state, vars⟩ before.work_sound stmt
  have grows := extends_.grows.numbers (fun change member => (before.fits change member).1)
    distinct drawn
  have draws := extends_.draws
  unfold dml
  split
  · next r st equal =>
      rw [equal] at grows draws
      refine .of_txn valid rfl draws fun txn' open_ => ?_
      obtain ⟨rfl, -⟩ := Txn.unlessEmpty_eq_some.mp open_
      exact grows
  · next e st equal =>
      rw [equal] at grows draws
      refine .of_txn valid rfl draws fun txn' open_ => ?_
      obtain ⟨rfl, -⟩ := Txn.unlessEmpty_eq_some.mp open_
      exact grows.trans (Txn.undo_numbers _ _ _)

/-- What COMMIT publishes has committed rows and rows of the transaction. -/
theorem commit_hasRow {txn : Txn} {user : String} {state published : Catalog} {id : Nat}
    (success : txn.publish user state = .ok published) (has : published.HasRow id) :
    state.HasRow id ∨ txn.Mentions id := by
  unfold Txn.publish at success
  split at success
  · cases success
    exact Or.inr (Or.inl (has.of_tables rfl))
  · split at success
    · next next_ replayed =>
        cases success
        rcases replay_hasRow replayed (has.of_tables rfl) with old | new
        · exact Or.inl old
        · exact Or.inr (Txn.mentions_of_inserted new)
    · cases success

/-- Closing a transaction draws no ids. -/
theorem closed_numbers (w : World) : w.Numbers w.closed :=
  .of_closed (Nat.le_refl _) rfl fun _ has => Or.inl (Or.inl has)

/-- COMMIT draws no ids, and what it publishes has been drawn before. -/
theorem commit_numbers (w : World) : w.Numbers w.commit.2 := by
  unfold commit
  split
  · exact w.closed_numbers
  · next txn open_ =>
      split
      · exact w.closed_numbers
      · split
        · next state success =>
            refine .of_closed (Nat.le_refl _) rfl fun id has => Or.inl ?_
            rcases commit_hasRow success has with old | mentioned
            · exact Or.inl old
            · exact Or.inr ⟨txn, open_, mentioned⟩
        · exact w.closed_numbers

/-- ROLLBACK TO draws no ids. -/
theorem rollbackTo_numbers (valid : w.Valid) (savepoint : Savepoint) :
    w.Numbers { w with session := w.session.rollbackTo savepoint } := by
  unfold Session.rollbackTo
  split
  · exact .of_same rfl rfl rfl
  · next txn open_ =>
      refine .of_txn valid rfl (Nat.le_refl _) fun txn' opened => ?_
      obtain ⟨rfl, -⟩ := Txn.unlessEmpty_eq_some.mp opened
      rw [dmlState, open_]
      exact Txn.undo_numbers _ _ _

/-- The rows after CREATE TABLE were there before, or have ids from the counter on. -/
theorem createTableFrom_hasRow {ev : Evaluator} {ct : CreateTable} {rel : Option Relation} {id : Nat}
    (has : (w.createTableFrom ev ct rel).2.db.state.HasRow id) :
    w.db.state.HasRow id ∨ w.db.nextRowId ≤ id := by
  unfold createTableFrom at has
  simp only at has
  split at has
  · exact Or.inl has
  · split at has
    · exact Or.inl has
    · let start : DdlState := ⟨w.evalState, (nameConstraints ct.constraints w.db.nextConstraint).2,
        w.db.state.setTable ct.name (.new ct.name (newColumns ct rel))⟩
      let declared := sortConstraints (nameConstraints ct.constraints w.db.nextConstraint).1
      have narrows := addConstraints_narrows ev w.db.state ct.name declared start
      -- The new table is empty before it is filled.
      have created : start.cat.HasRow id → w.db.state.HasRow id := by
        intro there
        rcases there.of_setTable with old | ⟨row, stored⟩
        · exact old
        · simp [Table.new] at stored
      split at has
      · next e st failed =>
          rw [failed] at narrows
          exact Or.inl (created (has.of_narrows (narrows.trans (.removeTable _ _))))
      · next st succeeded =>
          rw [succeeded] at narrows
          split at has
          · exact Or.inl (created (has.of_narrows narrows))
          · next t found =>
              have filled : (st.cat.setTable ct.name
                  (t.fill ((rel.map (·.rows)).getD []) w.db.nextRowId).2.2).HasRow id →
                  w.db.state.HasRow id ∨ w.db.nextRowId ≤ id := by
                intro there
                rcases there.of_changed found fun row stored => Table.row_of_fill stored with
                  old | new
                · exact Or.inl (created (old.of_narrows narrows))
                · exact Or.inr new
              split at has
              · next equal =>
                  rw [equal] at filled
                  exact filled (has.of_narrows (.removeTable _ _))
              · next equal =>
                  rw [equal] at filled
                  exact filled (has.of_tables rfl)

/-- DDL adds only rows numbered from the counter. -/
theorem ddl_hasRow {ev : Evaluator} {binds : List Value} {stmt : Statement} {id : Nat}
    (has : (w.ddl ev binds stmt).2.db.state.HasRow id) :
    w.db.state.HasRow id ∨ w.db.nextRowId ≤ id := by
  by_cases creates : ∃ ct, stmt = .createTable ct
  · obtain ⟨ct, rfl⟩ := creates
    simp only [ddl, createTable] at has
    split at has
    · exact Or.inl has
    · next rel eval evaluated => exact @createTableFrom_hasRow (w.setEval eval) ev ct rel id has
  · refine Or.inl (has.of_narrows (ddl_narrows ev binds fun ct same => ?_))
    exact creates ⟨ct, same⟩

/-- Every step of a session numbers rows from the counter. -/
theorem stepwise_numbers (ev : Evaluator) : Stepwise ev Numbers where
  same state next txn := .of_same state next txn
  trans first second := first.trans second
  dml valid binds vars stmt := dml_numbers valid ev binds vars stmt
  commit _ := commit_numbers _
  closed w := w.closed_numbers
  rollbackTo valid savepoint := rollbackTo_numbers valid savepoint
  ddl {w} _ closed binds stmt := by
    have publishes := ddl_publishes ev binds w stmt
    refine .of_closed publishes.db.draws (publishes.txn.trans closed) fun id has => ?_
    rcases ddl_hasRow has with old | new
    · exact Or.inl (Or.inl old)
    · exact Or.inr new

end World

end MockOracle
