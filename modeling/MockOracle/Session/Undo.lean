import MockOracle.Session.Txn

/-!
# Undoing a suffix of the log

`undo` pops log entries newest first. Consecutive updates of one table are collected and
reverted by a single `Table.update`, so that swapped unique keys do not collide on the
way back. The collection does not stop at the border of a statement, and it may hold one
row more than once. `UndoSafe` says that this does no harm: within a stretch of
consecutive updates of one table, a row that is updated again had no unique key at that
moment. Under it, `undo` is the exact inverse of the edits that wrote the entries.
-/

namespace MockOracle

open Std Semantics

/-! ## The code -/

/-- The updates of `table` on top of the stack, and the stack below them. -/
def popUpdates (table : String) : List Change → List (Nat × Row) × List Change
  | .update next id values old :: rest =>
      if next = table then
        let popped := popUpdates table rest
        ((id, old) :: popped.1, popped.2)
      else ([], .update next id values old :: rest)
  | changes => ([], changes)

/-- Revert a stack of changes, newest first. Each round pops at least one entry, so the
height of the stack is enough fuel. -/
def undoLoop : Nat → List Change → Catalog → Catalog
  | 0, _, cat => cat
  | _ + 1, [], cat => cat
  | fuel + 1, .insert table id _ :: rest, cat =>
      undoLoop fuel rest (cat.modifyTable table fun t => (t.delete id).2)
  | fuel + 1, .delete table id old :: rest, cat =>
      undoLoop fuel rest (cat.modifyTable table fun t => (t.insert id old).2)
  | fuel + 1, .update table id _ old :: rest, cat =>
      let popped := popUpdates table rest
      undoLoop fuel popped.2
        (cat.modifyTable table fun t => (t.update ((id, old) :: popped.1)).2)

/-- Revert the log entries after `keep`, newest first. -/
def undo (txn : Txn) (keep : Nat) : Txn :=
  let changes := txn.log.drop keep
  { txn with
    work := undoLoop changes.length changes.reverse txn.work
    log := txn.log.take keep }

/-- In every stretch of consecutive updates of one table, a row that is updated again had
no key under any enabled unique constraint when it was. -/
def UndoSafe (cat : Catalog) (log : List Change) : Prop :=
  ∀ table t, cat.table table = some t →
    ∀ rows : List RowChange, rows.map (RowChange.entry table) <:+: log →
      rows.Pairwise fun row later => row.id = later.id →
        ∀ c ∈ t.constraints, c.key later.old = none

/-! ## Reverting several updates of one table at once -/

namespace Constraint

/-- Two constraints that agree on everything but the index, and on that. -/
theorem eq_of_shape {c d : Constraint} (shape : d.shape = c.shape) (index : d.index = c.index) :
    d = c := by
  obtain ⟨name, kind, isIndex, enabled⟩ := c
  obtain ⟨name', kind', isIndex', enabled'⟩ := d
  cases kind <;> cases kind' <;>
    simp_all [Constraint.shape, Constraint.mapIndex, Constraint.index]

/-- The constraint after several replacements of rows. -/
def reindexAll (c : Constraint) (batches : List (List RowChange)) : Constraint :=
  batches.foldl (fun c rows => c.reindex (rows.map RowChange.change) (rows.map RowChange.old)) c

@[simp] theorem shape_reindexAll (c : Constraint) (batches : List (List RowChange)) :
    (c.reindexAll batches).shape = c.shape := by
  induction batches generalizing c with
  | nil => rfl
  | cons rows rest ih => exact (ih _).trans (c.shape_mapIndex _)

@[simp] theorem key_reindexAll (c : Constraint) (batches : List (List RowChange)) :
    (c.reindexAll batches).key = c.key := by
  rw [← key_shape, shape_reindexAll, key_shape]

end Constraint

namespace Table

variable {t t' : Table} {batches : List (List RowChange)}

/-- A run of replacements reindexes the constraints. -/
theorem constraints_of_run (run : Steps Replaces t batches t') :
    t'.constraints = t.constraints.map (·.reindexAll batches) := by
  induction run with
  | nil => exact (List.map_id' _).symm
  | cons head _ ih =>
      rw [ih, head.spec.1, replace, List.map_map]
      rfl

/-- A run of replacements keeps the schema. -/
theorem schema_of_run (run : Steps Replaces t batches t') : t'.schema = t.schema := by
  induction run with
  | nil => rfl
  | cons head _ ih => exact ih.trans head.schema

/-- Rows that a run of replacements does not mention stay. -/
theorem kept_of_run (run : Steps Replaces t batches t') {id : Nat}
    (absent : id ∉ batches.flatten.map RowChange.id) : t'.rows[id]? = t.rows[id]? := by
  induction run with
  | nil => rfl
  | cons head _ ih =>
      simp only [List.flatten_cons, List.map_append, List.mem_append, not_or] at absent
      rw [ih absent.2, head.kept absent.1]

/-- A run of replacements adds and removes no rows. -/
theorem isSome_of_run (run : Steps Replaces t batches t') (id : Nat) :
    (∃ row, t'.rows[id]? = some row) ↔ ∃ row, t.rows[id]? = some row := by
  induction run with
  | nil => rfl
  | cons head _ ih => exact ih.trans (head.isSome_iff id)

/-- Rows that are replaced were there from the start. -/
theorem stored_of_run (run : Steps Replaces t batches t') {r : RowChange}
    (member : r ∈ batches.flatten) : ∃ row, t.rows[r.id]? = some row := by
  induction run with
  | nil => simp at member
  | cons head _ ih =>
      rcases List.mem_append.mp member with here | later
      · exact ⟨r.old, head.stored r here⟩
      · exact (head.isSome_iff r.id).mp (ih later)

/-- The first change of a row replaced the row as it was at the start. -/
theorem first_of_run (run : Steps Replaces t batches t') {id : Nat} {r : RowChange}
    (first : batches.flatten.find? (fun r => r.id == id) = some r) :
    t.rows[id]? = some r.old := by
  induction run with
  | nil => simp at first
  | cons head _ ih =>
      rw [List.flatten_cons, List.find?_append, Option.or_eq_some_iff] at first
      rcases first with here | ⟨missing, later⟩
      · have same : r.id = id := by simpa using List.find?_some here
        rw [← same]
        exact head.stored r (List.mem_of_find?_eq_some here)
      · rw [← ih later]
        refine (head.kept fun member => ?_).symm
        obtain ⟨other, among, same⟩ := List.mem_map.mp member
        exact List.find?_eq_none.mp missing other among (by simp [same])

/-- Replacements among `ids` leave the rest of every index alone. -/
theorem residue_of_run (ids : Set Nat) (run : Steps Replaces t batches t')
    (among : ∀ r ∈ batches.flatten, r.id ∈ ids) {c : Constraint} (member : c ∈ t.constraints) :
    KeyIndex.residue c.key t'.rows (c.reindexAll batches).index ids =
      KeyIndex.residue c.key t.rows c.index ids := by
  induction run generalizing c with
  | nil => rfl
  | @cons start rows middle rest last head _ ih =>
      have memberNext : c.reindex (rows.map RowChange.change) (rows.map RowChange.old) ∈
          middle.constraints := by
        rw [head.spec.1]
        exact List.mem_map_of_mem member
      have fits : KeyIndex.Fits c.key c.index (rows.map RowChange.change)
          (rows.map RowChange.old) := by
        by_contra misfit
        exact head.spec.2 ⟨c, member, misfit⟩
      have after := ih (fun r memberR => among r (List.mem_append_right _ memberR)) memberNext
      rw [Constraint.key_reindex, Constraint.index_reindex, head.rows_eq,
        KeyIndex.residue_replace head.nodup head.replaced fits] at after
      · exact after
      · intro change memberChange
        obtain ⟨r, memberR, rfl⟩ := List.mem_map.mp memberChange
        exact among r (List.mem_append_left _ memberR)

/-- The batch that reverts `rows`: their old values, newest first. -/
def reverts (rows : List RowChange) : List (Nat × Row) :=
  rows.reverse.map fun r => (r.id, r.old)

/-- What reverts rows are their old values. -/
theorem mem_reverts {rows : List RowChange} {entry : Nat × Row} :
    entry ∈ reverts rows ↔ ∃ r ∈ rows, entry = (r.id, r.old) := by
  simp [reverts, eq_comm]

/-- What reverts rows has their ids. -/
theorem ids_reverts (rows : List RowChange) (id : Nat) :
    id ∈ (reverts rows).map Prod.fst ↔ id ∈ rows.map RowChange.id := by
  simp [reverts]

/-- The oldest change of a row is written last when `rows` are reverted. -/
theorem reverts_split {rows : List RowChange} {id : Nat} (member : id ∈ rows.map RowChange.id) :
    ∃ r before after, rows.find? (fun r => r.id == id) = some r ∧ r.id = id ∧
      rows = before ++ r :: after ∧ (∀ other ∈ before, other.id ≠ id) ∧
      reverts rows = reverts after ++ (id, r.old) :: reverts before := by
  cases first : rows.find? (fun r => r.id == id) with
  | none =>
      obtain ⟨r, memberR, same⟩ := List.mem_map.mp member
      exact absurd (by simp [same]) (List.find?_eq_none.mp first r memberR)
  | some r =>
      obtain ⟨here, before, after, split, earlier⟩ := List.find?_eq_some_iff_append.mp first
      have same : r.id = id := by simpa using here
      refine ⟨r, before, after, rfl, same, split, fun other memberOther => ?_, ?_⟩
      · simpa using earlier other memberOther
      · rw [split, reverts, List.reverse_append, List.reverse_cons, List.append_assoc,
          List.map_append, ← same]
        rfl

/-- Reverting the changes of a run at once restores the table, provided that no row with
a key was changed again. -/
theorem update_reverts (covers : t.Covers) (run : Steps Replaces t batches t')
    (safe : batches.flatten.Pairwise fun row later => row.id = later.id →
      ∀ c ∈ t'.constraints, c.key later.old = none) :
    (t'.update (reverts batches.flatten)).2 = t := by
  have stored : ∀ entry ∈ reverts batches.flatten, ∃ row, t'.rows[entry.1]? = some row := by
    intro entry member
    obtain ⟨r, memberR, rfl⟩ := mem_reverts.mp member
    exact (isSome_of_run run r.id).mpr (stored_of_run run memberR)
  have present : t'.present (reverts batches.flatten) = reverts batches.flatten := by
    refine List.filter_eq_self.mpr fun entry member => ?_
    obtain ⟨row, found⟩ := stored entry member
    rw [ExtTreeMap.contains_eq_isSome_getElem?, found]
    rfl
  have replaced := t'.replaced_present (reverts batches.flatten)
  rw [present] at replaced
  have rows : KeyIndex.writeAll (reverts batches.flatten) t'.rows = t.rows := by
    refine ExtTreeMap.ext_getElem? fun id => ?_
    by_cases member : id ∈ batches.flatten.map RowChange.id
    · obtain ⟨r, before, after, first, same, split, earlier, reversed⟩ := reverts_split member
      rw [first_of_run run first, reversed]
      refine KeyIndex.getElem?_writeAll_append _ _ _ ?_ _
      rw [ids_reverts]
      intro memberBefore
      obtain ⟨other, memberOther, sameId⟩ := List.mem_map.mp memberBefore
      exact earlier other memberOther sameId
    · rw [KeyIndex.getElem?_writeAll_of_absent (mt (ids_reverts _ id).mp member),
        kept_of_run run member]
  have restored : ∀ c ∈ t.constraints,
      KeyIndex.Fits c.key (c.reindexAll batches).index (reverts batches.flatten)
          (t'.currents (reverts batches.flatten)) ∧
        KeyIndex.enterAll c.key (reverts batches.flatten) (KeyIndex.unindexAll c.key
          (t'.currents (reverts batches.flatten)) (c.reindexAll batches).index) = c.index := by
    intro c member
    have memberAfter : c.reindexAll batches ∈ t'.constraints := by
      rw [constraints_of_run run]
      exact List.mem_map_of_mem member
    have again := safe.imp fun ok sameId => by
      have none := ok sameId _ memberAfter
      rw [Constraint.key_reindexAll] at none
      exact none
    refine KeyIndex.restore_index { id | id ∈ batches.flatten.map RowChange.id } (covers c member)
      (residue_of_run _ run (fun r memberR => List.mem_map_of_mem memberR) member) replaced
      ?_ ?_ ?_ ?_ ?_
    · intro entry memberEntry
      exact (ids_reverts _ _).mp (List.mem_map_of_mem memberEntry)
    · exact fun id among => (ids_reverts _ id).mpr among
    · -- An entry with a key is the oldest of its row, which holds what the row was.
      intro entry memberEntry k holds
      obtain ⟨r, memberR, rfl⟩ := mem_reverts.mp memberEntry
      obtain ⟨oldest, before, after, first, same, split, earlier, _⟩ :=
        reverts_split (List.mem_map_of_mem memberR)
      rw [first_of_run run first]
      rw [split] at memberR again
      rcases List.mem_append.mp memberR with early | late
      · exact absurd rfl (earlier r early)
      · rcases List.mem_cons.mp late with rfl | late
        · rfl
        · have apart := (List.pairwise_cons.mp (List.pairwise_append.mp again).2.1).1 r late same
          rw [apart] at holds
          cases holds
    · intro id among row found
      obtain ⟨r, before, after, first, same, split, _, reversed⟩ := reverts_split among
      have oldest : row = r.old := Option.some.inj (found.symm.trans (first_of_run run first))
      rw [reversed, oldest]
      simp
    · rw [reverts, List.pairwise_map, List.pairwise_reverse]
      refine again.imp ?_
      intro row later ok sameId
      exact ok sameId.symm
  have fits : ¬ t'.Conflict (reverts batches.flatten) (t'.currents (reverts batches.flatten)) := by
    rintro ⟨d, member, misfit⟩
    rw [constraints_of_run run] at member
    obtain ⟨c, memberC, rfl⟩ := List.mem_map.mp member
    rw [Constraint.key_reindexAll] at misfit
    exact misfit (restored c memberC).1
  have cases_ := t'.update_cases (reverts batches.flatten)
  rw [present] at cases_
  rcases cases_ with ⟨equal, _⟩ | ⟨_, _, conflict⟩
  · rw [equal]
    have constraints : t'.constraints.map (fun c => c.reindex (reverts batches.flatten)
        (t'.currents (reverts batches.flatten))) = t.constraints := by
      rw [constraints_of_run run, List.map_map]
      refine (List.map_congr_left fun c member => ?_).trans (List.map_id' _)
      apply Constraint.eq_of_shape
      · rw [Function.comp_apply, Constraint.reindex, Constraint.shape_mapIndex,
          Constraint.shape_reindexAll]
      · rw [Function.comp_apply, Constraint.index_reindex, Constraint.key_reindexAll]
        exact (restored c member).2
    have schema := schema_of_run run
    obtain ⟨name, columns, _, _⟩ := t
    have sameName : t'.name = name := name_of_schema schema
    have sameColumns : t'.columns = columns := columns_of_schema schema
    rw [replace, constraints, rows, sameName, sameColumns]
  · exact absurd conflict fits

/-! ## Reverting an insert and a delete -/

/-- Two tables are equal if their schemas, constraints and rows are. -/
theorem eq_of_parts {u : Table} (schema : u.schema = t.schema)
    (constraints : u.constraints = t.constraints) (rows : u.rows = t.rows) : u = t := by
  obtain ⟨name, columns, _, _⟩ := t
  have sameName : u.name = name := name_of_schema schema
  have sameColumns : u.columns = columns := columns_of_schema schema
  obtain ⟨_, _, _, _⟩ := u
  cases sameName
  cases sameColumns
  cases constraints
  cases rows
  rfl

/-- Deleting an inserted row takes the insertion back. -/
theorem delete_insert {id : Nat} {values : Row} (fresh : t.rows[id]? = none)
    (success : t.insert id values = (.ok (), t')) : (t'.delete id).2 = t := by
  obtain ⟨rfl, free⟩ := Edit.insert_spec success
  have found : (t.write id values).rows[id]? = some values := by simp [write]
  refine eq_of_parts (by simp) ?_ ?_
  · rw [delete_of_found found]
    simp only [unindex, write, List.map_map]
    refine (List.map_congr_left fun c member => ?_).trans (List.map_id' _)
    apply Constraint.eq_of_shape
    · simp [Constraint.unindex, Constraint.enter]
    · rw [Function.comp_apply, Constraint.index_unindex, Constraint.index_enter,
        Constraint.key_enter]
      exact KeyIndex.unindex_enter (free c member)
  · refine ExtTreeMap.ext_getElem? fun other => ?_
    simp only [rows_delete, write, ExtTreeMap.getElem?_erase, ExtTreeMap.getElem?_insert]
    split
    · next same => rw [← LawfulEqOrd.eq_of_compare same, fresh]
    · rfl

/-- Inserting a deleted row takes the deletion back. -/
theorem insert_delete (covers : t.Covers) {id : Nat} {old : Row} (stored : t.rows[id]? = some old) :
    ((t.delete id).2.insert id old).2 = t := by
  have deleted := delete_of_found stored
  have free : ∀ c ∈ (t.delete id).2.constraints, ∀ k, c.key old = some k → c.index[k]? = none := by
    intro c member k holds
    rw [deleted] at member
    obtain ⟨d, memberD, rfl⟩ := List.mem_map.mp member
    rw [Constraint.key_unindex] at holds
    rw [Constraint.index_unindex, KeyIndex.getElem?_unindex, if_pos holds]
  rcases (t.delete id).2.insert_cases id old with ⟨equal, _⟩ | ⟨c, member, _, k, holds, _, entry⟩
  · rw [equal]
    refine eq_of_parts (by simp) ?_ ?_
    · rw [deleted]
      simp only [write, unindex, List.map_map]
      refine (List.map_congr_left fun c member => ?_).trans (List.map_id' _)
      apply Constraint.eq_of_shape
      · simp [Constraint.unindex, Constraint.enter]
      · rw [Function.comp_apply, Constraint.index_enter, Constraint.index_unindex,
          Constraint.key_unindex]
        exact KeyIndex.enter_unindex fun k holds => covers c member id old k stored holds
    · refine ExtTreeMap.ext_getElem? fun other => ?_
      simp only [write, rows_delete, ExtTreeMap.getElem?_insert, ExtTreeMap.getElem?_erase]
      split
      · next same => rw [← LawfulEqOrd.eq_of_compare same, stored]
      · rfl
  · rw [free c member k holds] at entry
    cases entry

end Table

/-! ## Undoing a run of edits -/

namespace Edit

variable {cat cat' : Catalog} {edits : List Edit}

/-- The edits that end a list with updates of one table. -/
theorem exists_updates (table : String) (edits : List Edit) :
    ∃ (before : List Edit) (batches : List (List RowChange)), edits = before ++ batches.map (Edit.update table) ∧
      ∀ rows, before.getLast? ≠ some (.update table rows) := by
  induction edits using List.reverseRecOn with
  | nil => exact ⟨[], [], rfl, by simp⟩
  | append_singleton edits last ih =>
      by_cases isUpdate : ∃ rows, last = .update table rows
      · obtain ⟨rows, rfl⟩ := isUpdate
        obtain ⟨before, batches, rfl, stop⟩ := ih
        exact ⟨before, batches ++ [rows], by simp, stop⟩
      · refine ⟨edits ++ [last], [], by simp, fun rows ends => isUpdate ⟨rows, ?_⟩⟩
        simpa using ends

/-- Updates of one table log their rows one after another. -/
theorem log_updates (table : String) (batches : List (List RowChange)) :
    log (batches.map (Edit.update table)) = batches.flatten.map (RowChange.entry table) := by
  induction batches with
  | nil => rfl
  | cons rows rest ih =>
      rw [List.map_cons, log_cons, ih, List.flatten_cons, List.map_append]
      rfl

/-- Updates of one table, as a run of replacements in that table. -/
theorem Run.table_run {table : String} {batches : List (List RowChange)} {t : Table}
    (run : Run cat (batches.map (Edit.update table)) cat') (found : cat.table table = some t) :
    ∃ t', Steps Table.Replaces t batches t' ∧ cat' = cat.setTable table t' := by
  induction batches generalizing cat t with
  | nil =>
      cases run
      exact ⟨t, .nil, (Catalog.setTable_self found).symm⟩
  | cons rows rest ih =>
      cases run with
      | cons head tail =>
          cases head with
          | update foundU replaces =>
              rw [found] at foundU
              cases foundU
              obtain ⟨t', steps, rfl⟩ := ih tail (Catalog.table_setTable_self _ _ _)
              exact ⟨t', .cons replaces steps, Catalog.setTable_setTable _ _ _ _⟩

/-- The newest entry of a run is one of its last edit. -/
theorem Run.newest {table : String} (run : Run cat edits cat')
    (stop : ∀ rows, edits.getLast? ≠ some (.update table rows)) (id : Nat) (values old : Row) :
    (log edits).reverse.head? ≠ some (.update table id values old) := by
  rcases List.eq_nil_or_concat edits with rfl | ⟨before, last, rfl⟩
  · simp
  · rw [List.concat_eq_append] at run stop ⊢
    obtain ⟨middle, _, lastStep⟩ := run.split
    cases lastStep with
    | cons applies _ =>
        cases applies with
        | insert found fresh width success => simp [entries]
        | delete found stored => simp [entries]
        | @update next rows t t' found replaces =>
            obtain ⟨others, r, rfl⟩ := (List.eq_nil_or_concat rows).resolve_left replaces.some_
            simp only [List.concat_eq_append, log_append, log_cons, log_nil, entries,
              List.map_append, List.map_cons, List.map_nil, List.append_nil, List.reverse_append,
              List.reverse_cons, List.reverse_nil, List.nil_append, List.cons_append,
              List.head?_cons, ne_eq, Option.some.injEq, RowChange.entry, Change.update.injEq]
            rintro ⟨rfl, _⟩
            exact stop _ (by simp; rfl)

end Edit

/-- The updates of a table are popped up to the first entry of another kind. -/
theorem popUpdates_entries (table : String) (rows : List RowChange) {rest : List Change}
    (stop : ∀ id values old, rest.head? ≠ some (.update table id values old)) :
    popUpdates table (rows.map (RowChange.entry table) ++ rest) =
      (rows.map fun r => (r.id, r.old), rest) := by
  induction rows with
  | nil =>
      cases rest with
      | nil => rfl
      | cons change rest =>
          cases change with
          | insert next id values => rfl
          | delete next id old => rfl
          | update next id values old =>
              have different : next ≠ table := by
                rintro rfl
                exact stop id values old rfl
              simp [popUpdates, different]
  | cons r rows ih => simp [popUpdates, RowChange.entry, ih]

/-- A part of a log without such a row has none, in every catalog of the schema. -/
theorem UndoSafe.transfer {cat cat' : Catalog} {log log' : List Change}
    (safe : UndoSafe cat' log') (schema : cat'.schema = cat.schema) (part : log <:+: log') :
    UndoSafe cat log := by
  intro table t found rows stretch
  obtain ⟨t', found', same⟩ := Catalog.table_of_schema schema found
  refine (safe table t' found' rows (stretch.trans part)).imp fun ok sameId => ?_
  exact (Table.forall_key_iff same fun key => key _ = none).mp (ok sameId)

/-- A log that changes no row twice is undo-safe. -/
theorem UndoSafe.of_nodup {cat : Catalog} {log : List Change}
    (distinct : (log.map Change.address).Nodup) : UndoSafe cat log := by
  intro table t found rows stretch
  have part := distinct.sublist (stretch.sublist.map Change.address)
  rw [List.map_map, List.Nodup, List.pairwise_map] at part
  refine part.imp fun different sameId => absurd ?_ different
  simp [RowChange.entry, Change.address, Change.table, Change.id, sameId]

section Rounds

variable {cat : Catalog} {table : String} {t t' : Table} (found : cat.table table = some t)
  (fuel : Nat) (stack : List Change)

include found

/-- Undoing an insertion goes on with the table before it. -/
theorem undoLoop_insert {id : Nat} {values : Row} (fresh : t.rows[id]? = none)
    (success : t.insert id values = (.ok (), t')) :
    undoLoop (fuel + 1) (.insert table id values :: stack) (cat.setTable table t') =
      undoLoop fuel stack cat := by
  rw [undoLoop, Catalog.modifyTable_of_found _ (Catalog.table_setTable_self _ _ _),
    Table.delete_insert fresh success, Catalog.setTable_setTable, Catalog.setTable_self found]

/-- Undoing a deletion goes on with the table before it. -/
theorem undoLoop_delete {id : Nat} {old : Row} (covers : t.Covers)
    (stored : t.rows[id]? = some old) :
    undoLoop (fuel + 1) (.delete table id old :: stack) (cat.setTable table (t.delete id).2) =
      undoLoop fuel stack cat := by
  rw [undoLoop, Catalog.modifyTable_of_found _ (Catalog.table_setTable_self _ _ _),
    Table.insert_delete covers stored, Catalog.setTable_setTable, Catalog.setTable_self found]

/-- One round reverts all the updates of one table on top of the stack. -/
theorem undoLoop_updates {batches : List (List RowChange)} (covers : t.Covers)
    (run : Steps Table.Replaces t batches t') (some_ : batches.flatten ≠ [])
    (safe : batches.flatten.Pairwise fun row later => row.id = later.id →
      ∀ c ∈ t'.constraints, c.key later.old = none)
    (stop : ∀ id values old, stack.head? ≠ some (.update table id values old)) :
    undoLoop (fuel + 1) ((batches.flatten.map (RowChange.entry table)).reverse ++ stack)
      (cat.setTable table t') = undoLoop fuel stack cat := by
  have reverted := Table.update_reverts covers run safe
  rw [Table.reverts] at reverted
  rw [← List.map_reverse]
  cases newest : batches.flatten.reverse with
  | nil => exact absurd (List.reverse_eq_nil_iff.mp newest) some_
  | cons r rest =>
      rw [newest, List.map_cons] at reverted
      rw [List.map_cons, List.cons_append, RowChange.entry, undoLoop,
        popUpdates_entries table rest stop]
      simp only
      rw [Catalog.modifyTable_of_found _ (Catalog.table_setTable_self _ _ _), reverted,
        Catalog.setTable_setTable, Catalog.setTable_self found]

end Rounds

/-- One round of the loop undoes the last edit, or all the updates of one table that the
edits end with. -/
theorem undoLoop_round {cat cat' : Catalog} {edits : List Edit} (covers : cat.Covers)
    (run : Edit.Run cat edits cat') (safe : UndoSafe cat' (Edit.log edits)) (some_ : edits ≠ []) :
    ∃ before last middle, edits = before ++ last ∧ last ≠ [] ∧ Edit.log last ≠ [] ∧
      Edit.Run cat before middle ∧ Edit.Run middle last cat' ∧
      ∀ fuel, undoLoop (fuel + 1) (Edit.log edits).reverse cat' =
        undoLoop fuel (Edit.log before).reverse middle := by
  obtain ⟨before, last, rfl⟩ := (List.eq_nil_or_concat edits).resolve_left some_
  rw [List.concat_eq_append] at run safe ⊢
  obtain ⟨middle, first, lastStep⟩ := run.split
  cases lastStep with
  | cons applies rest =>
  cases rest
  cases applies with
  | @insert table id values t t' found fresh width success =>
      refine ⟨before, _, middle, rfl, by simp, by simp [Edit.entries], first,
        .cons (.insert found fresh width success) .nil, fun fuel => ?_⟩
      rw [Edit.log_append, List.reverse_append]
      exact undoLoop_insert found fuel _ fresh success
  | @delete table id old t found stored =>
      refine ⟨before, _, middle, rfl, by simp, by simp [Edit.entries], first,
        .cons (.delete found stored) .nil, fun fuel => ?_⟩
      rw [Edit.log_append, List.reverse_append]
      exact undoLoop_delete found fuel _ (Edit.Run.covers first covers _ _ found) stored
  | @update table rows t t' found replaces =>
      obtain ⟨early, batches, split, stop⟩ :=
        Edit.exists_updates table (before ++ [.update table rows])
      rw [split] at run safe ⊢
      obtain ⟨start, firstRun, updates⟩ := run.split
      have nonempty : batches ≠ [] := by
        rintro rfl
        rw [List.map_nil, List.append_nil] at split
        exact stop rows (by rw [← split]; simp)
      -- The table exists where the updates start, since they only replace its rows.
      obtain ⟨u, foundU, _⟩ := Catalog.table_of_schema (Edit.Run.frame updates).1.symm
        (Catalog.table_setTable_self middle table t')
      obtain ⟨u', steps, final⟩ := Edit.Run.table_run updates foundU
      have flat : batches.flatten ≠ [] := by
        cases steps with
        | nil => exact absurd rfl nonempty
        | cons head _ => simp [head.some_]
      refine ⟨early, _, start, rfl, by simpa using nonempty, ?_, firstRun, updates, fun fuel => ?_⟩
      · rw [Edit.log_updates]
        simpa using flat
      · rw [Edit.log_append, List.reverse_append, Edit.log_updates, final]
        refine undoLoop_updates foundU fuel _ (Edit.Run.covers firstRun covers _ _ foundU) steps
          flat ?_ (Edit.Run.newest firstRun stop)
        refine safe table u' ?_ _ ?_
        · rw [final, Catalog.table_setTable_self]
        · rw [Edit.log_append, Edit.log_updates]
          exact (List.suffix_append _ _).isInfix

/-- Undoing the entries of a run of edits restores the catalog before it. -/
theorem undoLoop_run {cat cat' : Catalog} {edits : List Edit} (covers : cat.Covers)
    (run : Edit.Run cat edits cat') (safe : UndoSafe cat' (Edit.log edits)) {fuel : Nat}
    (enough : (Edit.log edits).length ≤ fuel) :
    undoLoop fuel (Edit.log edits).reverse cat' = cat := by
  induction fuel generalizing edits cat' with
  | zero =>
      have none : edits = [] := by
        by_contra some_
        obtain ⟨before, last, _, rfl, _, logged, _⟩ := undoLoop_round covers run safe some_
        rw [Edit.log_append, List.length_append] at enough
        exact logged (List.length_eq_zero_iff.mp (by omega))
      subst none
      cases run
      rfl
  | succ fuel ih =>
      by_cases none : edits = []
      · subst none
        cases run
        rfl
      · obtain ⟨before, last, middle, rfl, _, logged, first, rest, round⟩ :=
          undoLoop_round covers run safe none
        rw [round fuel]
        refine ih first ?_ ?_
        · refine safe.transfer (Edit.Run.frame rest).1 ?_
          rw [Edit.log_append]
          exact (List.prefix_append _ _).isInfix
        · rw [Edit.log_append, List.length_append] at enough
          have := List.length_pos_iff.mpr logged
          omega

/-- `undo` restores the transaction as it was before the edits that follow `keep`. -/
theorem undo_run {txn : Txn} {cat : Catalog} {edits : List Edit} {kept : List Change}
    (covers : cat.Covers) (run : Edit.Run cat edits txn.work)
    (logged : txn.log = kept ++ Edit.log edits) (safe : UndoSafe txn.work (Edit.log edits)) :
    undo txn kept.length = { txn with work := cat, log := kept } := by
  have dropped : txn.log.drop kept.length = Edit.log edits := by rw [logged, List.drop_left]
  have taken : txn.log.take kept.length = kept := by rw [logged, List.take_left]
  simp only [undo, dropped, taken, undoLoop_run covers run safe (Nat.le_refl _)]

end MockOracle
