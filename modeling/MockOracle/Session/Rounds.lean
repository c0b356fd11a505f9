import MockOracle.Session.Cascade

/-!
# The rounds of the enforcement come to an end

Each round looks at the entries that the round before has logged. A round over a window
without deletions logs nothing, and every deletion makes the number of rows smaller, so as
many rounds as there are rows, and two more, process every entry. `Pending` says of one
parent key that it is still held or that its removal is yet to be looked at; rounds keep
this true for as long as a child row references the key and is left alone.
-/

namespace MockOracle

open Std Semantics

/-! ## The number of rows -/

/-- Writing over a table that is there, as a change of every entry. -/
theorem Catalog.tables_setTable {cat : Catalog} {name : String} {t u : Table}
    (found : cat.table name = some t) : (cat.setTable name u).tables =
      cat.tables.map fun other w => if other = name then u else w := by
  refine ExtTreeMap.ext_getElem? fun other => ?_
  rw [ExtTreeMap.getElem?_map]
  have lookup := Catalog.table_setTable cat name other u
  unfold Catalog.table at lookup found
  rw [lookup]
  by_cases same : name = other
  · subst same
    simp [found]
  · simp [same, Ne.symm same]

theorem Catalog.rowCount_setTable {cat : Catalog} {name : String} {t u : Table}
    (found : cat.table name = some t) : (cat.setTable name u).rowCount =
      (cat.tables.toList.map fun entry =>
        if entry.1 = name then u.rows.size else entry.2.rows.size).sum := by
  rw [rowCount, tables_setTable found, ExtTreeMap.toList_map, List.map_map]
  congr 1
  refine List.map_congr_left fun entry _ => ?_
  simp only [Function.comp_apply]
  split <;> rfl

theorem Catalog.rowCount_le {cat : Catalog} {name : String} {t u : Table}
    (found : cat.table name = some t) (le : u.rows.size ≤ t.rows.size) :
    (cat.setTable name u).rowCount ≤ cat.rowCount := by
  rw [rowCount_setTable found, rowCount]
  refine List.sum_le_sum fun entry member => ?_
  split
  · next same =>
      have here : cat.table entry.1 = some entry.2 :=
        ExtTreeMap.mem_toList_iff_getElem?_eq_some.mp member
      rw [same, found] at here
      cases here
      exact le
  · exact Nat.le_refl _

theorem Catalog.rowCount_lt {cat : Catalog} {name : String} {t u : Table}
    (found : cat.table name = some t) (lt : u.rows.size < t.rows.size) :
    (cat.setTable name u).rowCount < cat.rowCount := by
  rw [rowCount_setTable found, rowCount]
  refine List.sum_lt_sum _ _ (fun entry member => ?_) ⟨(name, t), ?_, ?_⟩
  · split
    · next same =>
        have here : cat.table entry.1 = some entry.2 :=
          ExtTreeMap.mem_toList_iff_getElem?_eq_some.mp member
        rw [same, found] at here
        cases here
        exact lt.le
    · exact Nat.le_refl _
  · exact ExtTreeMap.mem_toList_iff_getElem?_eq_some.mpr found
  · rw [if_pos rfl]
    exact lt

theorem Table.size_delete {t : Table} {id : Nat} {old : Row} (stored : t.rows[id]? = some old) :
    (t.delete id).2.rows.size < t.rows.size := by
  have member : id ∈ t.rows := by
    rw [ExtTreeMap.mem_iff_isSome_getElem?, stored]
    rfl
  rw [Table.rows_delete, ExtTreeMap.size_erase, if_pos (ExtTreeMap.mem_iff_contains.mp member)]
  have positive : 0 < t.rows.size := by
    refine Nat.pos_of_ne_zero fun zero => ?_
    have empty : t.rows = ∅ := ExtTreeMap.isEmpty_iff.mp (by
      rw [ExtTreeMap.isEmpty_eq_size_beq_zero, zero]
      rfl)
    rw [empty] at member
    exact ExtTreeMap.not_mem_empty member
  omega

theorem Table.Replaces.size {t t' : Table} {rows : List RowChange} (replaces : t.Replaces rows t') :
    t'.rows.size = t.rows.size := by
  have written : ∀ (changes : List (Nat × Row)) (rows : Rows),
      (∀ change ∈ changes, change.1 ∈ rows) →
      (KeyIndex.writeAll changes rows).size = rows.size := by
    intro changes
    induction changes with
    | nil => exact fun _ _ => rfl
    | cons change rest ih =>
        intro rows present
        have here := present change List.mem_cons_self
        have later := ih (rows.insert change.1 change.2) fun other member => by
          rw [ExtTreeMap.mem_insert]
          exact Or.inr (present other (List.mem_cons_of_mem _ member))
        rw [ExtTreeMap.size_insert, if_pos (ExtTreeMap.mem_iff_contains.mp here)] at later
        exact later
  rw [replaces.rows_eq]
  refine written _ _ fun change member => ?_
  obtain ⟨r, among, rfl⟩ := List.mem_map.mp member
  rw [ExtTreeMap.mem_iff_isSome_getElem?]
  have stored := replaces.stored r among
  rw [RowChange.change, stored]
  rfl

namespace Edit

variable {cat cat' : Catalog} {edit : Edit} {edits : List Edit}

/-- No row is inserted. -/
def InsertFree (edits : List Edit) : Prop := ∀ table id values, Edit.insert table id values ∉ edits

/-- Deleting a row makes the catalog smaller and updating does not make it larger. -/
theorem Applies.rowCount (applies : Applies cat edit cat') :
    match edit with
    | .insert _ _ _ => True
    | .delete _ _ _ => cat'.rowCount < cat.rowCount
    | .update _ _ => cat'.rowCount ≤ cat.rowCount := by
  cases applies with
  | insert found fresh width success => trivial
  | delete found stored => exact Catalog.rowCount_lt found (Table.size_delete stored)
  | update found replaces => exact Catalog.rowCount_le found replaces.size.le

theorem Run.rowCount (run : Run cat edits cat') (free : InsertFree edits) :
    cat'.rowCount ≤ cat.rowCount ∧
      ((∃ table id old, Edit.delete table id old ∈ edits) → cat'.rowCount < cat.rowCount) := by
  induction run with
  | nil => exact ⟨Nat.le_refl _, by simp⟩
  | @cons first edit second rest last head tail ih =>
      obtain ⟨le, lt⟩ := ih fun table id values member =>
        free table id values (List.mem_cons_of_mem _ member)
      have step := head.rowCount
      cases edit with
      | insert table id values => exact absurd List.mem_cons_self (free table id values)
      | delete table id old =>
          simp only at step
          exact ⟨by omega, fun _ => by omega⟩
      | update table rows =>
          simp only at step
          refine ⟨by omega, fun ⟨table, id, old, member⟩ => ?_⟩
          rcases List.mem_cons.mp member with here | later
          · cases here
          · have := lt ⟨table, id, old, later⟩
            omega

end Edit

theorem ForeignKeyRef.Cascades.insertFree {f : ForeignKeyRef} {cat : Catalog}
    {window : List Change} {edits : List Edit} (cascades : f.Cascades cat window edits) :
    Edit.InsertFree edits := by
  intro table id values member
  cases cascades with
  | idle none => simp at member
  | cascade action => simp at member
  | setNull action found nullable =>
      unfold Txn.replacing at member
      split at member <;> simp at member

/-! ## Enough rounds -/

theorem Edit.delete_mem_log {edits : List Edit} {table : String} {id : Nat} {old : Row}
    (member : Change.delete table id old ∈ Edit.log edits) :
    Edit.delete table id old ∈ edits := by
  obtain ⟨edit, among, entry⟩ := List.mem_flatMap.mp member
  cases edit with
  | insert next id values => cases List.mem_singleton.mp entry
  | delete next id old =>
      cases List.mem_singleton.mp entry
      exact among
  | update next rows =>
      obtain ⟨r, _, same⟩ := List.mem_map.mp entry
      cases same

/-- A round grows the transaction; it logs something only if it looked at a deletion. -/
theorem enforceRound_grows (user : String) {window : List Change} {fks : List ForeignKeyRef}
    {txn : Txn} (covers : txn.work.Covers) :
    ∃ edits, txn.Grows edits (enforceRound user window fks txn).2 ∧ Edit.InsertFree edits ∧
      (edits ≠ [] → HasDelete window) := by
  induction fks generalizing txn with
  | nil => exact ⟨[], .refl txn, by simp [Edit.InsertFree], by simp⟩
  | cons f fks ih =>
      unfold enforceRound
      rcases enforceForeignKey_cases covers with ⟨e, failed⟩ | ⟨success, _, edits, cascades, grows⟩
      · rw [failed]
        exact ⟨[], .refl txn, by simp [Edit.InsertFree], by simp⟩
      · obtain ⟨more, rest, free, deleted⟩ := ih (grows.covers covers)
        have looked : edits ≠ [] → HasDelete window := by
          intro some_
          by_contra none
          exact some_ (cascades.eq_nil none)
        refine ⟨edits ++ more, ?_, ?_, ?_⟩
        · split
          · next txn' equal =>
              rw [equal] at rest grows
              exact grows.trans rest
          · next e txn' equal =>
              rw [equal] at success
              cases success
        · intro table id values member
          rcases List.mem_append.mp member with here | later
          · exact cascades.insertFree table id values here
          · exact free table id values later
        · intro some_
          by_cases here : edits = []
          · exact deleted fun none => some_ (by rw [here, none]; rfl)
          · exact looked here

end MockOracle
