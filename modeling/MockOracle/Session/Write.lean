import MockOracle.Session.Txn

/-!
# The ways statements change rows

INSERT, UPDATE, DELETE and the cascades of foreign keys change the transaction through
the three functions of this module only. Each changes the private catalog and appends to
the log. `Txn.Grows` states what they have in common: the catalog moves by a run of edits
and the log grows by exactly the entries of these edits.
-/

namespace MockOracle

open Std Semantics

/-! ## The code -/

/-- ORA-00001, a key that is taken. -/
def uniqueViolation (user constraint : String) : OraError :=
  ⟨1, "unique constraint (" ++ user ++ "." ++ constraint ++ ") violated"⟩

namespace Txn

/-- Insert rows under ids drawn from the counter `next`, stopping at a duplicate key. The
id of the refused row has been drawn. -/
def insertRows (user table : String) : List Row → Nat → Txn → Except OraError Unit × Nat × Txn
  | [], next, txn => (.ok (), next, txn)
  | values :: rest, next, txn =>
      match txn.work.table table with
      | none => (.ok (), next, txn)
      | some t =>
          match t.insert next values with
          | (.error c, t) =>
              (.error (uniqueViolation user c), next + 1,
                { txn with work := txn.work.setTable table t })
          | (.ok _, t) =>
              insertRows user table rest (next + 1)
                { txn with
                  work := txn.work.setTable table t
                  log := txn.log ++ [.insert table next values] }

/-- Replace rows all at once, and log them if that succeeds. -/
def updateRows (user table : String) (rows : List RowChange) (txn : Txn) :
    Except OraError Unit × Txn :=
  match txn.work.table table with
  | none => (.ok (), txn)
  | some t =>
      match t.update (rows.map RowChange.change) with
      | (.error c, t) =>
          (.error (uniqueViolation user c), { txn with work := txn.work.setTable table t })
      | (.ok _, t) =>
          (.ok (), { txn with
            work := txn.work.setTable table t
            log := txn.log ++ rows.map (RowChange.entry table) })

/-- Delete rows one by one. -/
def deleteRows (table : String) : List (Nat × Row) → Txn → Txn
  | [], txn => txn
  | (id, old) :: rest, txn =>
      deleteRows table rest
        { txn with
          work := txn.work.modifyTable table fun t => (t.delete id).2
          log := txn.log ++ [.delete table id old] }

/-! ## What they have in common -/

/-- The transaction after some edits, all of them logged. -/
structure Grows (txn : Txn) (edits : List Edit) (txn' : Txn) : Prop where
  run : Edit.Run txn.work edits txn'.work
  logged : txn'.log = txn.log ++ Edit.log edits
  base : txn'.baseVersion = txn.baseVersion
  origin : txn'.origin = txn.origin

namespace Grows

variable {txn txn' txn'' : Txn} {edits more : List Edit}

/-- No edits grow a transaction by nothing. -/
theorem refl (txn : Txn) : txn.Grows [] txn := ⟨.nil, by simp, rfl, rfl⟩

/-- Edits one after the other grow a transaction by all of them. -/
theorem trans (first : txn.Grows edits txn') (second : txn'.Grows more txn'') :
    txn.Grows (edits ++ more) txn'' where
  run := first.run.append second.run
  logged := by rw [second.logged, first.logged, Edit.log_append, List.append_assoc]
  base := second.base.trans first.base
  origin := second.origin.trans first.origin

/-- Edits keep the schema. -/
theorem schema (grows : txn.Grows edits txn') : txn'.work.schema = txn.work.schema :=
  (Edit.Run.frame grows.run).1

end Grows

variable {txn : Txn} {table : String} {t : Table}

/-- The edit that replaces rows, if there are any to replace. -/
def replacing (table : String) (rows : List RowChange) : List Edit :=
  if rows = [] then [] else [.update table rows]

/-- Replacing rows logs a change of each. -/
@[simp] theorem log_replacing (table : String) (rows : List RowChange) :
    Edit.log (replacing table rows) = rows.map (RowChange.entry table) := by
  unfold replacing
  split
  · next none => simp [none]
  · simp [Edit.entries]

/-- Replacing rows names no row twice. -/
theorem nodup_replacing {cat cat' : Catalog} {table : String} {rows : List RowChange}
    (run : Edit.Run cat (replacing table rows) cat') :
    ((Edit.log (replacing table rows)).map Change.address).Nodup := by
  by_cases none : rows = []
  · simp [replacing, none]
  · rw [replacing, if_neg none] at run ⊢
    cases run with
    | cons head _ =>
        rw [Edit.log_cons, Edit.log_nil, List.append_nil]
        exact head.nodup

/-- Updating no rows changes nothing. -/
theorem update_nil (t : Table) : t.update [] = (.ok (), t) := by
  rcases t.update_cases [] with ⟨equal, _⟩ | ⟨_, _, c, _, misfit⟩
  · rw [equal]
    have same : t.constraints.map (fun c => c.reindex [] []) = t.constraints :=
      List.map_id'' (fun c => c.mapIndex_eq_self rfl) _
    simp only [Table.present, Table.currents, List.filter_nil, List.map_nil, Table.replace, same]
    rfl
  · exact absurd (by simp [KeyIndex.Fits, Table.present, KeyIndex.clashes]) misfit

/-- An update that succeeds replaces the rows. -/
theorem updateRows_ok (user : String) (found : txn.work.table table = some t)
    {rows : List RowChange} (distinct : (rows.map RowChange.id).Nodup)
    (stored : ∀ r ∈ rows, t.rows[r.id]? = some r.old)
    (width : ∀ r ∈ rows, r.values.length = r.old.length)
    (success : (txn.updateRows user table rows).1 = .ok ()) :
    txn.Grows (replacing table rows) (txn.updateRows user table rows).2 := by
  unfold updateRows at success ⊢
  rw [found] at success ⊢
  simp only at success ⊢
  split at success
  · cases success
  · next t' updated =>
      by_cases none : rows = []
      · subst none
        rw [List.map_nil, update_nil] at updated
        cases updated
        refine ⟨?_, by simp, rfl, rfl⟩
        simp only [replacing, if_true]
        rw [Catalog.setTable_self found]
        exact .nil
      · refine ⟨?_, by simp, rfl, rfl⟩
        rw [replacing, if_neg none]
        exact .cons (.update found ⟨none, distinct, stored, width, updated⟩) .nil

/-- A replacement that is refused leaves the rows as they were, whatever the indexes hold. -/
theorem updateRows_error (user : String) (found : txn.work.table table = some t)
    {rows : List RowChange} (stored : ∀ r ∈ rows, t.rows[r.id]? = some r.old) {e : OraError}
    (failed : (txn.updateRows user table rows).1 = .error e) :
    (txn.updateRows user table rows).2.log = txn.log ∧
      ∀ a, (txn.updateRows user table rows).2.work.rowAt a = txn.work.rowAt a := by
  unfold updateRows at failed ⊢
  rw [found] at failed ⊢
  simp only at failed ⊢
  split at failed
  · next c t' refused =>
      refine ⟨rfl, fun a => ?_⟩
      have same : t'.rows = t.rows := by
        have outcome := t.update_cases (rows.map RowChange.change)
        rw [refused, Table.present_of_stored fun r member => ⟨r.old, stored r member⟩,
          Table.currents_of_stored stored] at outcome
        obtain ⟨equal, _⟩ | ⟨_, equal, _⟩ := outcome
        · cases congrArg Prod.fst equal
        · cases equal
          refine KeyIndex.writeAll_stored fun entry member => ?_
          rw [List.map_map, List.zip_map', List.mem_map] at member
          obtain ⟨r, among, rfl⟩ := member
          exact stored r among
      refine (congrFun (Edit.rowAt_setTable_eq (fun _ _ => rfl) fun id => ?_) a)
      rw [same, Edit.rowAt_of_found found]
  · cases failed

/-- An update replaces the rows or, refused, changes nothing. -/
theorem updateRows_spec (user : String) (found : txn.work.table table = some t) (covers : t.Covers)
    {rows : List RowChange} (distinct : (rows.map RowChange.id).Nodup)
    (stored : ∀ r ∈ rows, t.rows[r.id]? = some r.old)
    (width : ∀ r ∈ rows, r.values.length = r.old.length) :
    ((txn.updateRows user table rows).1 = .ok () ∧
      txn.Grows (replacing table rows) (txn.updateRows user table rows).2) ∨
    ∃ e, txn.updateRows user table rows = (.error e, txn) := by
  cases outcome : (txn.updateRows user table rows).1 with
  | ok _ => exact Or.inl ⟨rfl, updateRows_ok user found distinct stored width outcome⟩
  | error e =>
      refine Or.inr ?_
      unfold updateRows at outcome ⊢
      rw [found] at outcome ⊢
      simp only at outcome ⊢
      split at outcome
      · next c t' failed =>
          have same : t' = t := by
            have left := Table.update_error covers (congrArg Prod.fst failed)
            rw [failed] at left
            exact left
          rw [same, Catalog.setTable_self found]
          exact ⟨_, rfl⟩
      · cases outcome

/-- Deleting rows grows the transaction by their deletions. -/
theorem deleteRows_grows {rows : List (Nat × Row)} (found : txn.work.table table = some t)
    (distinct : (rows.map Prod.fst).Nodup) (stored : ∀ row ∈ rows, t.rows[row.1]? = some row.2) :
    txn.Grows (rows.map fun row => .delete table row.1 row.2) (txn.deleteRows table rows) := by
  induction rows generalizing txn t with
  | nil => exact .refl txn
  | cons row rest ih =>
      obtain ⟨id, old⟩ := row
      have here := stored (id, old) List.mem_cons_self
      rw [List.map_cons, List.nodup_cons] at distinct
      have first : txn.Grows [.delete table id old]
          { txn with
            work := txn.work.modifyTable table fun t => (t.delete id).2
            log := txn.log ++ [.delete table id old] } := by
        refine ⟨?_, by simp [Edit.entries], rfl, rfl⟩
        simp only [Catalog.modifyTable_of_found _ found]
        exact .cons (.delete found here) .nil
      have foundNext : (txn.work.modifyTable table fun t => (t.delete id).2).table table =
          some (t.delete id).2 := by
        rw [Catalog.modifyTable_of_found _ found]
        exact Catalog.table_setTable_self _ _ _
      refine first.trans (ih foundNext distinct.2 ?_)
      · intro row member
        have apart : id ≠ row.1 := fun same => distinct.1 (List.mem_map.mpr ⟨row, member, same.symm⟩)
        rw [Table.rows_delete, ExtTreeMap.getElem?_erase]
        simp [apart, stored row (List.mem_cons_of_mem _ member)]

/-- The edits of an INSERT: rows under consecutive unused ids. -/
theorem insertRows_grows (user : String) {rows : List Row} {next : Nat} (found : txn.work.table table = some t)
    (sound : t.Sound next table) (width : ∀ row ∈ rows, row.length = t.columns.length) :
    ∃ inserted : List (Nat × Row),
      txn.Grows (inserted.map fun row => .insert table row.1 row.2)
        (txn.insertRows user table rows next).2.2 ∧
      next ≤ (txn.insertRows user table rows next).2.1 ∧
      (∀ row ∈ inserted, next ≤ row.1 ∧ row.1 < (txn.insertRows user table rows next).2.1) ∧
      inserted.map Prod.snd <+: rows ∧
      ((txn.insertRows user table rows next).1 = .ok () → inserted.map Prod.snd = rows) := by
  induction rows generalizing txn t next with
  | nil => exact ⟨[], .refl txn, Nat.le_refl _, by simp, List.prefix_refl _, fun _ => rfl⟩
  | cons values rest ih =>
      unfold insertRows
      rw [found]
      simp only
      have fits := width values List.mem_cons_self
      split
      · next c t' failed =>
          have same : t' = t := by
            rcases t.insert_cases next values with ⟨equal, _⟩ | ⟨_, _, equal, _⟩
            · rw [equal] at failed
              cases failed
            · rw [equal] at failed
              exact (congrArg Prod.snd failed).symm
          refine ⟨[], ?_, by simp, by simp, List.nil_prefix, by simp⟩
          rw [same, Catalog.setTable_self found]
          exact .refl txn
      · next t' success =>
          have first : txn.Grows [.insert table next values]
              { txn with
                work := txn.work.setTable table t'
                log := txn.log ++ [.insert table next values] } :=
            ⟨.cons (.insert found (sound.fresh (Nat.le_refl _)) fits success) .nil,
              by simp [Edit.entries], rfl, rfl⟩
          have soundNext : t'.Sound (next + 1) table := by
            have inserted := (sound.mono (Nat.le_succ next)).insert (Nat.lt_succ_self next) fits
            rw [success] at inserted
            exact inserted
          have columns : t'.columns = t.columns := by
            have schema := t.schema_insert next values
            rw [success] at schema
            exact Table.columns_of_schema schema
          have widthNext : ∀ row ∈ rest, row.length = t'.columns.length := by
            rw [columns]
            exact fun row member => width row (List.mem_cons_of_mem _ member)
          have foundNext := Catalog.table_setTable_self txn.work table t'
          obtain ⟨inserted, grows, le, ids, part, all⟩ := @ih
            { txn with
              work := txn.work.setTable table t'
              log := txn.log ++ [.insert table next values] }
            t' (next + 1) foundNext soundNext widthNext
          refine ⟨(next, values) :: inserted, first.trans grows, by omega, ?_, ?_, ?_⟩
          · intro row member
            rcases List.mem_cons.mp member with rfl | later
            · exact ⟨Nat.le_refl _, by omega⟩
            · have := ids row later
              omega
          · simpa using part
          · intro success
            simpa using all success

end Txn

end MockOracle
