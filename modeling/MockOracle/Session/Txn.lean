import MockOracle.Catalog.Schema
import MockOracle.Semantics.Execution
import MockOracle.Semantics.Overlay

/-!
# Transactions and their logs

A transaction keeps a private copy of the catalog and a log of every row it changed. The
code never changes a row of the copy other than by one of three edits, each of which
also logs what it did: inserting a row under an unused id, deleting a row, or replacing
several rows of one table at once. An `Edit` is one of these; `Edit.Applies` is what it
does to the catalog, and `Edit.entries` what it logs. What later modules prove about
transactions is proved about runs of edits.
-/

namespace MockOracle

open Std Semantics

/-- One change in a transaction, replayed onto the committed state at COMMIT. -/
inductive Change where
  | insert (table : String) (id : Nat) (values : Row)
  | update (table : String) (id : Nat) (values old : Row)
  | delete (table : String) (id : Nat) (old : Row)
  deriving DecidableEq, Repr

/-- A transaction: the private catalog it works on, and what it has changed there. -/
structure Txn where
  /-- The committed version this transaction started from. -/
  baseVersion : Nat
  /-- The committed state plus this transaction's changes. -/
  work : Catalog
  log : List Change
  /-- The committed state this transaction was cloned from. A history variable for the
  statements about transactions: the code does not keep it and no operation reads it. -/
  origin : Catalog

/-- A transaction that starts from a committed state. -/
def Txn.start (state : Catalog) : Txn := ⟨state.version, state, [], state⟩

/-- A row is addressed by its table's name and its id. -/
abbrev Address := String × Nat

/-- The row at an address. -/
def Catalog.rowAt (cat : Catalog) (a : Address) : Option Row := cat.row a.1 a.2

namespace Change

/-- The table of a change. -/
def table : Change → String
  | insert table _ _ => table
  | update table _ _ _ => table
  | delete table _ _ => table

/-- The row id of a change. -/
def id : Change → Nat
  | insert _ id _ => id
  | update _ id _ _ => id
  | delete _ id _ => id

/-- Where a change is. -/
def address (change : Change) : Address := (change.table, change.id)

/-- The row a change leaves behind. -/
def image : Change → Option Row
  | insert _ _ values => some values
  | update _ _ values _ => some values
  | delete _ _ _ => none

/-- The row a change replaces. -/
def old : Change → Option Row
  | insert _ _ _ => none
  | update _ _ _ old => some old
  | delete _ _ old => some old

/-- A change as a write to the row store. -/
def write (change : Change) : Address × Option Row := (change.address, change.image)

/-- The rows a change carries: what it writes and what it replaced. -/
def carried : Change → List Row
  | insert _ _ values => [values]
  | update _ _ values old => [values, old]
  | delete _ _ old => [old]

end Change

/-- One row of an update, with its values before. -/
structure RowChange where
  id : Nat
  values : Row
  old : Row
  deriving DecidableEq, Repr

namespace RowChange

/-- The log entry of a row of an update. -/
def entry (table : String) (r : RowChange) : Change := .update table r.id r.values r.old

/-- The row change as `Table.update` takes it. -/
def change (r : RowChange) : Nat × Row := (r.id, r.values)

end RowChange

/-! ## Edits -/

/-- What one step of a statement does to a table, as the table's own operations do it. -/
inductive Edit where
  | insert (table : String) (id : Nat) (values : Row)
  | delete (table : String) (id : Nat) (old : Row)
  | update (table : String) (rows : List RowChange)

namespace Edit

/-- The table of an edit. -/
def table : Edit → String
  | insert table _ _ => table
  | delete table _ _ => table
  | update table _ => table

/-- What an edit appends to the log. -/
def entries : Edit → List Change
  | insert table id values => [.insert table id values]
  | delete table id old => [.delete table id old]
  | update table rows => rows.map (RowChange.entry table)

/-- What several edits append to the log. -/
def log (edits : List Edit) : List Change := edits.flatMap entries

/-- No edits log nothing. -/
@[simp] theorem log_nil : log [] = [] := rfl

/-- An edit is logged in front of those after it. -/
@[simp] theorem log_cons (edit : Edit) (edits : List Edit) :
    log (edit :: edits) = edit.entries ++ log edits := rfl

/-- Edits one after another log their entries one after another. -/
@[simp] theorem log_append (edits more : List Edit) :
    log (edits ++ more) = log edits ++ log more := List.flatMap_append

end Edit

namespace Table

/-- Several rows of a table are replaced at once. -/
structure Replaces (t : Table) (rows : List RowChange) (t' : Table) : Prop where
  some_ : rows ≠ []
  distinct : (rows.map RowChange.id).Nodup
  stored : ∀ r ∈ rows, t.rows[r.id]? = some r.old
  width : ∀ r ∈ rows, r.values.length = r.old.length
  success : t.update (rows.map RowChange.change) = (.ok (), t')

variable {t t' : Table} {rows : List RowChange}

/-- Rows that are there are the ones that an update finds. -/
theorem present_of_stored (stored : ∀ r ∈ rows, ∃ old, t.rows[r.id]? = some old) :
    t.present (rows.map RowChange.change) = rows.map RowChange.change := by
  refine List.filter_eq_self.mpr fun change member => ?_
  obtain ⟨r, memberR, rfl⟩ := List.mem_map.mp member
  obtain ⟨old, found⟩ := stored r memberR
  rw [ExtTreeMap.contains_eq_isSome_getElem?, RowChange.change, found]
  rfl

/-- The rows that an update finds have the values they are stored with. -/
theorem currents_of_stored (stored : ∀ r ∈ rows, t.rows[r.id]? = some r.old) :
    t.currents (rows.map RowChange.change) = rows.map RowChange.old := by
  rw [currents, List.map_map]
  refine List.map_congr_left fun r member => ?_
  rw [Function.comp_apply, RowChange.change, ExtTreeMap.getD_eq_getD_getElem?, stored r member]
  rfl

/-- What replacing rows does, and that the new keys were free. -/
theorem Replaces.spec (replaces : t.Replaces rows t') :
    t' = t.replace (rows.map RowChange.change) (rows.map RowChange.old) ∧
      ¬ t.Conflict (rows.map RowChange.change) (rows.map RowChange.old) := by
  have cases_ := t.update_cases (rows.map RowChange.change)
  rw [present_of_stored fun r member => ⟨r.old, replaces.stored r member⟩,
    currents_of_stored replaces.stored, replaces.success] at cases_
  rcases cases_ with ⟨equal, free⟩ | ⟨_, equal, _⟩
  · exact ⟨congrArg Prod.snd equal, free⟩
  · cases congrArg Prod.fst equal

/-- Replaced rows leave what `Table.update` leaves. -/
theorem Replaces.outcome (replaces : t.Replaces rows t') :
    t' = (t.update (rows.map RowChange.change)).2 := by rw [replaces.success]

/-- Replaced rows were there with the values before. -/
theorem Replaces.replaced (replaces : t.Replaces rows t') :
    KeyIndex.Replaced t.rows (rows.map RowChange.change) (rows.map RowChange.old) := by
  rw [KeyIndex.Replaced, List.forall₂_map_left_iff, List.forall₂_map_right_iff, List.forall₂_same]
  exact replaces.stored

/-- No row is replaced twice at once. -/
theorem Replaces.nodup (replaces : t.Replaces rows t') :
    ((rows.map RowChange.change).map Prod.fst).Nodup := by
  rw [List.map_map]
  exact replaces.distinct

/-- Replacing rows keeps the schema. -/
theorem Replaces.schema (replaces : t.Replaces rows t') : t'.schema = t.schema := by
  rw [replaces.spec.1, schema_replace]

/-- Replacing rows keeps the indexes covering. -/
theorem Replaces.covers (replaces : t.Replaces rows t')
    (covers : t.Covers) : t'.Covers := by
  rw [replaces.spec.1]
  exact covers.replace replaces.replaced replaces.spec.2

/-- Replacing rows writes them into the row store. -/
theorem Replaces.rows_eq (replaces : t.Replaces rows t') :
    t'.rows = KeyIndex.writeAll (rows.map RowChange.change) t.rows := by
  rw [replaces.spec.1]
  rfl

/-- A row that is not replaced stays. -/
theorem Replaces.kept (replaces : t.Replaces rows t') {id : Nat}
    (absent : id ∉ rows.map RowChange.id) : t'.rows[id]? = t.rows[id]? := by
  rw [replaces.rows_eq]
  refine KeyIndex.getElem?_writeAll_of_absent ?_
  rw [List.map_map]
  exact absent

/-- A replaced row has its new values. -/
theorem Replaces.written (replaces : t.Replaces rows t') {r : RowChange} (member : r ∈ rows) :
    t'.rows[r.id]? = some r.values := by
  rw [replaces.rows_eq]
  refine KeyIndex.getElem?_writeAll_of_mem _ replaces.nodup ?_
  exact List.mem_map_of_mem member

/-- Replacing rows removes none and adds none. -/
theorem Replaces.isSome_iff (replaces : t.Replaces rows t') (id : Nat) :
    (∃ row, t'.rows[id]? = some row) ↔ ∃ row, t.rows[id]? = some row := by
  by_cases changed : id ∈ rows.map RowChange.id
  · obtain ⟨r, member, rfl⟩ := List.mem_map.mp changed
    exact ⟨fun _ => ⟨r.old, replaces.stored r member⟩, fun _ => ⟨r.values, replaces.written member⟩⟩
  · rw [replaces.kept changed]

end Table

/-- The tables of a catalog have indexes that cover their rows. -/
def Catalog.Covers (cat : Catalog) : Prop := ∀ name t, cat.table name = some t → t.Covers

namespace Edit

/-- The effect of an edit on a catalog. -/
inductive Applies : Catalog → Edit → Catalog → Prop where
  | insert {cat : Catalog} {table : String} {id : Nat} {values : Row} {t t' : Table}
      (found : cat.table table = some t) (fresh : t.rows[id]? = none)
      (width : values.length = t.columns.length) (success : t.insert id values = (.ok (), t')) :
      Applies cat (.insert table id values) (cat.setTable table t')
  | delete {cat : Catalog} {table : String} {id : Nat} {old : Row} {t : Table}
      (found : cat.table table = some t) (stored : t.rows[id]? = some old) :
      Applies cat (.delete table id old) (cat.setTable table (t.delete id).2)
  | update {cat : Catalog} {table : String} {rows : List RowChange} {t t' : Table}
      (found : cat.table table = some t) (replaces : t.Replaces rows t') :
      Applies cat (.update table rows) (cat.setTable table t')

/-- A run of edits. -/
abbrev Run : Catalog → List Edit → Catalog → Prop := Steps Applies

variable {cat cat' : Catalog} {edit : Edit} {edits : List Edit}

/-- What a successful insert does, and that the new keys were free. -/
theorem insert_spec {t t' : Table} {id : Nat} {values : Row}
    (success : t.insert id values = (.ok (), t')) :
    t' = t.write id values ∧
      ∀ c ∈ t.constraints, ∀ k, c.key values = some k → c.index[k]? = none := by
  rcases t.insert_cases id values with ⟨equal, free⟩ | ⟨_, _, equal, _⟩
  · rw [success] at equal
    exact ⟨congrArg Prod.snd equal, free⟩
  · rw [success] at equal
    cases congrArg Prod.fst equal

/-- An edit changes the rows of one table. -/
theorem Applies.table_eq (applies : Applies cat edit cat') :
    ∃ t t', cat.table edit.table = some t ∧ t'.schema = t.schema ∧
      cat' = cat.setTable edit.table t' := by
  cases applies with
  | insert found fresh width success =>
      refine ⟨_, _, found, ?_, rfl⟩
      rw [(insert_spec success).1, Table.schema_write]
  | delete found stored => exact ⟨_, _, found, Table.schema_delete _, rfl⟩
  | update found replaces => exact ⟨_, _, found, replaces.schema, rfl⟩

/-- The parts of a catalog that no edit touches. -/
theorem Applies.frame (applies : Applies cat edit cat') :
    cat'.schema = cat.schema ∧ cat'.sequences = cat.sequences ∧ cat'.routines = cat.routines ∧
      cat'.version = cat.version := by
  obtain ⟨t, t', found, same, rfl⟩ := applies.table_eq
  exact ⟨Catalog.schema_setTable found same, rfl, rfl, rfl⟩

/-- A run of edits changes tables only, and of these their rows and indexes only. -/
theorem Run.frame (run : Run cat edits cat') :
    cat'.schema = cat.schema ∧ cat'.sequences = cat.sequences ∧ cat'.routines = cat.routines ∧
      cat'.version = cat.version := by
  apply run.relates (fun _ => ⟨rfl, rfl, rfl, rfl⟩)
    (fun first second => ⟨second.1.trans first.1, second.2.1.trans first.2.1,
      second.2.2.1.trans first.2.2.1, second.2.2.2.trans first.2.2.2⟩)
  exact fun step => step.frame

/-- An edit keeps the indexes covering. -/
theorem Applies.covers (applies : Applies cat edit cat') (covers : cat.Covers) : cat'.Covers := by
  have set : ∀ {name : String} {u : Table}, u.Covers → (cat.setTable name u).Covers := by
    intro name u coversU other w found
    rw [Catalog.table_setTable] at found
    split at found
    · cases found
      exact coversU
    · exact covers other w found
  cases applies with
  | @insert table id values t t' found fresh width success =>
      have inserted := (covers _ _ found).insert id values
      rw [success] at inserted
      exact set inserted
  | delete found stored => exact set ((covers _ _ found).delete _)
  | update found replaces => exact set (replaces.covers (covers _ _ found))

/-- A run of edits keeps the indexes covering. -/
theorem Run.covers (run : Run cat edits cat') (covers : cat.Covers) : cat'.Covers :=
  run.preserves (fun holds step => step.covers holds) covers

/-! ## Edits as writes to the row store -/

/-- The rows after a table is set are those of the table, at its addresses. -/
theorem rowAt_setTable (cat : Catalog) (name : String) (t : Table) (a : Address) :
    (cat.setTable name t).rowAt a = if name = a.1 then t.rows[a.2]? else cat.rowAt a := by
  rw [Catalog.rowAt, Catalog.row, Catalog.table_setTable]
  split <;> rfl

/-- The row at an address of a table that is there. -/
theorem rowAt_of_found {cat : Catalog} {name : String} {t : Table}
    (found : cat.table name = some t) (id : Nat) : cat.rowAt (name, id) = t.rows[id]? := by
  rw [Catalog.rowAt, Catalog.row, found]
  rfl

/-- Replacing a table by one with other rows, as a change of the row store. -/
theorem rowAt_setTable_eq {name : String} {u : Table} {store : Address → Option Row}
    (elsewhere : ∀ a : Address, name ≠ a.1 → store a = cat.rowAt a)
    (here : ∀ id, store (name, id) = u.rows[id]?) : (cat.setTable name u).rowAt = store := by
  funext a
  rw [rowAt_setTable]
  split
  · next same => rw [← here a.2, same]
  · next different => exact (elsewhere a different).symm

/-- An edit writes to the row store exactly what it logs. -/
theorem Applies.rowAt (applies : Applies cat edit cat') :
    cat'.rowAt = overlay (edit.entries.map Change.write) cat.rowAt := by
  cases applies with
  | @insert table id values t t' found fresh width success =>
      refine rowAt_setTable_eq (fun a different => ?_) fun other => ?_
      · exact Function.update_of_ne (fun same => different (congrArg Prod.fst same).symm) _ _
      · rw [(insert_spec success).1]
        simp only [Edit.entries, List.map_cons, List.map_nil, Overlay.cons, Overlay.nil, Change.write,
          Change.address, Change.image, Change.table, Change.id, Table.write,
          ExtTreeMap.getElem?_insert, Function.update_apply, Prod.mk.injEq, true_and,
          Std.compare_eq_iff_eq, rowAt_of_found found, @eq_comm Nat]
  | @delete table id old t found stored =>
      refine rowAt_setTable_eq (fun a different => ?_) fun other => ?_
      · exact Function.update_of_ne (fun same => different (congrArg Prod.fst same).symm) _ _
      · simp only [Edit.entries, List.map_cons, List.map_nil, Overlay.cons, Overlay.nil, Change.write,
          Change.address, Change.image, Change.table, Change.id, Table.rows_delete,
          ExtTreeMap.getElem?_erase, Function.update_apply, Prod.mk.injEq, true_and,
          Std.compare_eq_iff_eq, rowAt_of_found found, @eq_comm Nat]
  | @update table rows t t' found replaces =>
      have addresses : ((Edit.update table rows).entries.map Change.write).map Prod.fst =
          rows.map fun r => (table, r.id) := by
        simp only [Edit.entries, List.map_map]
        rfl
      refine rowAt_setTable_eq (fun a different => ?_) fun id => ?_
      · apply Overlay.of_absent
        rw [addresses]
        intro member
        obtain ⟨r, _, rfl⟩ := List.mem_map.mp member
        exact different rfl
      · by_cases changed : id ∈ rows.map RowChange.id
        · have member : ((table, id) : Address) ∈
              ((Edit.update table rows).entries.map Change.write).map Prod.fst := by
            rw [addresses]
            obtain ⟨r, memberR, rfl⟩ := List.mem_map.mp changed
            exact List.mem_map_of_mem memberR
          have written : ((table, id), overlay _ cat.rowAt (table, id)) ∈ _ :=
            Overlay.exists_write member
          obtain ⟨entry, memberEntry, write⟩ := List.mem_map.mp written
          obtain ⟨r, memberR, rfl⟩ := List.mem_map.mp memberEntry
          obtain ⟨same, image⟩ := Prod.mk.inj write
          have sameId : r.id = id := congrArg Prod.snd same
          rw [← image, ← sameId]
          exact (replaces.written memberR).symm
        · rw [replaces.kept changed, ← rowAt_of_found found]
          apply Overlay.of_absent
          rw [addresses]
          intro member
          obtain ⟨r, memberR, same⟩ := List.mem_map.mp member
          exact changed (List.mem_map.mpr ⟨r, memberR, congrArg Prod.snd same⟩)

/-- An entry holds the row it replaces. -/
theorem Applies.stored (applies : Applies cat edit cat') :
    ∀ change ∈ edit.entries, cat.rowAt change.address = change.old := by
  intro change member
  cases applies with
  | insert found fresh width success =>
      cases List.mem_singleton.mp member
      exact (rowAt_of_found found _).trans fresh
  | delete found stored =>
      cases List.mem_singleton.mp member
      exact (rowAt_of_found found _).trans stored
  | update found replaces =>
      obtain ⟨r, memberR, rfl⟩ := List.mem_map.mp member
      exact (rowAt_of_found found _).trans (replaces.stored r memberR)

/-- An edit changes no row twice. -/
theorem Applies.nodup (applies : Applies cat edit cat') :
    (edit.entries.map Change.address).Nodup := by
  cases applies with
  | insert found fresh width success => exact List.nodup_singleton _
  | delete found stored => exact List.nodup_singleton _
  | update found replaces =>
      rw [entries, List.map_map, List.Nodup, List.pairwise_map]
      refine (List.pairwise_map.mp replaces.distinct).imp ?_
      exact fun different same => different (congrArg Prod.snd same)

/-- A log writes at the addresses of its changes. -/
theorem addresses_writes (log : List Change) :
    (log.map Change.write).map Prod.fst = log.map Change.address := by
  rw [List.map_map]
  rfl

/-- A row that an edit does not log stays. -/
theorem Applies.kept (applies : Applies cat edit cat') {a : Address}
    (absent : a ∉ edit.entries.map Change.address) : cat'.rowAt a = cat.rowAt a := by
  rw [applies.rowAt]
  apply Overlay.of_absent
  rw [addresses_writes]
  exact absent

/-- A row that an edit logs is as the entry says. -/
theorem Applies.landed (applies : Applies cat edit cat') {change : Change}
    (member : change ∈ edit.entries) : cat'.rowAt change.address = change.image := by
  rw [applies.rowAt]
  obtain ⟨before, after, split⟩ := List.append_of_mem member
  have distinct := applies.nodup
  rw [split] at distinct ⊢
  rw [List.map_append, List.map_cons]
  apply Overlay.of_last
  rw [addresses_writes]
  rw [List.map_append, List.map_cons] at distinct
  exact (List.nodup_cons.mp (List.nodup_append.mp distinct).2.1).1

/-- The catalog after a run is the one before with the log written over its rows. -/
theorem Run.rowAt (run : Run cat edits cat') :
    cat'.rowAt = overlay ((log edits).map Change.write) cat.rowAt := by
  induction run with
  | nil => rfl
  | cons head _ ih => rw [ih, head.rowAt, log_cons, List.map_append, Overlay.append]

/-! ## Edits keep catalogs sound -/

end Edit

/-- A log entry names a table of the catalog, an id in use, and rows of the right width. -/
def Change.Fits (bound : Nat) (cat : Catalog) (change : Change) : Prop :=
  change.id < bound ∧ ∃ t, cat.table change.table = some t ∧
    ∀ row ∈ change.carried, row.length = t.columns.length

/-- Catalogs with one schema have the same tables. -/
theorem Catalog.table_of_schema {cat cat' : Catalog} (same : cat'.schema = cat.schema)
    {name : String} {t : Table} (found : cat.table name = some t) :
    ∃ t', cat'.table name = some t' ∧ t'.schema = t.schema := by
  have schemas := congrFun same name
  rw [Catalog.schema, Catalog.schema, found, Option.map_some, Option.map_eq_some_iff] at schemas
  exact schemas

/-- Whether a log entry fits is a matter of the schema and of the ids handed out. -/
theorem Change.Fits.transfer {bound bound' : Nat} {cat cat' : Catalog} {change : Change}
    (fits : change.Fits bound cat) (le : bound ≤ bound') (same : cat'.schema = cat.schema) :
    change.Fits bound' cat' := by
  obtain ⟨below, t, found, width⟩ := fits
  obtain ⟨t', found', sameSchema⟩ := Catalog.table_of_schema same found
  refine ⟨by omega, t', found', fun row member => ?_⟩
  rw [Table.columns_of_schema sameSchema]
  exact width row member

namespace Edit

variable {cat cat' : Catalog} {edit : Edit} {edits : List Edit} {bound : Nat}

/-- The ids of inserted rows have been handed out. -/
def Below (bound : Nat) (edits : List Edit) : Prop := ∀ change ∈ log edits, change.id < bound

/-- An edit keeps a catalog sound if the ids it uses have been handed out. -/
theorem Applies.sound (applies : Applies cat edit cat') (sound : cat.Sound bound)
    (below : ∀ change ∈ edit.entries, change.id < bound) : cat'.Sound bound := by
  cases applies with
  | insert found fresh width success =>
      have used := below _ List.mem_cons_self
      have inserted := (sound _ _ found).insert used width
      rw [Change.id, success] at inserted
      exact sound.setTable inserted
  | delete found stored => exact sound.setTable ((sound _ _ found).delete _)
  | update found replaces =>
      refine sound.setTable ?_
      rw [replaces.outcome]
      refine (sound _ _ found).update fun change member => ?_
      obtain ⟨r, memberR, rfl⟩ := List.mem_map.mp member
      exact (replaces.width r memberR).trans ((sound _ _ found).width (replaces.stored r memberR))

/-- A run of edits keeps a catalog sound if the ids it uses have been handed out. -/
theorem Run.sound (run : Run cat edits cat') (sound : cat.Sound bound)
    (below : Below bound edits) : cat'.Sound bound := by
  induction run with
  | nil => exact sound
  | cons head _ ih =>
      refine ih (head.sound sound fun change member => ?_) fun change member => ?_
      · exact below change (List.mem_append_left _ member)
      · exact below change (List.mem_append_right _ member)

/-- The log entries of an edit fit the catalog it is made in. -/
theorem Applies.fits (applies : Applies cat edit cat') (sound : cat.Sound bound)
    (below : ∀ change ∈ edit.entries, change.id < bound) :
    ∀ change ∈ edit.entries, change.Fits bound cat := by
  intro change member
  refine ⟨below change member, ?_⟩
  cases applies with
  | insert found fresh width success =>
      cases List.mem_singleton.mp member
      exact ⟨_, found, by simpa [Change.carried] using width⟩
  | delete found stored =>
      cases List.mem_singleton.mp member
      exact ⟨_, found, by simpa [Change.carried] using (sound _ _ found).width stored⟩
  | update found replaces =>
      obtain ⟨r, memberR, rfl⟩ := List.mem_map.mp member
      have old := (sound _ _ found).width (replaces.stored r memberR)
      refine ⟨_, found, ?_⟩
      simp only [RowChange.entry, Change.carried, List.mem_cons, List.not_mem_nil, or_false,
        forall_eq_or_imp, forall_eq]
      exact ⟨(replaces.width r memberR).trans old, old⟩

/-- Every entry a run logs fits the catalog it ends in. -/
theorem Run.fits (run : Run cat edits cat') (sound : cat.Sound bound) (below : Below bound edits) :
    ∀ change ∈ log edits, change.Fits bound cat' := by
  induction run with
  | nil => simp
  | cons head tail ih =>
      have belowHead := fun change member => below change (List.mem_append_left _ member)
      intro change member
      rcases List.mem_append.mp member with here | later
      · refine (head.fits sound belowHead change here).transfer (Nat.le_refl _) ?_
        rw [(Run.frame tail).1, head.frame.1]
      · refine ih (head.sound sound belowHead) (fun change member => ?_) change later
        exact below change (List.mem_append_right _ member)

end Edit

end MockOracle
