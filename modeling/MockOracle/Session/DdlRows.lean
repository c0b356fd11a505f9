import MockOracle.Session.Conform

/-!
# What DDL does to rows

Apart from CREATE TABLE AS SELECT, DDL adds no row and changes neither a row nor a column.
-/

namespace MockOracle

open Std Semantics

variable {dates : DateFormats}

/-- Tables keep their columns, and their rows are rows that they had. -/
def Catalog.Narrows (cat cat' : Catalog) : Prop :=
  ∀ name t', cat'.table name = some t' → ∃ t, cat.table name = some t ∧ t'.columns = t.columns ∧
    ∀ (id : Nat) (row : Row), t'.rows[id]? = some row → t.rows[id]? = some row

namespace Catalog.Narrows

variable {cat cat' cat'' : Catalog}

/-- A catalog that stays the same narrows. -/
theorem refl (cat : Catalog) : cat.Narrows cat := fun _ t found => ⟨t, found, rfl, fun _ _ row => row⟩

/-- Narrowing twice is narrowing. -/
theorem trans (first : cat.Narrows cat') (second : cat'.Narrows cat'') : cat.Narrows cat'' := by
  intro name t'' found''
  obtain ⟨t', found', columns', rows'⟩ := second name t'' found''
  obtain ⟨t, found, columns, rows⟩ := first name t' found'
  exact ⟨t, found, columns'.trans columns, fun id row stored => rows id row (rows' id row stored)⟩

/-- A table with the same columns and none but rows that it had narrows the catalog. -/
theorem setTable {name : String} {t u : Table} (found : cat.table name = some t)
    (columns : u.columns = t.columns)
    (rows : ∀ (id : Nat) (row : Row), u.rows[id]? = some row → t.rows[id]? = some row) :
    cat.Narrows (cat.setTable name u) := by
  intro other t' found'
  rw [table_setTable] at found'
  split at found'
  · next same =>
      cases found'
      exact ⟨t, same ▸ found, columns, rows⟩
  · exact ⟨t', found', rfl, fun _ _ stored => stored⟩

/-- A table is changed to one with the same columns and rows. -/
theorem setTable_same {name : String} {t u : Table} (found : cat.table name = some t)
    (columns : u.columns = t.columns) (rows : u.rows = t.rows) :
    cat.Narrows (cat.setTable name u) :=
  .setTable found columns fun _ _ stored => rows ▸ stored

/-- Modifying a table without its columns and rows narrows the catalog. -/
theorem modifyTable (cat : Catalog) (name : String) {f : Table → Table}
    (columns : ∀ t, (f t).columns = t.columns) (rows : ∀ t, (f t).rows = t.rows) :
    cat.Narrows (cat.modifyTable name f) := by
  cases found : cat.table name with
  | none =>
      rw [Catalog.modifyTable, found]
      exact .refl cat
  | some t =>
      rw [modifyTable_of_found f found]
      exact .setTable_same found (columns t) (rows t)

/-- Catalogs with the same tables narrow. -/
theorem of_tables (same : cat'.tables = cat.tables) : cat.Narrows cat' := by
  intro name t found
  rw [table, same] at found
  exact ⟨t, found, rfl, fun _ _ stored => stored⟩

/-- Removing a table narrows the catalog. -/
theorem removeTable (cat : Catalog) (name : String) : cat.Narrows (cat.removeTable name) := by
  intro other t found
  rw [ChangesTable.table_removeTable] at found
  split at found
  · cases found
  · exact ⟨t, found, rfl, fun _ _ stored => stored⟩

/-- Narrowing again and again is narrowing. -/
theorem foldl {α : Type} {f : Catalog → α → Catalog}
    (step : ∀ (cat : Catalog) a, cat.Narrows (f cat a)) (as : List α) (cat : Catalog) :
    cat.Narrows (as.foldl f cat) := by
  induction as generalizing cat with
  | nil => exact .refl cat
  | cons a rest ih => exact (step cat a).trans (ih _)

/-- A narrower catalog conforms when the wider one does. -/
theorem conforms (narrows : cat.Narrows cat') (conforms : cat.Conforms dates) :
    cat'.Conforms dates := by
  intro name t' found' id row stored
  obtain ⟨t, found, columns, rows⟩ := narrows name t' found'
  rw [columns]
  exact conforms name t found id row (rows id row stored)

end Catalog.Narrows

/-! ## Constraints -/

/-- Adding a unique constraint changes no rows. -/
theorem Table.rows_addUnique (t : Table) (label : String) (columns : List Nat)
    (primary isIndex enabled : Bool) :
    (t.addUnique label columns primary isIndex enabled).2.rows = t.rows := by
  unfold Table.addUnique
  split <;> rfl

/-- Enabling or disabling a constraint changes no rows. -/
theorem Table.rows_setEnabled (t : Table) (i : Nat) (enabled : Bool) :
    (t.setEnabled i enabled).2.rows = t.rows := by
  unfold Table.setEnabled
  split
  · rfl
  · dsimp only
    split <;> rfl

/-- Adding a constraint narrows the catalog. -/
theorem addConstraint_narrows (ev : Evaluator) (committed : Catalog) (table : String)
    (c : TableConstraint) (st : DdlState) :
    st.cat.Narrows (DdlResult.state (addConstraint ev committed table c st)).cat := by
  have named : (st.nameConstraint c).2.cat = st.cat := by
    unfold DdlState.nameConstraint
    split <;> rfl
  unfold addConstraint
  simp only
  rw [← named]
  split
  · exact .refl _
  · split
    · exact .refl _
    · next t found =>
        split
        · exact .refl _
        · next columns primary duplicates _ =>
            have added := Catalog.Narrows.setTable_same found
              (t.columns_addUnique (st.nameConstraint c).1 columns primary false c.enabled)
              (t.rows_addUnique (st.nameConstraint c).1 columns primary false c.enabled)
            split
            · next equal =>
                rw [equal] at added
                exact added
            · next equal =>
                rw [equal] at added
                exact added
        · split
          · rw [validate_cat]
            exact .setTable_same found rfl rfl
          · exact .setTable_same found rfl rfl

/-- Adding constraints narrows the catalog. -/
theorem addConstraints_narrows (ev : Evaluator) (committed : Catalog) (table : String)
    (constraints : List TableConstraint) (st : DdlState) :
    st.cat.Narrows (DdlResult.state (addConstraints ev committed table constraints st)).cat := by
  induction constraints generalizing st with
  | nil => exact .refl _
  | cons c rest ih =>
      have first := addConstraint_narrows ev committed table c st
      unfold addConstraints
      split
      · next after equal =>
          rw [equal] at first
          exact first.trans (ih after)
      · next after equal =>
          rw [equal] at first
          exact first

/-- Dropping foreign keys narrows the catalog. -/
theorem dropForeignKeys_narrows (refs : List ForeignKeyRef) (cat : Catalog) :
    cat.Narrows (dropForeignKeys refs cat) := by
  unfold dropForeignKeys
  refine .foldl (fun cat f => .modifyTable cat f.child (fun _ => ?_) fun _ => ?_) refs cat <;> rfl

/-- Disabling foreign keys narrows the catalog. -/
theorem disableForeignKeys_narrows (refs : List ForeignKeyRef) (cat : Catalog) :
    cat.Narrows (disableForeignKeys refs cat) := by
  unfold disableForeignKeys
  refine .foldl (fun cat f => .modifyTable cat f.child (fun t => ?_) fun t => ?_) refs cat
  · split
    · rfl
    · exact t.columns_setEnabled _ _
  · split
    · rfl
    · exact t.rows_setEnabled _ _

/-- Dropping a constraint narrows the catalog. -/
theorem dropTableConstraint_narrows (table : String) (t : Table) (name : Option String)
    (cascade : Bool) (st : DdlState) :
    st.cat.Narrows (DdlResult.state (dropTableConstraint table t name cascade st)).cat := by
  unfold dropTableConstraint
  split
  · exact .refl _
  · simp only
    split
    · exact .refl _
    · refine (dropForeignKeys_narrows _ _).trans (.modifyTable _ table (fun _ => ?_) fun _ => ?_)
        <;> rfl

/-- Enabling or disabling a constraint narrows the catalog. -/
theorem setTableConstraint_narrows (ev : Evaluator) (committed : Catalog) (table : String)
    (t : Table) (name : Option String) (enabled validate cascade : Bool) (st : DdlState) :
    st.cat.Narrows (DdlResult.state
      (setTableConstraint ev committed table t name enabled validate cascade st)).cat := by
  unfold setTableConstraint
  simp only
  split
  · exact .refl _
  · next i _ =>
      split
      · exact .refl _
      · have disabled := disableForeignKeys_narrows (orphans st.cat table t i enabled) st.cat
        split
        · exact disabled
        · next u found =>
            have all := disabled.trans (.setTable_same found (u.columns_setEnabled i enabled)
              (u.rows_setEnabled i enabled))
            split
            · next equal =>
                rw [equal] at all
                exact all
            · next equal =>
                rw [equal] at all
                split
                · rw [validate_cat]
                  exact all
                · exact all

/-- ALTER TABLE narrows the catalog. -/
theorem alterTable_narrows (ev : Evaluator) (committed : Catalog) (table : String)
    (action : AlterTableAction) (st : DdlState) :
    st.cat.Narrows (DdlResult.state (alterTable ev committed table action st)).cat := by
  unfold alterTable
  split
  · exact .refl _
  · cases action with
    | addConstraints constraints => exact addConstraints_narrows ev committed table constraints st
    | dropConstraint name cascade => exact dropTableConstraint_narrows table _ name cascade st
    | setConstraint name enabled validate cascade =>
        exact setTableConstraint_narrows ev committed table _ name enabled validate cascade st

/-! ## Statements -/

/-- A table filled with rows that conform still conforms. -/
theorem Table.Conforms.fill {t : Table} (conforms : t.Conforms dates) {rows : List Row}
    (fits : ∀ row ∈ rows, RowConforms dates t.columns row) (next : Nat) :
    (t.fill rows next).2.2.Conforms dates := by
  induction rows generalizing next t with
  | nil => exact conforms
  | cons values rest ih =>
      have inserted := conforms.insert next (fits values List.mem_cons_self)
      have columns := Table.columns_of_schema (t.schema_insert next values)
      unfold Table.fill
      split
      · next equal =>
          rw [equal] at inserted
          exact inserted
      · next t' equal =>
          rw [equal] at inserted columns
          refine ih inserted (fun row member => ?_) _
          rw [columns]
          exact fits row (List.mem_cons_of_mem _ member)

namespace World

variable (ev : Evaluator) (binds : List Value) (w : World)

/-- The rows that CREATE TABLE AS SELECT would copy conform to the columns it derives from the
query. -/
def CopiesConform (dates : DateFormats) (ct : CreateTable) : Prop :=
  ∀ rel eval, w.createQuery ev binds ct = .ok (some rel) eval →
    ∀ row ∈ rel.rows, RowConforms dates (newColumns ct (some rel)) row

variable {w} (conforms : w.db.state.Conforms dates)

include conforms

/-- CREATE TABLE keeps the committed catalog conforming when the rows it copies conform. -/
theorem createTableFrom_conforms (ct : CreateTable) {rel : Option Relation}
    (copies : ∀ row ∈ (rel.map (·.rows)).getD [], RowConforms dates (newColumns ct rel) row) :
    (w.createTableFrom ev ct rel).2.db.state.Conforms dates := by
  unfold createTableFrom
  simp only
  split
  · exact conforms
  · next taken =>
      split
      · exact conforms
      · let start : DdlState := ⟨w.evalState, (nameConstraints ct.constraints w.db.nextConstraint).2,
          w.db.state.setTable ct.name (.new ct.name (newColumns ct rel))⟩
        let declared := sortConstraints (nameConstraints ct.constraints w.db.nextConstraint).1
        have narrows := addConstraints_narrows ev w.db.state ct.name declared start
        have created : start.cat.Conforms dates :=
          conforms.setTable fun id row stored => by simp [Table.new] at stored
        split
        · next e st failed =>
            rw [failed] at narrows
            exact (narrows.trans (.removeTable _ _)).conforms created
        · next st succeeded =>
            rw [succeeded] at narrows
            split
            · exact narrows.conforms created
            · next t found =>
                have holds := narrows.conforms created
                obtain ⟨u, foundU, columns, -⟩ := narrows ct.name t found
                rw [Catalog.table_setTable_self] at foundU
                cases foundU
                have filled := (holds ct.name t found).fill (fun row member => by
                  rw [columns]
                  exact copies row member) w.db.nextRowId
                split
                · next c next t' equal =>
                    rw [equal] at filled
                    exact (Catalog.Narrows.removeTable _ _).conforms (holds.setTable filled)
                · next next t' equal =>
                    rw [equal] at filled
                    exact (holds.setTable filled).of_tables rfl

/-- CREATE TABLE AS SELECT keeps the committed catalog conforming when its query's rows conform. -/
theorem createTable_conforms (ct : CreateTable) (copies : w.CopiesConform ev binds dates ct) :
    (w.createTable ev binds ct).2.db.state.Conforms dates := by
  unfold createTable
  split
  · exact conforms
  · next rel eval evaluated =>
      refine createTableFrom_conforms ev (w := w.setEval eval) conforms ct fun row member => ?_
      cases rel with
      | none => cases member
      | some rel => exact copies rel eval evaluated row member

omit conforms in
/-- Apart from CREATE TABLE, DDL adds no row and changes neither a row nor a column. -/
theorem ddl_narrows {stmt : Statement} (other : ∀ ct, stmt ≠ .createTable ct) :
    w.db.state.Narrows (w.ddl ev binds stmt).2.db.state := by
  cases stmt with
  | createTable ct => exact absurd rfl (other ct)
  | dropTable name cascadeConstraints =>
      simp only [ddl, dropTable]
      split
      · exact .refl _
      · split
        · exact .refl _
        · have dropped := (dropForeignKeys_narrows (w.db.state.foreignKeys.filter fun f =>
            f.parent == name && f.child != name) w.db.state).trans (.removeTable _ name)
          exact dropped.trans (.of_tables rfl)
  | truncate name =>
      simp only [ddl, truncate]
      split
      · exact .refl _
      · split
        · exact .refl _
        · next t found =>
            have emptied : w.db.state.Narrows (w.db.state.setTable name t.truncate) :=
              .setTable found rfl fun id row stored => by simp [Table.truncate] at stored
            exact emptied.trans (.of_tables rfl)
  | createIndex name table columns unique =>
      simp only [ddl, createIndex]
      split
      · exact .refl _
      · split
        · exact .refl _
        · next t found =>
            split
            · exact .refl _
            · next idx resolved =>
                split
                · have added := Catalog.Narrows.setTable_same found
                    (t.columns_addUnique name idx false true true)
                    (t.rows_addUnique name idx false true true)
                  split
                  · next equal =>
                      rw [equal] at added
                      exact added
                  · next equal =>
                      rw [equal] at added
                      exact added.trans (.of_tables rfl)
                · have added : w.db.state.Narrows (w.db.state.setTable table
                      { t with constraints := t.constraints ++ [⟨name, .index, true, true⟩] }) :=
                    .setTable_same found rfl rfl
                  exact added.trans (.of_tables rfl)
  | dropIndex name =>
      simp only [ddl, dropIndex]
      split
      · exact .refl _
      · next owner t _ =>
          have dropped : w.db.state.Narrows (w.db.state.modifyTable owner fun t => { t with
              constraints := t.constraints.filter fun c => !(c.isIndex && c.name == name) }) :=
            .modifyTable _ _ (fun _ => rfl) fun _ => rfl
          exact dropped.trans (.of_tables rfl)
  | alterTable name action =>
      have altered := alterTable_narrows ev w.db.state name action
        ⟨w.evalState, w.db.nextConstraint, w.db.state⟩
      simp only [ddl, alter]
      split
      · exact .refl _
      · next st equal =>
          rw [equal] at altered
          exact altered.trans (.of_tables rfl)
  | createSequence name options =>
      simp only [ddl, createSequence]
      split
      · exact .refl _
      · split
        · exact .refl _
        · exact .of_tables rfl
  | alterSequence name options =>
      simp only [ddl, alterSequence]
      split
      · exact .refl _
      · split
        · exact .refl _
        · exact .of_tables rfl
  | dropSequence name =>
      simp only [ddl, dropSequence]
      split
      · exact .of_tables rfl
      · exact .refl _
  | createRoutine routine orReplace =>
      simp only [ddl, createRoutine]
      split
      · exact .refl _
      · exact .of_tables rfl
  | dropRoutine name function =>
      simp only [ddl, dropRoutine]
      split
      · split
        · exact .of_tables rfl
        · exact .refl _
      · exact .refl _
  | partitionMaintenance table =>
      simp only [ddl, partitionMaintenance]
      split
      · split <;> exact .refl _
      · exact .refl _
  | _ => exact .refl _

/-- DDL keeps stored rows conforming, when those that CREATE TABLE AS SELECT copies do. -/
theorem ddl_conforms (stmt : Statement)
    (copies : ∀ ct, stmt = .createTable ct → w.CopiesConform ev binds dates ct) :
    (w.ddl ev binds stmt).2.db.state.Conforms dates := by
  by_cases creates : ∃ ct, stmt = .createTable ct
  · obtain ⟨ct, rfl⟩ := creates
    exact createTable_conforms ev binds conforms ct (copies ct rfl)
  · refine (ddl_narrows ev binds fun ct same => ?_).conforms conforms
    exact creates ⟨ct, same⟩

end World

end MockOracle
