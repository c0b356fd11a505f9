import MockOracle.Catalog.Table

/-!
# The catalog

All tables, sequence definitions and stored routines, with the version number by which
a transaction recognises that the committed state is still the one it started from.
Copy-on-write sharing of tables is not visible to any operation and is left out.
-/

namespace MockOracle

open Std Semantics

/-- A sequence's definition. Its counter lives in the database, outside transactions. -/
structure SequenceDef where
  start : Int
  increment : Int
  min : Int
  max : Int
  cycle : Bool
  deriving DecidableEq, Repr

/-- A foreign key together with the table that declares it. -/
structure ForeignKeyRef where
  child : String
  name : String
  columns : List Nat
  parent : String
  parentColumns : List Nat
  onDelete : OnDelete
  enabled : Bool
  deriving DecidableEq, Repr

/-- The tables, sequences and routines, with the version of the schema. -/
structure Catalog where
  tables : ExtTreeMap String Table
  sequences : ExtTreeMap String SequenceDef
  routines : ExtTreeMap String Routine
  version : Nat

namespace Catalog

/-- The catalog of a new database. -/
def empty : Catalog := ⟨∅, ∅, ∅, 0⟩

/-- The table under a name. -/
def table (cat : Catalog) (name : String) : Option Table := cat.tables[name]?

/-- Store a table under a name, as writing through `table_mut` does. -/
def setTable (cat : Catalog) (name : String) (t : Table) : Catalog :=
  { cat with tables := cat.tables.insert name t }

/-- Change the table of a name in place, if there is one. -/
def modifyTable (cat : Catalog) (name : String) (f : Table → Table) : Catalog :=
  match cat.table name with
  | some t => cat.setTable name (f t)
  | none => cat

/-- The foreign key a constraint of `child` stands for. -/
def foreignKeyRef (child : String) (c : Constraint) : Option ForeignKeyRef :=
  match c.kind with
  | .foreignKey columns parent parentColumns onDelete =>
      some ⟨child, c.name, columns, parent, parentColumns, onDelete, c.enabled⟩
  | _ => none

/-- Every foreign key in the catalog, by table name and then by position. -/
def foreignKeys (cat : Catalog) : List ForeignKeyRef :=
  cat.tables.toList.flatMap fun entry =>
    entry.2.constraints.filterMap (foreignKeyRef entry.2.name)

/-- The foreign keys that reference the key over `columns` of `table`. -/
def referencing (cat : Catalog) (table : String) (columns : List Nat) : List ForeignKeyRef :=
  cat.foreignKeys.filter fun f => f.parent == table && f.parentColumns == columns

/-- Whether a table, sequence, routine, constraint or index already uses `name`. -/
def nameInUse (cat : Catalog) (name : String) : Bool :=
  cat.tables.contains name || cat.sequences.contains name || cat.routines.contains name ||
    cat.tables.toList.any fun entry => entry.2.constraints.any fun c => c.name == name

/-- The stored row of an id in a table. -/
def row (cat : Catalog) (table : String) (id : Nat) : Option Row :=
  (cat.table table).bind fun t => t.rows[id]?

/-! ## Reading what was written -/

section Lookup

variable (cat : Catalog) (name other : String) (t : Table)

@[simp] theorem table_setTable_self : (cat.setTable name t).table name = some t := by
  simp [table, setTable]

/-- Storing a table leaves the other tables as they are. -/
theorem table_setTable_ne {name other : String} (different : name ≠ other) :
    (cat.setTable name t).table other = cat.table other := by
  simp [table, setTable, ExtTreeMap.getElem?_insert, different]

/-- The tables after one is stored. -/
theorem table_setTable : (cat.setTable name t).table other =
    if name = other then some t else cat.table other := by
  simp [table, setTable, ExtTreeMap.getElem?_insert]

@[simp] theorem version_setTable : (cat.setTable name t).version = cat.version := rfl

@[simp] theorem sequences_setTable : (cat.setTable name t).sequences = cat.sequences := rfl

@[simp] theorem routines_setTable : (cat.setTable name t).routines = cat.routines := rfl

end Lookup

/-- Catalogs are equal if their tables, sequences, routines and versions are. -/
@[ext] theorem ext {left right : Catalog} (tables : ∀ name, left.table name = right.table name)
    (sequences : left.sequences = right.sequences) (routines : left.routines = right.routines)
    (version : left.version = right.version) : left = right := by
  obtain ⟨leftTables, _, _, _⟩ := left
  obtain ⟨rightTables, _, _, _⟩ := right
  have sameTables : leftTables = rightTables := ExtTreeMap.ext_getElem? tables
  cases sameTables
  cases sequences
  cases routines
  cases version
  rfl

/-- Storing the table that is already there changes nothing. -/
theorem setTable_self {cat : Catalog} {name : String} {t : Table}
    (found : cat.table name = some t) : cat.setTable name t = cat := by
  refine Catalog.ext (fun other => ?_) rfl rfl rfl
  rw [table_setTable]
  split
  · next same => rw [← same, found]
  · rfl

/-- Storing a table twice stores the second one. -/
@[simp] theorem setTable_setTable (cat : Catalog) (name : String) (t u : Table) :
    (cat.setTable name t).setTable name u = cat.setTable name u := by
  refine Catalog.ext (fun other => ?_) rfl rfl rfl
  simp only [table_setTable]
  split <;> rfl

/-- Changing a table that is there stores the changed one. -/
theorem modifyTable_of_found {cat : Catalog} {name : String} {t : Table} (f : Table → Table)
    (found : cat.table name = some t) : cat.modifyTable name f = cat.setTable name (f t) := by
  simp [modifyTable, found]

end Catalog

end MockOracle
