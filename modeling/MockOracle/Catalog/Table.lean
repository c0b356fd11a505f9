import MockOracle.Core.Ast
import MockOracle.Semantics.KeyIndex

/-!
# Tables and their constraints

The storage layer of `catalog.rs`. A unique constraint carries an index from row keys
to row ids; every operation that changes rows also maintains the indexes of the
enabled unique constraints. An operation that takes `&mut self` and returns a
`Result` is modelled by the result beside the table it leaves behind, so that what a
failing operation leaves is a statement about the model and not part of it.
-/

namespace MockOracle

open Std Semantics

/-- A column, with what an INSERT checks and fills in. -/
structure TableColumn where
  name : String
  sqlType : SqlType
  default : Option Expr
  notNull : Bool
  identity : Bool

/-- Rows by row id, in ascending order of ids. -/
abbrev Rows := KeyIndex.RowMap Row

/-- A unique constraint's index, from key to row id. -/
abbrev KeyMap := KeyIndex.Index String

/-- What a constraint demands. -/
inductive ConstraintKind where
  /-- PRIMARY KEY, UNIQUE, or a unique index. -/
  | unique (columns : List Nat) (primary : Bool) (index : KeyMap)
  | check (condition : Expr)
  /-- `columns` of this table reference `parentColumns` of `parent`. -/
  | foreignKey (columns : List Nat) (parent : String) (parentColumns : List Nat)
      (onDelete : OnDelete)
  /-- A non-unique index. It has no effect but can be dropped by name. -/
  | index

/-- A constraint, under its name. -/
structure Constraint where
  name : String
  kind : ConstraintKind
  /-- Created by CREATE INDEX rather than as a table constraint. -/
  isIndex : Bool
  enabled : Bool

/-- A table: its columns, constraints and rows. -/
structure Table where
  name : String
  columns : List TableColumn
  constraints : List Constraint
  rows : Rows

/-! ## Keys -/

/-- The value at a column position. Positions in constraints are within the row, so
the fallback is never the answer the source would panic on. -/
abbrev cell (values : Row) (column : Nat) : Value := values.getD column .null

/-- The values of some columns, in that order. -/
abbrev keyValues (columns : List Nat) (values : Row) : List Value :=
  columns.map (cell values)

/-- The key a foreign key looks up in its parent; a NULL in any column means none. -/
def foreignKey (columns : List Nat) (values : Row) : Option String :=
  if (keyValues columns values).any Value.isNull then none
  else some (keyString (keyValues columns values))

/-- The key a unique constraint files a row under; none when every column is NULL. -/
def uniqueKey (columns : List Nat) (values : Row) : Option String :=
  if (keyValues columns values).all Value.isNull then none
  else some (keyString (keyValues columns values))

namespace Constraint

/-- The key a row has in this constraint's index: none unless the constraint is
unique and enabled. -/
def key (c : Constraint) (values : Row) : Option String :=
  match c.kind with
  | .unique columns _ _ => if c.enabled then uniqueKey columns values else none
  | _ => none

/-- The index of a unique constraint. -/
def index (c : Constraint) : KeyMap :=
  match c.kind with
  | .unique _ _ index => index
  | _ => ∅

/-- The columns of a unique constraint. -/
def uniqueColumns (c : Constraint) : Option (List Nat) :=
  match c.kind with
  | .unique columns _ _ => some columns
  | _ => none

/-- The columns of an enabled primary key. -/
def primaryColumns (c : Constraint) : Option (List Nat) :=
  match c.kind with
  | .unique columns true _ => if c.enabled then some columns else none
  | _ => none

/-- Whether the constraint is the primary key. -/
def isPrimary (c : Constraint) : Bool :=
  match c.kind with
  | .unique _ primary _ => primary
  | _ => false

/-- Change the index of a unique constraint. -/
def mapIndex (c : Constraint) (f : KeyMap → KeyMap) : Constraint :=
  match c.kind with
  | .unique columns primary index => { c with kind := .unique columns primary (f index) }
  | _ => c

/-- Drop a row's key from the index. -/
def unindex (c : Constraint) (values : Row) : Constraint :=
  c.mapIndex (KeyIndex.unindex (c.key values))

/-- Point a row's key at its id. -/
def enter (c : Constraint) (id : Nat) (values : Row) : Constraint :=
  c.mapIndex (KeyIndex.enter (c.key values) id)

end Constraint

/-! ## Operations on tables -/

namespace Table

/-- A table without rows and constraints. -/
def new (name : String) (columns : List TableColumn) : Table := ⟨name, columns, [], ∅⟩

/-- The position of a column by its name. -/
def columnIndex (t : Table) (name : String) : Option Nat :=
  t.columns.findIdx? fun c => c.name == name

/-- Store a row and enter its keys. -/
def write (t : Table) (id : Nat) (values : Row) : Table :=
  { t with constraints := t.constraints.map (·.enter id values), rows := t.rows.insert id values }

/-- Drop the keys of a row. -/
def unindex (t : Table) (values : Row) : Table :=
  { t with constraints := t.constraints.map (·.unindex values) }

/-- Insert a row, or return the name of the unique constraint it violates. -/
def insert (t : Table) (id : Nat) (values : Row) : Except String Unit × Table :=
  match t.constraints.find? fun c => (c.key values).any fun k => c.index.contains k with
  | some c => (.error c.name, t)
  | none => (.ok (), t.write id values)

/-- Deletes a row and its keys, if the row is there. -/
def delete (t : Table) (id : Nat) : Bool × Table :=
  match t.rows[id]? with
  | none => (false, t)
  | some values => (true, { t with rows := t.rows.erase id }.unindex values)

/-- Replace the values of several rows at once. Rows that no longer exist are skipped.
All old keys are dropped before any new key is checked; on a violation the old rows
are written back. -/
def update (t : Table) (changes : List (Nat × Row)) : Except String Unit × Table :=
  let changes := changes.filter fun change => t.rows.contains change.1
  let olds := changes.map fun change => t.rows.getD change.1 []
  let stripped := olds.foldl unindex t
  match stripped.constraints.find?
      fun c => KeyIndex.clashes c.key c.index (changes.map Prod.snd) [] with
  | some c =>
      (.error c.name, ((changes.map Prod.fst).zip olds).foldl (fun t row => t.write row.1 row.2)
        stripped)
  | none => (.ok (), changes.foldl (fun t row => t.write row.1 row.2) stripped)

/-- Removes all rows and their keys. -/
def truncate (t : Table) : Table :=
  { t with constraints := t.constraints.map (·.mapIndex fun _ => ∅), rows := ∅ }

/-- Collect the keys of rows, failing on the first repeated one. -/
def indexRows (columns : List Nat) : List (Nat × Row) → KeyMap → Option KeyMap
  | [], index => some index
  | (id, values) :: rest, index =>
      match uniqueKey columns values with
      | none => indexRows columns rest index
      | some k => if index.contains k then none else indexRows columns rest (index.insert k id)

/-- The index of the rows at some columns, unless a key occurs twice. -/
def buildIndex (t : Table) (columns : List Nat) : Option KeyMap :=
  indexRows columns t.rows.toList ∅

/-- Add a unique constraint over existing rows, failing if they hold duplicates. A
disabled one starts with an empty index. -/
def addUnique (t : Table) (name : String) (columns : List Nat) (primary isIndex enabled : Bool) :
    Except Unit Unit × Table :=
  match if enabled then t.buildIndex columns else some ∅ with
  | none => (.error (), t)
  | some index =>
      let added : Constraint := ⟨name, .unique columns primary index, isIndex, enabled⟩
      (.ok (), { t with constraints := t.constraints ++ [added] })

/-- Turn the constraint at position `i` on or off. Enabling a unique constraint
rebuilds its index and fails on duplicates; disabling empties it. -/
def setEnabled (t : Table) (i : Nat) (enabled : Bool) : Except Unit Unit × Table :=
  match t.constraints[i]? with
  | none => (.ok (), t)
  | some c =>
      let rebuilt :=
        match c.kind with
        | .unique columns _ _ => if enabled then t.buildIndex columns else some ∅
        | _ => some ∅
      match rebuilt with
      | none => (.error (), t)
      | some index =>
          let changed : Constraint := { c.mapIndex (fun _ => index) with enabled }
          (.ok (), { t with constraints := t.constraints.set i changed })

/-- Whether some row has these values in `columns`: through a unique index over exactly
those columns when there is one, otherwise by scanning. -/
def hasKey (t : Table) (columns : List Nat) (key : String) : Bool :=
  match t.constraints.find? fun c => c.enabled && c.uniqueColumns == some columns with
  | some c => c.index.contains key
  | none => t.rows.toList.any fun row => uniqueKey columns row.2 == some key

/-- Whether the table has a primary key. -/
def hasPrimaryKey (t : Table) : Bool := t.constraints.any (·.isPrimary)

/-- The columns of the enabled primary key, or none of them. -/
def primaryKey (t : Table) : List Nat := (t.constraints.findSome? (·.primaryColumns)).getD []

/-- Whether the column at a position may not be NULL: it is declared so or belongs to the
enabled primary key. -/
def required (t : Table) (position : Nat) : Bool :=
  (t.columns[position]?).any (·.notNull) || t.primaryKey.contains position

end Table

end MockOracle
