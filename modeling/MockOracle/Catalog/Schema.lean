import MockOracle.Catalog.Catalog
import MockOracle.Catalog.TableIndex

/-!
# What row operations leave alone

Row operations change rows and index contents, never a table's name, columns or the
constraints' definitions. `Table.schema` is that fixed part. `Table.Sound` is what the
rest of the development may rely on in any table of any catalog it meets: the table is
filed under its own name, its indexes cover its rows, every row has one value for each
column, and row ids are ones that have been handed out.
-/

namespace MockOracle

open Std Semantics

namespace Constraint

/-- The constraint without the contents of its index. -/
def shape (c : Constraint) : Constraint := c.mapIndex fun _ => ∅

@[simp] theorem shape_mapIndex (c : Constraint) (f : KeyMap → KeyMap) :
    (c.mapIndex f).shape = c.shape := by
  rw [shape, mapIndex_mapIndex]
  rfl

@[simp] theorem key_shape (c : Constraint) : c.shape.key = c.key := c.key_mapIndex _

@[simp] theorem enabled_shape (c : Constraint) : c.shape.enabled = c.enabled := c.enabled_mapIndex _

end Constraint

namespace Table

/-- Everything of a table but its rows and the contents of its indexes. -/
def schema (t : Table) : Table :=
  { t with constraints := t.constraints.map Constraint.shape, rows := ∅ }

variable {t : Table}

/-- Changing rows and the contents of indexes keeps the schema. -/
theorem schema_of_mapIndex (f : Constraint → KeyMap → KeyMap) (rows : Rows) :
    ({ t with constraints := t.constraints.map fun c => c.mapIndex (f c), rows } : Table).schema =
      t.schema := by
  simp [schema, Function.comp_def]

/-- Writing a row keeps the schema. -/
@[simp] theorem schema_write (id : Nat) (values : Row) : (t.write id values).schema = t.schema :=
  schema_of_mapIndex _ _

/-- Replacing rows keeps the schema. -/
@[simp] theorem schema_replace (changes : List (Nat × Row)) (olds : List Row) :
    (t.replace changes olds).schema = t.schema := schema_of_mapIndex _ _

/-- An INSERT keeps the schema. -/
@[simp] theorem schema_insert (id : Nat) (values : Row) :
    (t.insert id values).2.schema = t.schema := by
  rcases t.insert_cases id values with ⟨equal, _⟩ | ⟨_, _, equal, _⟩ <;> simp [equal]

/-- A DELETE keeps the schema. -/
@[simp] theorem schema_delete (id : Nat) : (t.delete id).2.schema = t.schema := by
  unfold delete
  split
  · rfl
  · exact schema_of_mapIndex _ _

/-- An UPDATE keeps the schema. -/
@[simp] theorem schema_update (changes : List (Nat × Row)) :
    (t.update changes).2.schema = t.schema := by
  rcases t.update_cases changes with ⟨equal, _⟩ | ⟨_, equal, _⟩ <;> simp [equal]

/-- TRUNCATE keeps the schema. -/
@[simp] theorem schema_truncate : t.truncate.schema = t.schema := schema_of_mapIndex _ _

section SameSchema

variable {u : Table} (same : u.schema = t.schema)

include same

/-- Tables of one schema have one name. -/
theorem name_of_schema : u.name = t.name := by
  have equal : u.schema.name = t.schema.name := by rw [same]
  exact equal

/-- Tables of one schema have the same columns. -/
theorem columns_of_schema : u.columns = t.columns := by
  have equal : u.schema.columns = t.schema.columns := by rw [same]
  exact equal

/-- Tables of one schema have the same constraints, apart from the contents of their indexes. -/
theorem shapes_of_schema :
    u.constraints.map Constraint.shape = t.constraints.map Constraint.shape :=
  congrArg Table.constraints same

/-- Tables of one schema file rows under the same keys. -/
theorem forall_key_iff (P : (Row → Option String) → Prop) :
    (∀ c ∈ u.constraints, P c.key) ↔ ∀ c ∈ t.constraints, P c.key := by
  have through : ∀ w : Table, (∀ c ∈ w.constraints, P c.key) ↔
      ∀ d ∈ w.constraints.map Constraint.shape, P d.key := by
    intro w
    simp
  rw [through u, through t, shapes_of_schema same]

end SameSchema

/-! ## The rows after an operation -/

/-- Inserting a row adds it or changes no rows. -/
theorem rows_insert (id : Nat) (values : Row) :
    (t.insert id values).2.rows = t.rows.insert id values ∨
      (t.insert id values).2.rows = t.rows := by
  rcases t.insert_cases id values with ⟨equal, _⟩ | ⟨_, _, equal, _⟩ <;> simp [equal, write]

/-- The rows after one is deleted. -/
@[simp] theorem rows_delete (id : Nat) : (t.delete id).2.rows = t.rows.erase id := by
  unfold delete
  split
  · next missing =>
      refine ExtTreeMap.ext_getElem? fun other => ?_
      rw [ExtTreeMap.getElem?_erase]
      split
      · next same => rw [← LawfulEqOrd.eq_of_compare same, missing]
      · rfl
  · rfl

/-- A row after an update is as before or one of the changes of an existing row. -/
theorem rows_update {changes : List (Nat × Row)} {id : Nat} {row : Row}
    (covers : t.Covers) (found : (t.update changes).2.rows[id]? = some row) :
    t.rows[id]? = some row ∨ (id, row) ∈ changes ∧ ∃ old, t.rows[id]? = some old := by
  cases outcome : (t.update changes).1 with
  | error name =>
      rw [update_error covers outcome] at found
      exact Or.inl found
  | ok _ =>
      rcases t.update_cases changes with ⟨equal, _⟩ | ⟨name, equal, _⟩
      · rw [equal] at found
        by_cases changed : id ∈ (t.present changes).map Prod.fst
        · have member := KeyIndex.mem_of_getElem?_writeAll changed found
          have kept := List.mem_filter.mp member
          rw [ExtTreeMap.contains_eq_isSome_getElem?] at kept
          exact Or.inr ⟨kept.1, Option.isSome_iff_exists.mp kept.2⟩
        · exact Or.inl ((KeyIndex.getElem?_writeAll_of_absent changed).symm.trans found)
      · rw [equal] at outcome
        cases outcome

/-! ## Sound tables -/

/-- A table of this name whose indexes cover its rows, whose rows are as wide as its columns, and
whose row ids are below a bound. -/
structure Sound (bound : Nat) (name : String) (t : Table) : Prop where
  named : t.name = name
  covers : t.Covers
  width : ∀ {id : Nat} {row : Row}, t.rows[id]? = some row → row.length = t.columns.length
  below : ∀ {id : Nat} {row : Row}, t.rows[id]? = some row → id < bound

namespace Sound

variable {bound : Nat} {name : String} (sound : t.Sound bound name)

include sound

/-- Row ids below a bound are below a larger one. -/
theorem mono {bound' : Nat} (le : bound ≤ bound') : t.Sound bound' name :=
  { sound with below := fun found => Nat.lt_of_lt_of_le (sound.below found) le }

/-- An id that has not been handed out is not in the table. -/
theorem fresh {id : Nat} (unused : bound ≤ id) : t.rows[id]? = none := by
  cases found : t.rows[id]? with
  | none => rfl
  | some row => exact absurd (sound.below found) (by omega)

/-- Inserting a row of the right width under an id below the bound keeps a table sound. -/
theorem insert {id : Nat} {values : Row} (used : id < bound)
    (fits : values.length = t.columns.length) : (t.insert id values).2.Sound bound name := by
  have columns := columns_of_schema (t.schema_insert id values)
  have old : ∀ {other : Nat} {row : Row}, (t.insert id values).2.rows[other]? = some row →
      (other = id ∧ row = values) ∨ t.rows[other]? = some row := by
    intro other row found
    rcases t.rows_insert id values with rows | rows <;> rw [rows] at found
    · rw [ExtTreeMap.getElem?_insert] at found
      split at found
      · next same => exact Or.inl ⟨(LawfulEqOrd.eq_of_compare same).symm, (Option.some.inj found).symm⟩
      · exact Or.inr found
    · exact Or.inr found
  refine ⟨(name_of_schema (t.schema_insert id values)).trans sound.named,
    sound.covers.insert id values, ?_, ?_⟩
  · intro other row found
    rw [columns]
    rcases old found with ⟨-, rfl⟩ | found
    · exact fits
    · exact sound.width found
  · intro other row found
    rcases old found with ⟨rfl, -⟩ | found
    · exact used
    · exact sound.below found

/-- Deleting a row keeps a table sound. -/
theorem delete (id : Nat) : (t.delete id).2.Sound bound name := by
  have old : ∀ {other : Nat} {row : Row}, (t.delete id).2.rows[other]? = some row →
      t.rows[other]? = some row := by
    intro other row found
    rw [rows_delete, ExtTreeMap.getElem?_erase] at found
    split at found
    · cases found
    · exact found
  refine ⟨(name_of_schema (t.schema_delete id)).trans sound.named, sound.covers.delete id, ?_, ?_⟩
  · intro other row found
    rw [columns_of_schema (t.schema_delete id)]
    exact sound.width (old found)
  · intro other row found
    exact sound.below (old found)

/-- Updating to rows of the right width keeps a table sound. -/
theorem update {changes : List (Nat × Row)}
    (fits : ∀ change ∈ changes, change.2.length = t.columns.length) :
    (t.update changes).2.Sound bound name := by
  refine ⟨(name_of_schema (t.schema_update changes)).trans sound.named,
    sound.covers.update changes, ?_, ?_⟩
  · intro id row found
    rw [columns_of_schema (t.schema_update changes)]
    rcases rows_update sound.covers found with kept | ⟨member, _⟩
    · exact sound.width kept
    · exact fits _ member
  · intro id row found
    rcases rows_update sound.covers found with kept | ⟨_, old, before⟩
    · exact sound.below kept
    · exact sound.below before

end Sound

end Table

/-! ## Sound catalogs -/

namespace Catalog

/-- Every table is sound, with row ids below `bound`. -/
def Sound (bound : Nat) (cat : Catalog) : Prop :=
  ∀ name t, cat.table name = some t → t.Sound bound name

variable {cat : Catalog} {bound : Nat}

/-- A catalog that is sound below a bound is sound below a larger one. -/
theorem Sound.mono (sound : cat.Sound bound) {bound' : Nat} (le : bound ≤ bound') :
    cat.Sound bound' := fun name t found => (sound name t found).mono le

/-- A sound table can take the place of another. -/
theorem Sound.setTable (sound : cat.Sound bound) {name : String} {t : Table}
    (new : t.Sound bound name) : (cat.setTable name t).Sound bound := by
  intro other u found
  rw [table_setTable] at found
  split at found
  · next same =>
      cases found
      exact same ▸ new
  · exact sound other u found

/-- There is nothing in an empty catalog that would not be sound. -/
theorem sound_empty : Catalog.empty.Sound bound := by
  intro name t found
  simp [Catalog.empty, table] at found

/-- The schema a table has under a name. -/
def schema (cat : Catalog) (name : String) : Option Table := (cat.table name).map Table.schema

/-- A table of the same schema can take the place of another without changing the catalog's schema.
-/
theorem schema_setTable {name : String} {t u : Table} (found : cat.table name = some t)
    (same : u.schema = t.schema) : (cat.setTable name u).schema = cat.schema := by
  funext other
  rw [schema, table_setTable]
  split
  · next equal => rw [schema, ← equal, found, Option.map_some, same, Option.map_some]
  · rfl

/-- A foreign key is what the shape of its constraint says. -/
theorem foreignKeyRef_shape (child : String) (c : Constraint) :
    foreignKeyRef child c.shape = foreignKeyRef child c := by
  obtain ⟨name, kind, isIndex, enabled⟩ := c
  cases kind <;> rfl

/-- The foreign keys of a catalog are what the schemas of its tables say. -/
theorem foreignKeys_eq_schemas (cat : Catalog) : cat.foreignKeys =
    (cat.tables.map fun _ t => t.schema).toList.flatMap fun entry =>
      entry.2.constraints.filterMap (foreignKeyRef entry.2.name) := by
  rw [ExtTreeMap.toList_map, List.flatMap_map, foreignKeys]
  congr 1
  funext entry
  simp only [Table.schema, List.filterMap_map]
  exact List.filterMap_congr fun c _ => (foreignKeyRef_shape entry.2.name c).symm

/-- Foreign keys are part of the schema. -/
theorem foreignKeys_of_schema {cat' : Catalog} (same : cat'.schema = cat.schema) :
    cat'.foreignKeys = cat.foreignKeys := by
  have tables : (cat'.tables.map fun _ t => t.schema) = cat.tables.map fun _ t => t.schema := by
    refine ExtTreeMap.ext_getElem? fun name => ?_
    rw [ExtTreeMap.getElem?_map, ExtTreeMap.getElem?_map]
    exact congrFun same name
  rw [foreignKeys_eq_schemas, foreignKeys_eq_schemas, tables]

end Catalog

end MockOracle
