import MockOracle.Session.DdlFormed
import MockOracle.Session.Merge

/-!
# Consistent catalogs

A catalog is consistent if its rows satisfy NOT NULL and every enabled constraint. Of a sound
catalog this is a matter of single rows and of foreign keys, since unique keys are distinct
wherever the indexes cover the rows. `Merges` is what this comes to for a replay, in terms of the
catalog and the log before it.
-/

namespace MockOracle

open Std Semantics

/-- What a constraint says about one row: a primary key column is not NULL, and a CHECK is not
FALSE. -/
def Constraint.Admits (truth : Expr → Row → Option Bool) (k : Constraint) (row : Row) : Prop :=
  match k.kind with
  | .unique columns true _ => Complete columns row
  | .check condition => truth condition row ≠ some false
  | _ => True

/-- A row has no NULL in a NOT NULL column, and every enabled constraint admits it. -/
structure Table.Admits (truth : Truth) (t : Table) (row : Row) : Prop where
  notNull : ∀ i column, t.columns[i]? = some column → column.notNull = true →
    (cell row i).isNull = false
  constraints : ∀ k ∈ t.constraints, k.enabled = true → k.Admits (truth (tableScopeCols t t.name)) row

/-- The rows of every table satisfy NOT NULL and all enabled constraints. -/
def Catalog.Consistent (truth : Truth) (cat : Catalog) : Prop :=
  ∀ name t, cat.table name = some t →
    (∀ (id : Nat) (row : Row), t.rows[id]? = some row → ∀ i column, t.columns[i]? = some column →
      column.notNull = true → (cell row i).isNull = false) ∧
    ∀ k ∈ t.constraints, k.enabled = true → k.Satisfied (truth (tableScopeCols t t.name)) cat t

theorem Constraint.admits_shape (truth : Expr → Row → Option Bool) (k : Constraint) (row : Row) :
    k.shape.Admits truth row ↔ k.Admits truth row := by
  obtain ⟨name, kind, isIndex, enabled⟩ := k
  cases kind with
  | unique columns primary index => cases primary <;> rfl
  | check condition => rfl
  | foreignKey columns parent parentColumns onDelete => rfl
  | index => rfl

theorem Table.Admits.of_schema {truth : Truth} {t u : Table} {row : Row} (admits : t.Admits truth row)
    (same : u.schema = t.schema) : u.Admits truth row where
  notNull := by
    rw [columns_of_schema same]
    exact admits.notNull
  constraints k member enabled := by
    have shapes : k.shape ∈ t.constraints.map Constraint.shape := by
      rw [← shapes_of_schema same]
      exact List.mem_map_of_mem member
    obtain ⟨l, memberL, shape⟩ := List.mem_map.mp shapes
    have cols : tableScopeCols u u.name = tableScopeCols t t.name := by
      rw [tableScopeCols, tableScopeCols, columns_of_schema same, name_of_schema same]
    have enabledL : l.enabled = true := by
      rw [← Constraint.enabled_shape, shape, Constraint.enabled_shape]
      exact enabled
    rw [cols, ← Constraint.admits_shape, ← shape, Constraint.admits_shape]
    exact admits.constraints l memberL enabledL

section Consistent

variable {truth : Truth} {cat : Catalog} {bound : Nat}

theorem foreignKeyRef_enabled {child : String} {k : Constraint} {f : ForeignKeyRef}
    (ref : Catalog.foreignKeyRef child k = some f) : f.enabled = k.enabled := by
  unfold Catalog.foreignKeyRef at ref
  split at ref
  · cases ref
    rfl
  · cases ref

/-- A foreign key is satisfied by the rows of its table if it is as a foreign key of the catalog. -/
theorem Constraint.satisfied_iff_ref {t : Table} {k : Constraint} {f : ForeignKeyRef}
    (found : cat.table t.name = some t) (ref : Catalog.foreignKeyRef t.name k = some f)
    (truth : Expr → Row → Option Bool) : k.Satisfied truth cat t ↔ f.Satisfied cat := by
  obtain ⟨name, kind, isIndex, enabled⟩ := k
  cases kind with
  | unique columns primary index => cases ref
  | check condition => cases ref
  | index => cases ref
  | foreignKey columns parent parentColumns onDelete =>
      cases ref
      simp only [Constraint.Satisfied, ForeignKeyRef.Satisfied, Edit.rowAt_of_found found]
      refine forall₂_congr fun id row => forall₂_congr fun _ _ => ?_
      constructor
      · rintro ⟨p, isParent, parentId, values, stored, same⟩
        exact ⟨parentId, values, (Edit.rowAt_of_found isParent parentId).trans stored, same⟩
      · rintro ⟨parentId, values, stored, same⟩
        obtain ⟨p, isParent, storedP⟩ := Option.bind_eq_some_iff.mp stored
        exact ⟨p, isParent, parentId, values, storedP, same⟩

/-- A sound catalog is consistent if every row is admitted and every enabled foreign key is
satisfied. -/
theorem Catalog.Sound.consistent_iff (sound : cat.Sound bound) : cat.Consistent truth ↔
    (∀ a row t, cat.table a.1 = some t → cat.rowAt a = some row → t.Admits truth row) ∧
      ∀ f ∈ cat.foreignKeys.filter (·.enabled), f.Satisfied cat := by
  constructor
  · intro consistent
    constructor
    · intro a row t found stored
      rw [show a = (a.1, a.2) from rfl, Edit.rowAt_of_found found] at stored
      obtain ⟨notNull, satisfied⟩ := consistent a.1 t found
      refine ⟨notNull a.2 row stored, fun k member enabled => ?_⟩
      have holds := satisfied k member enabled
      obtain ⟨name, kind, isIndex, on⟩ := k
      cases kind with
      | unique columns primary index =>
          cases primary with
          | true => exact holds.2 rfl a.2 row stored
          | false => trivial
      | check condition => exact holds a.2 row stored
      | foreignKey columns parent parentColumns onDelete => trivial
      | index => trivial
    · intro f member
      obtain ⟨isKey, enabled⟩ := List.mem_filter.mp member
      obtain ⟨name, t, found, k, memberK, ref⟩ := Catalog.mem_foreignKeys.mp isKey
      have named := (sound name t found).named
      have enabledK : k.enabled = true := by
        rw [← enabled]
        exact (foreignKeyRef_enabled ref).symm
      exact (Constraint.satisfied_iff_ref (named ▸ found) ref _).mp
        ((consistent name t found).2 k memberK enabledK)
  · rintro ⟨rows, keys⟩ name t found
    have rowOk : ∀ (id : Nat) (row : Row), t.rows[id]? = some row → t.Admits truth row :=
      fun id row stored => rows (name, id) row t found ((Edit.rowAt_of_found found id).trans stored)
    refine ⟨fun id row stored => (rowOk id row stored).notNull, fun k member enabled => ?_⟩
    have distinct := (sound name t found).covers.distinct member enabled
    have admits := fun id row stored => (rowOk id row stored).constraints k member enabled
    have named := (sound name t found).named
    cases ref : Catalog.foreignKeyRef t.name k with
    | some f =>
        refine (Constraint.satisfied_iff_ref (named ▸ found) ref _).mpr (keys f ?_)
        refine List.mem_filter.mpr ⟨Catalog.mem_foreignKeys.mpr ⟨name, t, found, k, member, ref⟩, ?_⟩
        rw [foreignKeyRef_enabled ref]
        exact enabled
    | none =>
        obtain ⟨label, kind, isIndex, on⟩ := k
        cases kind with
        | unique columns primary index =>
            refine ⟨distinct columns rfl, fun isPrimary id row stored => ?_⟩
            subst isPrimary
            exact admits id row stored
        | check condition => exact admits
        | foreignKey columns parent parentColumns onDelete => cases ref
        | index => trivial

end Consistent

/-! ## Replays -/

/-- A log can be replayed onto a consistent catalog without breaking a constraint other than a
unique key. -/
structure Merges (truth : Truth) (cat : Catalog) (log : List Change) : Prop where
  /-- The rows that the log writes meet what the catalog says about single rows by now. -/
  rows : ∀ a row t, cat.table a.1 = some t → Lands cat log a row → t.Admits truth row
  /-- The rows that the log writes have their parents, left in the catalog or written. -/
  children : ∀ f ∈ cat.foreignKeys.filter (·.enabled), ∀ id row, Lands cat log (f.child, id) row →
    Complete f.columns row → ∃ parentId p,
      (Stays cat log (f.parent, parentId) p ∨ Lands cat log (f.parent, parentId) p) ∧
        SameKey f.columns row f.parentColumns p
  /-- If the log takes the parents of a row that it leaves in the catalog, it writes another. -/
  parents : ∀ f ∈ cat.foreignKeys.filter (·.enabled), ∀ id row, Stays cat log (f.child, id) row →
    Complete f.columns row →
    (∀ parentId p, cat.rowAt (f.parent, parentId) = some p →
      SameKey f.columns row f.parentColumns p → ¬ Stays cat log (f.parent, parentId) p) →
    ∃ parentId p, Lands cat log (f.parent, parentId) p ∧ SameKey f.columns row f.parentColumns p

section Replay

variable {truth : Truth} {cat next : Catalog} {bound : Nat} {log : List Change} {user : String}

/-- A replay onto a consistent catalog gives a consistent one if and only if the log merges. -/
theorem replay_consistent_iff (sound : cat.Sound bound) (consistent : cat.Consistent truth)
    (used : ∀ change ∈ log, change.id < bound) (widths : ∀ a, ∃ columns, WidthAt log a columns)
    (last : log.Pairwise fun change later => change.address = later.address → change.image ≠ none)
    (success : replay user log cat = .ok next) :
    next.Consistent truth ↔ Merges truth cat log := by
  have keeps := replay_keeps used success
  have left : ∀ a row, next.rowAt a = some row ↔ Stays cat log a row ∨ Lands cat log a row := by
    intro a row
    obtain ⟨columns, wide⟩ := widths a
    exact replay_row_iff used wide last success
  obtain ⟨rows, keys⟩ := sound.consistent_iff.mp consistent
  rw [(keeps.sound sound).consistent_iff, Catalog.foreignKeys_of_schema keeps.schema]
  constructor
  · rintro ⟨rowsNext, keysNext⟩
    constructor
    · intro a row t found lands
      obtain ⟨t', found', same⟩ := Catalog.table_of_schema keeps.schema found
      exact (rowsNext a row t' found' ((left a row).mpr (Or.inr lands))).of_schema same.symm
    · intro f member id row lands complete
      obtain ⟨parentId, p, stored, same⟩ :=
        keysNext f member id row ((left _ row).mpr (Or.inr lands)) complete
      exact ⟨parentId, p, (left _ p).mp stored, same⟩
    · intro f member id row stays complete taken
      obtain ⟨parentId, p, stored, same⟩ :=
        keysNext f member id row ((left _ row).mpr (Or.inl stays)) complete
      rcases (left _ p).mp stored with staysP | lands
      · exact absurd staysP (taken parentId p staysP.1 same)
      · exact ⟨parentId, p, lands, same⟩
  · intro merges
    constructor
    · intro a row t' found' stored
      obtain ⟨t, found, same⟩ := Catalog.table_of_schema keeps.schema.symm found'
      rcases (left a row).mp stored with stays | lands
      · exact (rows a row t found stays.1).of_schema same.symm
      · exact (merges.rows a row t found lands).of_schema same.symm
    · intro f member id row stored complete
      rcases (left _ row).mp stored with stays | lands
      · by_cases taken : ∀ parentId p, cat.rowAt (f.parent, parentId) = some p →
            SameKey f.columns row f.parentColumns p → ¬ Stays cat log (f.parent, parentId) p
        · obtain ⟨parentId, p, landsP, same⟩ := merges.parents f member id row stays complete taken
          exact ⟨parentId, p, (left _ p).mpr (Or.inr landsP), same⟩
        · push Not at taken
          obtain ⟨parentId, p, -, same, staysP⟩ := taken
          exact ⟨parentId, p, (left _ p).mpr (Or.inl staysP), same⟩
      · obtain ⟨parentId, p, kept, same⟩ := merges.children f member id row lands complete
        exact ⟨parentId, p, (left _ p).mpr kept, same⟩

end Replay

end MockOracle
