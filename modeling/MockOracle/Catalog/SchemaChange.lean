import MockOracle.Catalog.IndexContract
import MockOracle.Catalog.Schema

/-!
# Soundness of schema changes

Operations on the constraints of a table keep it sound: an added or enabled unique
constraint starts with an index built from the rows, and dropping or disabling one leaves
the others as they are.
-/

namespace MockOracle

open Std Semantics

namespace Table

variable {t : Table} {bound : Nat} {name : String}

/-- The rows of an enabled unique constraint with a freshly built index are covered. -/
theorem covers_of_build {columns : List Nat} {index : KeyMap} {enabled : Bool}
    (built : (if enabled then t.buildIndex columns else some ∅) = some index) (label : String)
    (primary isIndex : Bool) :
    KeyIndex.Covers (Constraint.mk label (.unique columns primary index) isIndex enabled).key t.rows
      index := by
  cases enabled with
  | true =>
      simp only [if_true] at built
      have exact := (exact_buildIndex built).covers
      exact exact
  | false =>
      intro id row k _ holds
      simp [Constraint.key] at holds

/-- The indexes still cover the rows after a unique constraint is added. -/
theorem Covers.addUnique (covers : t.Covers) (label : String) (columns : List Nat)
    (primary isIndex enabled : Bool) :
    (t.addUnique label columns primary isIndex enabled).2.Covers := by
  unfold Table.addUnique
  split
  · exact covers
  · next index built =>
      intro c member
      rcases List.mem_append.mp member with old | added
      · exact covers c old
      · rw [List.mem_singleton.mp added]
        exact covers_of_build built label primary isIndex

/-- The indexes still cover the rows after a constraint is enabled or disabled. -/
theorem Covers.setEnabled (covers : t.Covers) (i : Nat) (enabled : Bool) :
    (t.setEnabled i enabled).2.Covers := by
  unfold Table.setEnabled
  split
  · exact covers
  · next c position =>
      obtain ⟨label, kind, isIndex, wasEnabled⟩ := c
      dsimp only
      split
      · exact covers
      · next index built =>
          intro d member
          rcases List.mem_or_eq_of_mem_set member with old | rfl
          · exact covers d old
          · cases kind with
            | unique columns primary old => exact covers_of_build built label primary isIndex
            | check condition => exact fun _ _ _ _ holds => by simp [Constraint.key, Constraint.mapIndex] at holds
            | foreignKey columns parent parentColumns onDelete =>
                exact fun _ _ _ _ holds => by simp [Constraint.key, Constraint.mapIndex] at holds
            | index => exact fun _ _ _ _ holds => by simp [Constraint.key, Constraint.mapIndex] at holds

/-- Adding a unique constraint keeps the columns. -/
theorem columns_addUnique (t : Table) (label : String) (columns : List Nat)
    (primary isIndex enabled : Bool) :
    (t.addUnique label columns primary isIndex enabled).2.columns = t.columns := by
  unfold Table.addUnique
  split <;> rfl

/-- Enabling or disabling a constraint keeps the columns. -/
theorem columns_setEnabled (t : Table) (i : Nat) (enabled : Bool) :
    (t.setEnabled i enabled).2.columns = t.columns := by
  unfold Table.setEnabled
  split
  · rfl
  · dsimp only
    split <;> rfl

namespace Sound

/-- Only the constraints change, and their indexes cover the rows. -/
theorem reconstrain (sound : t.Sound bound name) {u : Table} (sameName : u.name = t.name)
    (columns : u.columns = t.columns) (rows : u.rows = t.rows) (covers : u.Covers) :
    u.Sound bound name where
  named := sameName.trans sound.named
  covers := covers
  width found := by
    rw [rows] at found
    rw [columns]
    exact sound.width found
  below found := by
    rw [rows] at found
    exact sound.below found

/-- Adding a unique constraint keeps the table sound. -/
theorem addUnique (sound : t.Sound bound name) (label : String) (columns : List Nat)
    (primary isIndex enabled : Bool) :
    (t.addUnique label columns primary isIndex enabled).2.Sound bound name := by
  refine sound.reconstrain ?_ (t.columns_addUnique _ _ _ _ _) ?_
    (sound.covers.addUnique label columns primary isIndex enabled)
  all_goals
    unfold Table.addUnique
    split <;> rfl

/-- Enabling or disabling a constraint keeps the table sound. -/
theorem setEnabled (sound : t.Sound bound name) (i : Nat) (enabled : Bool) :
    (t.setEnabled i enabled).2.Sound bound name := by
  refine sound.reconstrain ?_ (t.columns_setEnabled i enabled) ?_
    (sound.covers.setEnabled i enabled)
  all_goals
    unfold Table.setEnabled
    split
    · rfl
    · dsimp only
      split <;> rfl

/-- A constraint that is not unique has nothing to cover. -/
theorem addOther (sound : t.Sound bound name) {c : Constraint} (keyless : c.uniqueColumns = none) :
    ({ t with constraints := t.constraints ++ [c] } : Table).Sound bound name := by
  refine sound.reconstrain rfl rfl rfl fun d member => ?_
  rcases List.mem_append.mp member with old | added
  · exact sound.covers d old
  · rw [List.mem_singleton.mp added]
    intro id row k _ holds
    obtain ⟨label, kind, isIndex, enabled⟩ := c
    cases kind <;> simp_all [Constraint.uniqueColumns, Constraint.key]

/-- Dropping constraints keeps the table sound. -/
theorem filterConstraints (sound : t.Sound bound name) (keep : Constraint → Bool) :
    ({ t with constraints := t.constraints.filter keep } : Table).Sound bound name :=
  sound.reconstrain rfl rfl rfl fun c member => sound.covers c (List.mem_of_mem_filter member)

/-- TRUNCATE keeps the table sound. -/
theorem truncate (sound : t.Sound bound name) : t.truncate.Sound bound name where
  named := sound.named
  covers := t.exact_truncate.covers
  width found := by simp [Table.truncate] at found
  below found := by simp [Table.truncate] at found

/-- A new table is sound. -/
theorem new (columns : List TableColumn) : (Table.new name columns).Sound bound name where
  named := rfl
  covers := fun c member => absurd member (by simp [Table.new])
  width found := by simp [Table.new] at found
  below found := by simp [Table.new] at found

end Sound

end Table

namespace Catalog

variable {cat : Catalog} {bound : Nat}

/-- Changing a table soundly keeps the catalog sound. -/
theorem Sound.modifyTable (sound : cat.Sound bound) {name : String} {f : Table → Table}
    (keeps : ∀ t, t.Sound bound name → (f t).Sound bound name) :
    (cat.modifyTable name f).Sound bound := by
  cases found : cat.table name with
  | none => simpa [Catalog.modifyTable, found] using sound
  | some t =>
      rw [modifyTable_of_found f found]
      exact sound.setTable (keeps t (sound name t found))

/-- Soundness is about the tables only. -/
theorem Sound.of_tables (sound : cat.Sound bound) {cat' : Catalog} (same : cat'.tables = cat.tables) :
    cat'.Sound bound := by
  intro name t found
  rw [table, same] at found
  exact sound name t found

end Catalog

end MockOracle
