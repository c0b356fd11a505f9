import MockOracle.Catalog.Catalog
import MockOracle.Catalog.IndexContract
import MockOracle.Core.KeyText

/-!
# What constraints say about rows

A constraint is satisfied by the rows of its table and, for a foreign key, those of its parent.
The code never looks at rows this way: it compares keys as strings, and looks a foreign key up
with `hasKey`. `Constraint.Checked` is what those checks establish, and `Constraint.LookupsRight`
is what has to hold besides for a checked foreign key to be satisfied.
-/

namespace MockOracle

open Std Semantics

/-- Two rows have the same SQL values in two lists of columns. -/
def SameKey (columns : List Nat) (row : Row) (columns' : List Nat) (row' : Row) : Prop :=
  List.Forall₂ Value.Same (keyValues columns row) (keyValues columns' row')

/-- No column of a key is NULL. -/
def Complete (columns : List Nat) (row : Row) : Prop :=
  ∀ i ∈ columns, (cell row i).isNull = false

namespace Table

/-- Rows whose key is not all NULL differ in it. -/
def Distinct (t : Table) (columns : List Nat) : Prop :=
  ∀ {id id' : Nat} {row row' : Row}, t.rows[id]? = some row → t.rows[id']? = some row' →
    (∃ i ∈ columns, (cell row i).isNull = false) → SameKey columns row columns row' → id = id'

/-- Some row has the values of a key. -/
def Holds (t : Table) (columns : List Nat) (child : List Nat) (row : Row) : Prop :=
  ∃ (id : Nat) (row' : Row), t.rows[id]? = some row' ∧ SameKey child row columns row'

end Table

namespace Constraint

/-- The rows of a table satisfy a constraint, where `truth` gives the value of CHECK conditions:
unique keys are distinct, primary key columns are not NULL, CHECK is not FALSE, and a foreign
key without a NULL is the key of a parent row. -/
def Satisfied (truth : Expr → Row → Option Bool) (cat : Catalog) (t : Table) (k : Constraint) :
    Prop :=
  match k.kind with
  | .unique columns primary _ =>
      t.Distinct columns ∧
        (primary = true → ∀ (id : Nat) (row : Row), t.rows[id]? = some row → Complete columns row)
  | .check condition => ∀ (id : Nat) (row : Row), t.rows[id]? = some row → truth condition row ≠ some false
  | .foreignKey columns parent parentColumns _ =>
      ∀ (id : Nat) (row : Row), t.rows[id]? = some row → Complete columns row →
        ∃ p, cat.table parent = some p ∧ p.Holds parentColumns columns row
  | .index => True

/-- What validating a constraint checks: for a foreign key, that its parent reports the key. -/
def Checked (truth : Expr → Row → Option Bool) (cat : Catalog) (t : Table) (k : Constraint) :
    Prop :=
  match k.kind with
  | .unique columns primary _ =>
      primary = true → ∀ (id : Nat) (row : Row), t.rows[id]? = some row → Complete columns row
  | .check condition => ∀ (id : Nat) (row : Row), t.rows[id]? = some row → truth condition row ≠ some false
  | .foreignKey columns parent parentColumns _ =>
      ∀ (id : Nat) (row : Row) (key : String), t.rows[id]? = some row → foreignKey columns row = some key →
        ∃ p, cat.table parent = some p ∧ p.hasKey parentColumns key = true
  | .index => True

/-- Every foreign key value that the parent reports is held by a parent row. -/
def LookupsRight (cat : Catalog) (t : Table) (k : Constraint) : Prop :=
  match k.kind with
  | .foreignKey columns parent parentColumns _ =>
      ∀ (id : Nat) (row : Row) (key : String) (p : Table), t.rows[id]? = some row →
        foreignKey columns row = some key → cat.table parent = some p →
          p.hasKey parentColumns key = true → p.Holds parentColumns columns row
  | _ => True

/-- The unique keys of a table are distinct. -/
def KeysDistinct (t : Table) (k : Constraint) : Prop :=
  ∀ columns, k.uniqueColumns = some columns → t.Distinct columns

end Constraint

/-! ## Keys as strings -/

theorem Value.Same.isNull {v w : Value} (same : v.Same w) : v.isNull = w.isNull := by
  cases v <;> cases w <;> first | rfl | cases same

theorem keyString_of_same {xs ys : List Value} (same : List.Forall₂ Value.Same xs ys) :
    keyString xs = keyString ys := by
  have texts := forall_same_iff.mp same
  rw [keyString_eq_iff, Tokens.join, Tokens.join, List.flatMap_def, List.flatMap_def]
  have through : ∀ zs : List Value, (zs.map fun t => keyTokens.text t ++ [keyTokens.separator]) =
      (zs.map keyTokens.text).map fun text => text ++ [keyTokens.separator] := by
    simp
  rw [through xs, through ys, texts]

theorem all_isNull_of_same {xs ys : List Value} (same : List.Forall₂ Value.Same xs ys) :
    xs.all Value.isNull = ys.all Value.isNull := by
  induction same with
  | nil => rfl
  | cons first _ ih => rw [List.all_cons, List.all_cons, first.isNull, ih]

theorem uniqueKey_of_same {columns columns' : List Nat} {row row' : Row}
    (same : SameKey columns row columns' row') :
    uniqueKey columns row = uniqueKey columns' row' := by
  rw [uniqueKey, uniqueKey, all_isNull_of_same same, keyString_of_same same]

theorem uniqueKey_isSome {columns : List Nat} {row : Row} :
    (∃ key, uniqueKey columns row = some key) ↔ ∃ i ∈ columns, (cell row i).isNull = false := by
  unfold uniqueKey
  split
  · next allNull =>
      simp only [List.all_map, List.all_eq_true, Function.comp_apply] at allNull
      simp only [reduceCtorEq, exists_false, false_iff, not_exists, not_and, Bool.not_eq_false]
      exact allNull
  · next someValue =>
      simpa using someValue

theorem foreignKey_isSome {columns : List Nat} {row : Row} :
    (∃ key, foreignKey columns row = some key) ↔ Complete columns row := by
  unfold foreignKey Complete
  split
  · next someNull =>
      simp only [List.any_map, List.any_eq_true, Function.comp_apply] at someNull
      obtain ⟨i, member, null⟩ := someNull
      simp only [reduceCtorEq, exists_false, false_iff, not_forall]
      exact ⟨i, member, Bool.not_eq_false _ ▸ null⟩
  · next noNull =>
      simpa using noNull

namespace Table

variable {t : Table} {columns : List Nat}

/-- An index can be built only over distinct keys. -/
theorem distinct_of_buildIndex {built : KeyMap} (success : t.buildIndex columns = some built) :
    t.Distinct columns := by
  intro id id' row row' found found' someValue same
  have exact := exact_buildIndex success
  obtain ⟨key, filed⟩ := uniqueKey_isSome.mpr someValue
  have entry := (exact key id).mpr ⟨row, found, filed⟩
  have entry' := (exact key id').mpr ⟨row', found', (uniqueKey_of_same same).symm.trans filed⟩
  exact Option.some.inj (entry.symm.trans entry')

/-- Covered rows have distinct keys. -/
theorem Covers.distinct (covers : t.Covers) {k : Constraint} (member : k ∈ t.constraints)
    (enabled : k.enabled = true) : k.KeysDistinct t := by
  intro columns unique id id' row row' found found' someValue same
  have cover := covers k member
  rw [Constraint.key_of_enabled enabled unique] at cover
  obtain ⟨key, filed⟩ := uniqueKey_isSome.mpr someValue
  have entry := cover id row key found filed
  have entry' := cover id' row' key found' ((uniqueKey_of_same same).symm.trans filed)
  exact Option.some.inj (entry.symm.trans entry')

end Table

namespace Constraint

variable {truth : Expr → Row → Option Bool} {cat : Catalog} {t : Table} {k : Constraint}

/-- A checked constraint is satisfied exactly if the lookups of its check were right. -/
theorem satisfied_iff_lookupsRight (checked : k.Checked truth cat t) (distinct : k.KeysDistinct t) :
    k.Satisfied truth cat t ↔ k.LookupsRight cat t := by
  obtain ⟨name, kind, isIndex, enabled⟩ := k
  cases kind with
  | unique columns primary index =>
      exact ⟨fun _ => trivial, fun _ => ⟨distinct columns rfl, checked⟩⟩
  | check condition => exact ⟨fun _ => trivial, fun _ => checked⟩
  | foreignKey columns parent parentColumns onDelete =>
      constructor
      · intro satisfied id row key p found filed isParent _
        obtain ⟨p', isParent', held⟩ :=
          satisfied id row found (foreignKey_isSome.mp ⟨key, filed⟩)
        rw [isParent] at isParent'
        cases isParent'
        exact held
      · intro right id row found complete
        obtain ⟨key, filed⟩ := foreignKey_isSome.mpr complete
        obtain ⟨p, isParent, reported⟩ := checked id row key found filed
        exact ⟨p, isParent, right id row key p found filed isParent reported⟩
  | index => exact ⟨fun _ => trivial, fun _ => trivial⟩

end Constraint

end MockOracle
