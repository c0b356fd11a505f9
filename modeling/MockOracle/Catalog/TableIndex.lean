import MockOracle.Catalog.Table

/-!
# Index maintenance in tables

Each table operation acts on every constraint separately, as the operation of
`Semantics.KeyIndex` that it is named after. The first part states this once for each
operation; coverage and exactness of the indexes then follow from the library. A table
`Covers` when every enabled unique index finds every row that has a key. It is `Exact`
when in addition the indexes hold nothing else.
-/

namespace MockOracle

open Std Semantics

namespace Constraint

variable (c : Constraint) (f g : KeyMap → KeyMap)

@[simp] theorem name_mapIndex : (c.mapIndex f).name = c.name := by
  unfold mapIndex; split <;> rfl

@[simp] theorem isIndex_mapIndex : (c.mapIndex f).isIndex = c.isIndex := by
  unfold mapIndex; split <;> rfl

@[simp] theorem enabled_mapIndex : (c.mapIndex f).enabled = c.enabled := by
  unfold mapIndex; split <;> rfl

@[simp] theorem key_mapIndex : (c.mapIndex f).key = c.key := by
  funext values
  cases c with
  | mk name kind isIndex enabled => cases kind <;> rfl

@[simp] theorem uniqueColumns_mapIndex : (c.mapIndex f).uniqueColumns = c.uniqueColumns := by
  cases c with
  | mk name kind isIndex enabled => cases kind <;> rfl

@[simp] theorem primaryColumns_mapIndex : (c.mapIndex f).primaryColumns = c.primaryColumns := by
  cases c with
  | mk name kind isIndex enabled =>
      cases kind with
      | unique columns primary index => cases primary <;> rfl
      | _ => rfl

@[simp] theorem mapIndex_mapIndex : (c.mapIndex f).mapIndex g = c.mapIndex (g ∘ f) := by
  cases c with
  | mk name kind isIndex enabled => cases kind <;> rfl

/-- Only unique constraints have an index to change. -/
theorem index_mapIndex {f : KeyMap → KeyMap} (idle : (∀ values, c.key values = none) →
    f c.index = c.index) : (c.mapIndex f).index = f c.index := by
  cases c with
  | mk name kind isIndex enabled =>
      cases kind with
      | unique columns primary index => rfl
      | check condition => exact (idle fun _ => rfl).symm
      | foreignKey columns parent parentColumns onDelete => exact (idle fun _ => rfl).symm
      | index => exact (idle fun _ => rfl).symm

/-- Changing an index to itself changes nothing. -/
theorem mapIndex_eq_self {f : KeyMap → KeyMap} (same : f c.index = c.index) :
    c.mapIndex f = c := by
  cases c with
  | mk name kind isIndex enabled =>
      cases kind with
      | unique columns primary index =>
          simp only [Constraint.index] at same
          simp [mapIndex, same]
      | check condition => rfl
      | foreignKey columns parent parentColumns onDelete => rfl
      | index => rfl

/-- Dropping several rows' keys and entering others, as one change of the index. -/
def reindex (c : Constraint) (changes : List (Nat × Row)) (olds : List Row) : Constraint :=
  c.mapIndex fun index => KeyIndex.enterAll c.key changes (KeyIndex.unindexAll c.key olds index)

/-- A constraint without keys has nothing to drop from its index. -/
theorem unindexAll_of_keyless {key : Row → Option String} (keyless : ∀ values, key values = none)
    (olds : List Row) (index : KeyMap) : KeyIndex.unindexAll key olds index = index := by
  induction olds with
  | nil => rfl
  | cons old rest ih => simp [KeyIndex.unindexAll, keyless, KeyIndex.unindex]

/-- A constraint without keys has nothing to enter into its index. -/
theorem enterAll_of_keyless {key : Row → Option String} (keyless : ∀ values, key values = none)
    (changes : List (Nat × Row)) (index : KeyMap) :
    KeyIndex.enterAll key changes index = index := by
  induction changes with
  | nil => rfl
  | cons change rest ih => simp [KeyIndex.enterAll, keyless, KeyIndex.enter]

/-- The index after the keys of rows are dropped from it. -/
theorem index_unindexAll (olds : List Row) :
    (c.mapIndex (KeyIndex.unindexAll c.key olds)).index =
      KeyIndex.unindexAll c.key olds c.index :=
  c.index_mapIndex fun keyless => unindexAll_of_keyless keyless olds c.index

/-- The index after the keys of some rows are dropped and those of others are entered. -/
@[simp] theorem index_reindex (changes : List (Nat × Row)) (olds : List Row) :
    (c.reindex changes olds).index =
      KeyIndex.enterAll c.key changes (KeyIndex.unindexAll c.key olds c.index) :=
  c.index_mapIndex fun keyless => by
    rw [unindexAll_of_keyless keyless, enterAll_of_keyless keyless]

/-- Changing an index leaves the key of a row the same. -/
@[simp] theorem key_reindex (changes : List (Nat × Row)) (olds : List Row) :
    (c.reindex changes olds).key = c.key := c.key_mapIndex _

/-- The index after the key of a row is entered. -/
@[simp] theorem index_enter (id : Nat) (values : Row) :
    (c.enter id values).index = KeyIndex.enter (c.key values) id c.index :=
  c.index_mapIndex fun keyless => by rw [keyless]; rfl

/-- The index after the key of a row is dropped. -/
@[simp] theorem index_unindex (values : Row) :
    (c.unindex values).index = KeyIndex.unindex (c.key values) c.index :=
  c.index_mapIndex fun keyless => by rw [keyless]; rfl

@[simp] theorem key_enter (id : Nat) (values : Row) : (c.enter id values).key = c.key :=
  c.key_mapIndex _

@[simp] theorem key_unindex (values : Row) : (c.unindex values).key = c.key := c.key_mapIndex _

/-- The index of an enabled unique constraint is the map from keys to row ids over the
rows that have a key; the index of a disabled one is empty. -/
def Exact (rows : Rows) (c : Constraint) : Prop :=
  match c.kind with
  | .unique columns _ index =>
      if c.enabled then
        ∀ k id, index[k]? = some id ↔
          ∃ values, rows[id]? = some values ∧ uniqueKey columns values = some k
      else index = ∅
  | _ => True

/-- An index is exact as a constraint's if and only if it is exact as a map of keys. -/
theorem exact_iff (rows : Rows) : c.Exact rows ↔ KeyIndex.Exact c.key rows c.index := by
  cases c with
  | mk name kind isIndex enabled =>
      cases kind with
      | unique columns primary index =>
          cases enabled with
          | true => rfl
          | false =>
              simp only [Exact, KeyIndex.Exact, key, Constraint.index, Bool.false_eq_true, if_false,
                reduceCtorEq, and_false, exists_false, iff_false]
              constructor
              · rintro rfl k id
                simp
              · intro empty
                refine ExtTreeMap.ext_getElem? fun k => ?_
                rw [Option.eq_none_iff_forall_ne_some.mpr fun id => empty k id]
                simp
      | check condition => simp [Exact, KeyIndex.Exact, key, Constraint.index]
      | foreignKey columns parent parentColumns onDelete =>
          simp [Exact, KeyIndex.Exact, key, Constraint.index]
      | index => simp [Exact, KeyIndex.Exact, key, Constraint.index]

end Constraint

namespace Table

/-- Every enabled unique index finds every row that has a key. -/
def Covers (t : Table) : Prop := ∀ c ∈ t.constraints, KeyIndex.Covers c.key t.rows c.index

/-- Every unique index is exactly the map from keys to ids, or empty when disabled. -/
def Exact (t : Table) : Prop := ∀ c ∈ t.constraints, c.Exact t.rows

/-- Exact indexes cover their rows. -/
theorem Exact.covers {t : Table} (exact : t.Exact) : t.Covers :=
  fun c member => ((c.exact_iff t.rows).mp (exact c member)).covers

/-! ## What each operation does to the constraints -/

/-- Dropping the keys of rows one after another changes the indexes only. -/
theorem foldl_unindex (t : Table) (olds : List Row) :
    olds.foldl unindex t =
      { t with constraints := t.constraints.map fun c =>
          c.mapIndex (KeyIndex.unindexAll c.key olds) } := by
  induction olds generalizing t with
  | nil =>
      have same : t.constraints.map (fun c => c.mapIndex (KeyIndex.unindexAll c.key [])) =
          t.constraints :=
        List.map_id'' (fun c => c.mapIndex_eq_self rfl) _
      rw [same]
      rfl
  | cons old rest ih =>
      rw [List.foldl_cons, ih]
      simp only [unindex, List.map_map]
      congr 1
      refine List.map_congr_left fun c _ => ?_
      simp only [Function.comp_apply, Constraint.unindex, Constraint.key_mapIndex,
        Constraint.mapIndex_mapIndex]
      rfl

/-- Writing rows one after another changes the rows and the indexes only. -/
theorem foldl_write (t : Table) (changes : List (Nat × Row)) :
    changes.foldl (fun t row => t.write row.1 row.2) t =
      { t with
        constraints := t.constraints.map fun c => c.mapIndex (KeyIndex.enterAll c.key changes)
        rows := KeyIndex.writeAll changes t.rows } := by
  induction changes generalizing t with
  | nil =>
      have same : t.constraints.map (fun c => c.mapIndex (KeyIndex.enterAll c.key [])) =
          t.constraints :=
        List.map_id'' (fun c => c.mapIndex_eq_self rfl) _
      rw [same]
      rfl
  | cons change rest ih =>
      rw [List.foldl_cons, ih]
      simp only [write, List.map_map]
      congr 1
      refine List.map_congr_left fun c _ => ?_
      simp only [Function.comp_apply, Constraint.enter, Constraint.key_mapIndex,
        Constraint.mapIndex_mapIndex]
      rfl

/-- The table in which `changes` have taken the place of the rows `olds`. -/
def replace (t : Table) (changes : List (Nat × Row)) (olds : List Row) : Table :=
  { t with
    constraints := t.constraints.map fun c => c.reindex changes olds
    rows := KeyIndex.writeAll changes t.rows }

/-- Taking rows out and writing others is replacing them. -/
theorem foldl_write_foldl_unindex (t : Table) (changes : List (Nat × Row)) (olds : List Row) :
    changes.foldl (fun t row => t.write row.1 row.2) (olds.foldl unindex t) =
      t.replace changes olds := by
  rw [foldl_write, foldl_unindex, replace]
  simp only [List.map_map]
  congr 1
  refine List.map_congr_left fun c _ => ?_
  simp only [Function.comp_apply, Constraint.key_mapIndex, Constraint.mapIndex_mapIndex]
  rfl

/-- The changes whose rows exist. -/
def present (t : Table) (changes : List (Nat × Row)) : List (Nat × Row) :=
  changes.filter fun change => t.rows.contains change.1

/-- The rows that changes replace. -/
def currents (t : Table) (changes : List (Nat × Row)) : List Row :=
  changes.map fun change => t.rows.getD change.1 []

/-- A unique key of the new rows is taken by a row that stays or by another new row. -/
def Conflict (t : Table) (changes : List (Nat × Row)) (olds : List Row) : Prop :=
  ∃ c ∈ t.constraints, ¬ KeyIndex.Fits c.key c.index changes olds

/-- `update` looks for a key of the new rows that the rows it leaves have taken. -/
theorem update_eq (t : Table) (changes : List (Nat × Row)) : t.update changes =
    match (t.currents (t.present changes)).foldl unindex t |>.constraints.find?
        fun c => KeyIndex.clashes c.key c.index ((t.present changes).map Prod.snd) [] with
    | some c => (.error c.name, t.replace
        (((t.present changes).map Prod.fst).zip (t.currents (t.present changes)))
        (t.currents (t.present changes)))
    | none => (.ok (), t.replace (t.present changes) (t.currents (t.present changes))) := by
  rw [← foldl_write_foldl_unindex, ← foldl_write_foldl_unindex]
  rfl

/-- `update` either replaces the rows or writes the old ones back. -/
theorem update_cases (t : Table) (changes : List (Nat × Row)) :
    (t.update changes = (.ok (), t.replace (t.present changes) (t.currents (t.present changes))) ∧
      ¬ t.Conflict (t.present changes) (t.currents (t.present changes))) ∨
    (∃ name, t.update changes = (.error name,
        t.replace (((t.present changes).map Prod.fst).zip (t.currents (t.present changes)))
          (t.currents (t.present changes))) ∧
      t.Conflict (t.present changes) (t.currents (t.present changes))) := by
  have clash : ∀ c ∈ t.constraints,
      KeyIndex.clashes c.key (c.mapIndex
        (KeyIndex.unindexAll c.key (t.currents (t.present changes)))).index
        ((t.present changes).map Prod.snd) [] = false ↔
      KeyIndex.Fits c.key c.index (t.present changes) (t.currents (t.present changes)) := by
    intro c _
    rw [Constraint.index_unindexAll, KeyIndex.Fits]
  rw [update_eq, foldl_unindex]
  split
  · next c found =>
      refine Or.inr ⟨c.name, rfl, ?_⟩
      obtain ⟨d, member, rfl⟩ := List.mem_map.mp (List.mem_of_find?_eq_some found)
      have hit := List.find?_some found
      refine ⟨d, member, fun fits => ?_⟩
      simp only [Constraint.key_mapIndex, (clash d member).mpr fits] at hit
      cases hit
  · next found =>
      refine Or.inl ⟨rfl, ?_⟩
      rintro ⟨c, member, misfit⟩
      apply misfit
      have miss := List.find?_eq_none.mp found _ (List.mem_map_of_mem member)
      simp only [Constraint.key_mapIndex, Bool.not_eq_true] at miss
      exact (clash c member).mp miss

/-- The changes of an update whose rows are there replace these rows. -/
theorem replaced_present (t : Table) (changes : List (Nat × Row)) :
    KeyIndex.Replaced t.rows (t.present changes) (t.currents (t.present changes)) := by
  unfold KeyIndex.Replaced currents
  rw [List.forall₂_map_right_iff, List.forall₂_same]
  intro change member
  have exists_ : t.rows.contains change.1 = true := (List.mem_filter.mp member).2
  rw [ExtTreeMap.contains_eq_isSome_getElem?] at exists_
  obtain ⟨values, found⟩ := Option.isSome_iff_exists.mp exists_
  rw [ExtTreeMap.getD_eq_getD_getElem?, found]
  rfl

/-- `insert` writes a row whose keys are free, and otherwise changes nothing. -/
theorem insert_cases (t : Table) (id : Nat) (values : Row) :
    (t.insert id values = (.ok (), t.write id values) ∧
      ∀ c ∈ t.constraints, ∀ k, c.key values = some k → c.index[k]? = none) ∨
    (∃ c ∈ t.constraints, t.insert id values = (.error c.name, t) ∧
      ∃ k, c.key values = some k ∧ ∃ other, c.index[k]? = some other) := by
  unfold insert
  split
  · next c found =>
      refine Or.inr ⟨c, List.mem_of_find?_eq_some found, rfl, ?_⟩
      have hit := List.find?_some found
      cases holds : c.key values with
      | none => simp [holds] at hit
      | some k =>
          rw [holds, Option.any_some, ExtTreeMap.contains_eq_isSome_getElem?] at hit
          exact ⟨k, rfl, Option.isSome_iff_exists.mp hit⟩
  · next found =>
      refine Or.inl ⟨rfl, fun c member k holds => ?_⟩
      have miss := List.find?_eq_none.mp found c member
      simp only [holds, Option.any_some, Bool.not_eq_true] at miss
      exact ExtTreeMap.getElem?_eq_none_of_contains_eq_false miss

/-! ## Coverage -/

/-- Writing a row whose keys are free keeps the indexes covering. -/
theorem Covers.write {t : Table} (covers : t.Covers) {id : Nat} {values : Row}
    (free : ∀ c ∈ t.constraints, ∀ k, c.key values = some k → c.index[k]? = none) :
    (t.write id values).Covers := by
  intro c member
  obtain ⟨d, memberD, rfl⟩ := List.mem_map.mp member
  rw [Constraint.index_enter, Constraint.key_enter]
  exact (covers d memberD).insert (free d memberD)

/-- Inserting a row keeps the indexes covering, whether it succeeds or not. -/
theorem Covers.insert {t : Table} (covers : t.Covers) (id : Nat) (values : Row) :
    (t.insert id values).2.Covers := by
  rcases t.insert_cases id values with ⟨equal, free⟩ | ⟨_, _, equal, _⟩ <;> rw [equal]
  · exact covers.write free
  · exact covers

/-- Deleting a row that is there drops it and its keys. -/
theorem delete_of_found {t : Table} {id : Nat} {values : Row} (found : t.rows[id]? = some values) :
    t.delete id = (true, { t with rows := t.rows.erase id }.unindex values) := by
  simp [delete, found]

/-- Deleting a row keeps the indexes covering. -/
theorem Covers.delete {t : Table} (covers : t.Covers) (id : Nat) : (t.delete id).2.Covers := by
  cases found : t.rows[id]? with
  | none => simpa [Table.delete, found] using covers
  | some values =>
      rw [delete_of_found found]
      intro c member
      obtain ⟨d, memberD, rfl⟩ := List.mem_map.mp member
      rw [Constraint.index_unindex, Constraint.key_unindex]
      exact (covers d memberD).erase found

/-- Replacing rows without a conflict keeps the indexes covering. -/
theorem Covers.replace {t : Table} (covers : t.Covers) {changes : List (Nat × Row)}
    {olds : List Row} (replaced : KeyIndex.Replaced t.rows changes olds)
    (free : ¬ t.Conflict changes olds) : (t.replace changes olds).Covers := by
  intro c member
  obtain ⟨d, memberD, rfl⟩ := List.mem_map.mp member
  rw [Constraint.index_reindex, Constraint.key_reindex]
  refine (covers d memberD).replace replaced ?_
  by_contra misfit
  exact free ⟨d, memberD, misfit⟩

/-- Writing the replaced rows back restores the table. -/
theorem replace_back {t : Table} (covers : t.Covers) {changes : List (Nat × Row)}
    {olds : List Row} (replaced : KeyIndex.Replaced t.rows changes olds) :
    t.replace ((changes.map Prod.fst).zip olds) olds = t := by
  have sameLength : changes.length = olds.length := replaced.length_eq
  have values : ((changes.map Prod.fst).zip olds).map Prod.snd = olds :=
    List.map_snd_zip (by simp [sameLength])
  have stored : ∀ entry ∈ (changes.map Prod.fst).zip olds, t.rows[entry.1]? = some entry.2 := by
    intro entry member
    rw [List.zip_map_left, List.mem_map] at member
    obtain ⟨⟨change, old⟩, pair, rfl⟩ := member
    have found := List.forall₂_zip replaced pair
    exact found
  have sameConstraints :
      t.constraints.map (fun c => c.reindex ((changes.map Prod.fst).zip olds) olds) =
        t.constraints := by
    refine (List.map_congr_left fun c member => ?_).trans (List.map_id' _)
    refine c.mapIndex_eq_self ?_
    have restored := (covers c member).reenter stored
    rw [values] at restored
    exact restored
  rw [replace, sameConstraints, KeyIndex.writeAll_stored stored]

/-- A failing update leaves the table as it was. -/
theorem update_error {t : Table} (covers : t.Covers) {changes : List (Nat × Row)} {name : String}
    (failed : (t.update changes).1 = .error name) : (t.update changes).2 = t := by
  rcases t.update_cases changes with ⟨equal, _⟩ | ⟨other, equal, _⟩
  · rw [equal] at failed
    cases failed
  · rw [equal]
    exact replace_back covers (t.replaced_present changes)

/-- Updating rows keeps the indexes covering, whether it succeeds or not. -/
theorem Covers.update {t : Table} (covers : t.Covers) (changes : List (Nat × Row)) :
    (t.update changes).2.Covers := by
  rcases t.update_cases changes with ⟨equal, free⟩ | ⟨name, equal, _⟩
  · rw [equal]
    exact covers.replace (t.replaced_present changes) free
  · have failed : (t.update changes).1 = .error name := by rw [equal]
    rw [update_error covers failed]
    exact covers

end Table

end MockOracle
