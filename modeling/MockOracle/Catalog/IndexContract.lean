import MockOracle.Catalog.TableIndex

/-!
# The contract of the unique indexes

Every operation of a table keeps its indexes exact, fails exactly when a key would
appear twice, and leaves the table alone when it fails. Exactness is what makes
`hasKey` independent of whether an index or a scan answers it.
-/

namespace MockOracle

open Std Semantics

namespace Constraint

/-- The index of a constraint after it is cleared. -/
theorem index_clear (c : Constraint) : (c.mapIndex fun _ => ∅).index = ∅ := by
  cases c with
  | mk name kind isIndex enabled => cases kind <;> rfl

/-- An enabled unique constraint files rows under their unique key. -/
theorem key_of_enabled {c : Constraint} {columns : List Nat} (enabled : c.enabled = true)
    (unique : c.uniqueColumns = some columns) : c.key = uniqueKey columns := by
  obtain ⟨name, kind, isIndex, isEnabled⟩ := c
  cases kind with
  | unique own primary index =>
      simp only [uniqueColumns, Option.some.injEq] at unique
      simp only at enabled
      funext values
      simp [key, enabled, unique]
  | check condition => cases unique
  | foreignKey own parent parentColumns onDelete => cases unique
  | index => cases unique

end Constraint

namespace Table

/-! ## Operations keep the indexes exact -/

/-- Writing a new row with free keys keeps the indexes exact. -/
theorem Exact.write {t : Table} (exact : t.Exact) {id : Nat} {values : Row}
    (fresh : t.rows[id]? = none)
    (free : ∀ c ∈ t.constraints, ∀ k, c.key values = some k → c.index[k]? = none) :
    (t.write id values).Exact := by
  intro c member
  obtain ⟨d, memberD, rfl⟩ := List.mem_map.mp member
  have before := (d.exact_iff t.rows).mp (exact d memberD)
  rw [Constraint.exact_iff, Constraint.index_enter, Constraint.key_enter]
  exact before.transport (before.covers.insert (free d memberD))
    (KeyIndex.residue_insert (Set.mem_univ id) fresh (free d memberD))

/-- Inserting a row under a new id keeps the indexes exact, whether it succeeds or not. -/
theorem Exact.insert {t : Table} (exact : t.Exact) {id : Nat} (fresh : t.rows[id]? = none)
    (values : Row) : (t.insert id values).2.Exact := by
  rcases t.insert_cases id values with ⟨equal, free⟩ | ⟨_, _, equal, _⟩ <;> rw [equal]
  · exact exact.write fresh free
  · exact exact

/-- Deleting a row keeps the indexes exact. -/
theorem Exact.delete {t : Table} (exact : t.Exact) (id : Nat) : (t.delete id).2.Exact := by
  cases found : t.rows[id]? with
  | none => simpa [Table.delete, found] using exact
  | some values =>
      rw [delete_of_found found]
      intro c member
      obtain ⟨d, memberD, rfl⟩ := List.mem_map.mp member
      have before := (d.exact_iff t.rows).mp (exact d memberD)
      rw [Constraint.exact_iff, Constraint.index_unindex, Constraint.key_unindex]
      exact before.transport (before.covers.erase found)
        (KeyIndex.residue_erase (Set.mem_univ id) found)

/-- Replacing rows without a conflict keeps the indexes exact. -/
theorem Exact.replace {t : Table} (exact : t.Exact) {changes : List (Nat × Row)}
    {olds : List Row} (distinct : (changes.map Prod.fst).Nodup)
    (replaced : KeyIndex.Replaced t.rows changes olds) (free : ¬ t.Conflict changes olds) :
    (t.replace changes olds).Exact := by
  intro c member
  obtain ⟨d, memberD, rfl⟩ := List.mem_map.mp member
  have before := (d.exact_iff t.rows).mp (exact d memberD)
  have fits : KeyIndex.Fits d.key d.index changes olds := by
    by_contra misfit
    exact free ⟨d, memberD, misfit⟩
  rw [Constraint.exact_iff, Constraint.index_reindex, Constraint.key_reindex]
  exact before.transport (before.covers.replace replaced fits)
    (KeyIndex.residue_replace distinct replaced fits fun change _ => Set.mem_univ change.1)

/-- The changes whose rows exist name no row twice if the changes do not. -/
theorem nodup_present (t : Table) {changes : List (Nat × Row)}
    (distinct : (changes.map Prod.fst).Nodup) : ((t.present changes).map Prod.fst).Nodup :=
  distinct.sublist ((List.filter_sublist).map Prod.fst)

/-- Updating rows keeps the indexes exact, whether it succeeds or not. -/
theorem Exact.update {t : Table} (exact : t.Exact) {changes : List (Nat × Row)}
    (distinct : (changes.map Prod.fst).Nodup) : (t.update changes).2.Exact := by
  rcases t.update_cases changes with ⟨equal, free⟩ | ⟨name, equal, _⟩
  · rw [equal]
    exact exact.replace (t.nodup_present distinct) (t.replaced_present changes) free
  · have failed : (t.update changes).1 = .error name := by rw [equal]
    rw [update_error exact.covers failed]
    exact exact

/-- TRUNCATE leaves exact indexes: all of them are empty. -/
theorem exact_truncate (t : Table) : t.truncate.Exact := by
  intro c member
  obtain ⟨d, _, rfl⟩ := List.mem_map.mp member
  rw [Constraint.exact_iff, Constraint.index_clear]
  intro k id
  simp [truncate]

/-- What an index built from rows maps to an id is the key of the row, or was there before. -/
theorem getElem?_indexRows {columns : List Nat} {rows : List (Nat × Row)} {index built : KeyMap}
    (success : indexRows columns rows index = some built) (k : String) (id : Nat) :
    built[k]? = some id ↔ index[k]? = some id ∨
      ∃ values, (id, values) ∈ rows ∧ uniqueKey columns values = some k := by
  induction rows generalizing index with
  | nil =>
      simp only [indexRows, Option.some.injEq] at success
      simp [success]
  | cons row rest ih =>
      obtain ⟨rowId, values⟩ := row
      simp only [indexRows] at success
      cases holds : uniqueKey columns values with
      | none =>
          simp only [holds] at success
          rw [ih success]
          simp only [List.mem_cons, Prod.mk.injEq]
          constructor
          · rintro (entry | ⟨other, member, holds'⟩)
            · exact Or.inl entry
            · exact Or.inr ⟨other, Or.inr member, holds'⟩
          · rintro (entry | ⟨other, ⟨rfl, rfl⟩ | member, holds'⟩)
            · exact Or.inl entry
            · rw [holds] at holds'
              cases holds'
            · exact Or.inr ⟨other, member, holds'⟩
      | some a =>
          simp only [holds] at success
          by_cases taken : index.contains a = true
          · simp [taken] at success
          · simp only [taken, Bool.false_eq_true, if_false] at success
            have free : index[a]? = none :=
              ExtTreeMap.getElem?_eq_none_of_contains_eq_false ((Bool.not_eq_true _).mp taken)
            rw [ih success, ExtTreeMap.getElem?_insert]
            simp only [List.mem_cons, Prod.mk.injEq]
            constructor
            · rintro (entry | ⟨other, member, holds'⟩)
              · by_cases same : a = k
                · simp only [same, compare_self, if_true, Option.some.injEq] at entry
                  exact Or.inr ⟨values, Or.inl ⟨entry.symm, rfl⟩, same ▸ holds⟩
                · exact Or.inl (by simpa [same] using entry)
              · exact Or.inr ⟨other, Or.inr member, holds'⟩
            · rintro (entry | ⟨other, ⟨rfl, rfl⟩ | member, holds'⟩)
              · have different : a ≠ k := by
                  rintro rfl
                  rw [free] at entry
                  cases entry
                exact Or.inl (by simpa [different] using entry)
              · rw [holds] at holds'
                cases holds'
                exact Or.inl (by simp)
              · exact Or.inr ⟨other, member, holds'⟩

/-- A built index is exact for the rows of the table. -/
theorem exact_buildIndex {t : Table} {columns : List Nat} {built : KeyMap}
    (success : t.buildIndex columns = some built) :
    KeyIndex.Exact (uniqueKey columns) t.rows built := by
  intro k id
  rw [getElem?_indexRows success k id]
  simp [ExtTreeMap.mem_toList_iff_getElem?_eq_some]

/-- Adding a unique constraint keeps the indexes exact. -/
theorem Exact.addUnique {t : Table} (exact : t.Exact) (name : String) (columns : List Nat)
    (primary isIndex enabled : Bool) :
    (t.addUnique name columns primary isIndex enabled).2.Exact := by
  unfold Table.addUnique
  split
  · exact exact
  · next index success =>
      intro c member
      rcases List.mem_append.mp member with old | added
      · exact exact c old
      · rw [List.mem_singleton.mp added]
        cases enabled with
        | true =>
            simp only [if_true] at success
            exact exact_buildIndex success
        | false =>
            simp only [Bool.false_eq_true, if_false, Option.some.injEq] at success
            exact success.symm

/-- Enabling or disabling a constraint keeps the indexes exact. -/
theorem Exact.setEnabled {t : Table} (exact : t.Exact) (i : Nat) (enabled : Bool) :
    (t.setEnabled i enabled).2.Exact := by
  unfold Table.setEnabled
  split
  · exact exact
  · next c _ =>
      obtain ⟨name, kind, isIndex, wasEnabled⟩ := c
      dsimp only
      split
      · exact exact
      · next index success =>
          intro d member
          rcases List.mem_or_eq_of_mem_set member with old | rfl
          · exact exact d old
          · cases kind with
            | unique columns primary old =>
                cases enabled with
                | true =>
                    simp only [if_true] at success
                    exact exact_buildIndex success
                | false =>
                    simp only [Bool.false_eq_true, if_false, Option.some.injEq] at success
                    exact success.symm
            | check condition => trivial
            | foreignKey columns parent parentColumns onDelete => trivial
            | index => trivial

/-! ## Operations fail exactly on repeated keys -/

/-- An existing row has a key the values would have, under an enabled unique constraint. -/
def KeyTaken (t : Table) (values : Row) : Prop :=
  ∃ c ∈ t.constraints, ∃ k, c.key values = some k ∧
    ∃ (id : Nat) (row : Row), t.rows[id]? = some row ∧ c.key row = some k

/-- Under an enabled unique constraint, the new values of an existing row get the key of
another row that is changed, or of a row that is not. -/
def KeysTaken (t : Table) (changes : List (Nat × Row)) : Prop :=
  ∃ c ∈ t.constraints, ∃ change ∈ t.present changes, ∃ k, c.key change.2 = some k ∧
    ((∃ other ∈ t.present changes, other.1 ≠ change.1 ∧ c.key other.2 = some k) ∨
      ∃ (id : Nat) (row : Row), t.rows[id]? = some row ∧ id ∉ changes.map Prod.fst ∧
        c.key row = some k)

/-- An INSERT is refused if and only if a key of its values is taken. -/
theorem insert_error_iff {t : Table} (exact : t.Exact) (id : Nat) (values : Row) :
    (∃ name, (t.insert id values).1 = .error name) ↔ t.KeyTaken values := by
  rcases t.insert_cases id values with ⟨equal, free⟩ | ⟨c, member, equal, k, holds, other, entry⟩
  · rw [equal]
    refine ⟨fun failure => ?_, ?_⟩
    · obtain ⟨_, failed⟩ := failure
      cases failed
    rintro ⟨c, member, k, holds, other, row, found, held⟩
    have entry := exact.covers c member other row k found held
    rw [free c member k holds] at entry
    cases entry
  · rw [equal]
    refine ⟨fun _ => ?_, fun _ => ⟨c.name, rfl⟩⟩
    obtain ⟨row, found, held⟩ := (((c.exact_iff t.rows).mp (exact c member)) k other).mp entry
    exact ⟨c, member, k, holds, other, row, found, held⟩

/-- The changes that an UPDATE makes are those whose rows exist. -/
theorem mem_present {t : Table} {changes : List (Nat × Row)} {change : Nat × Row} :
    change ∈ t.present changes ↔ change ∈ changes ∧ ∃ row, t.rows[change.1]? = some row := by
  rw [present, List.mem_filter, ExtTreeMap.contains_eq_isSome_getElem?, Option.isSome_iff_exists]

/-- With exact indexes, the new rows conflict if and only if one of their keys is taken. -/
theorem conflict_iff {t : Table} (exact : t.Exact) {changes : List (Nat × Row)}
    (distinct : (changes.map Prod.fst).Nodup) :
    t.Conflict (t.present changes) (t.currents (t.present changes)) ↔ t.KeysTaken changes := by
  have replaced := t.replaced_present changes
  constructor
  · rintro ⟨c, member, misfit⟩
    have entries := (c.exact_iff t.rows).mp (exact c member)
    rw [KeyIndex.Fits, KeyIndex.clashes_eq_false_iff, Classical.not_and_iff_not_or_not] at misfit
    rcases misfit with taken | repeated
    · push Not at taken
      obtain ⟨values, memberValues, k, holds, taken⟩ := taken
      obtain ⟨change, memberChange, rfl⟩ := List.mem_map.mp memberValues
      refine ⟨c, member, change, memberChange, k, holds, Or.inr ?_⟩
      rw [KeyIndex.getElem?_unindexAll] at taken
      by_cases old : ∃ row ∈ t.currents (t.present changes), c.key row = some k
      · simp [old] at taken
      · cases entry : c.index[k]? with
        | none => simp [old, entry] at taken
        | some id =>
            obtain ⟨row, found, held⟩ := (entries k id).mp entry
            refine ⟨id, row, found, fun changed => old ?_, held⟩
            obtain ⟨other, memberOther, rfl⟩ := List.mem_map.mp changed
            have isPresent := mem_present.mpr ⟨memberOther, row, found⟩
            obtain ⟨current, among, foundCurrent⟩ := replaced.old_of_change isPresent
            have same : row = current := Option.some.inj (found.symm.trans foundCurrent)
            exact ⟨current, among, same ▸ held⟩
    · rw [List.pairwise_map, List.pairwise_iff_forall_sublist] at repeated
      push Not at repeated
      obtain ⟨change, other, pair, k, holds, holds'⟩ := repeated
      have memberChange : change ∈ t.present changes := pair.subset (by simp)
      have memberOther : other ∈ t.present changes := pair.subset (by simp)
      have apart : other.1 ≠ change.1 := by
        have ids := (t.nodup_present distinct).sublist (pair.map Prod.fst)
        simp only [List.map_cons, List.map_nil, List.nodup_cons, List.mem_singleton] at ids
        exact fun same => ids.1 same.symm
      exact ⟨c, member, change, memberChange, k, holds, Or.inl ⟨other, memberOther, apart, holds'⟩⟩
  · rintro ⟨c, member, change, memberChange, k, holds, clash⟩
    refine ⟨c, member, fun fits => ?_⟩
    rcases clash with ⟨other, memberOther, apart, holds'⟩ | ⟨id, row, found, stays, held⟩
    · exact apart (by rw [fits.change_unique memberOther memberChange holds' holds])
    · have covers := exact.covers c member
      rcases fits.free memberChange holds with free | ⟨old, among, heldOld⟩
      · rw [covers id row k found held] at free
        cases free
      · obtain ⟨other, memberOther, foundOld⟩ := replaced.change_of_old among
        have same := covers.id_unique found held foundOld heldOld
        exact stays (same ▸ List.mem_map_of_mem (mem_present.mp memberOther).1)

/-- An UPDATE is refused if and only if a key of its new rows is taken. -/
theorem update_error_iff {t : Table} (exact : t.Exact) {changes : List (Nat × Row)}
    (distinct : (changes.map Prod.fst).Nodup) :
    (∃ name, (t.update changes).1 = .error name) ↔ t.KeysTaken changes := by
  rw [← conflict_iff exact distinct]
  rcases t.update_cases changes with ⟨equal, free⟩ | ⟨name, equal, conflict⟩
  · rw [equal]
    refine ⟨fun failure => ?_, fun conflict => absurd conflict free⟩
    obtain ⟨_, failed⟩ := failure
    cases failed
  · rw [equal]
    exact ⟨fun _ => conflict, fun _ => ⟨name, rfl⟩⟩

/-! ## Key lookup -/

/-- Looking a key up in the rows themselves. -/
def scanKey (t : Table) (columns : List Nat) (key : String) : Bool :=
  t.rows.toList.any fun row => uniqueKey columns row.2 == some key

/-- A scan finds a key if and only if a row has it. -/
theorem scanKey_iff {t : Table} {columns : List Nat} {key : String} :
    t.scanKey columns key = true ↔
      ∃ (id : Nat) (row : Row), t.rows[id]? = some row ∧ uniqueKey columns row = some key := by
  simp only [scanKey, List.any_eq_true, beq_iff_eq, Prod.exists,
    ExtTreeMap.mem_toList_iff_getElem?_eq_some]

/-- An exact index answers as a scan does. -/
theorem hasKey_eq_scanKey {t : Table} (exact : t.Exact) (columns : List Nat) (key : String) :
    t.hasKey columns key = t.scanKey columns key := by
  unfold hasKey
  split
  · next c found =>
      have member := List.mem_of_find?_eq_some found
      have matching := List.find?_some found
      simp only [Bool.and_eq_true, beq_iff_eq] at matching
      have entries := (c.exact_iff t.rows).mp (exact c member)
      rw [Constraint.key_of_enabled matching.1 matching.2] at entries
      rw [Bool.eq_iff_iff, scanKey_iff, ExtTreeMap.contains_eq_isSome_getElem?,
        Option.isSome_iff_exists]
      exact exists_congr fun id => entries key id
  · rfl

/-- The contract of the indexes: operations keep them exact, `insert` and `update` fail
exactly on repeated keys, failures change nothing, and lookups agree with scans. -/
theorem unique_indexes_exact (t : Table) (exact : t.Exact) :
    (∀ id values, t.rows[id]? = none → (t.insert id values).2.Exact) ∧
    (∀ id, (t.delete id).2.Exact) ∧
    (∀ changes, (changes.map Prod.fst).Nodup → (t.update changes).2.Exact) ∧
    t.truncate.Exact ∧
    (∀ name columns primary isIndex enabled,
      (t.addUnique name columns primary isIndex enabled).2.Exact) ∧
    (∀ i enabled, (t.setEnabled i enabled).2.Exact) ∧
    (∀ id values, (∃ name, (t.insert id values).1 = .error name) ↔ t.KeyTaken values) ∧
    (∀ changes, (changes.map Prod.fst).Nodup →
      ((∃ name, (t.update changes).1 = .error name) ↔ t.KeysTaken changes)) ∧
    (∀ id values name, (t.insert id values).1 = .error name → (t.insert id values).2 = t) ∧
    (∀ changes name, (changes.map Prod.fst).Nodup → (t.update changes).1 = .error name →
      (t.update changes).2 = t) ∧
    (∀ name columns primary isIndex enabled,
      (t.addUnique name columns primary isIndex enabled).1 = .error () →
        (t.addUnique name columns primary isIndex enabled).2 = t) ∧
    (∀ i enabled, (t.setEnabled i enabled).1 = .error () → (t.setEnabled i enabled).2 = t) ∧
    (∀ columns key, t.hasKey columns key = t.scanKey columns key) := by
  refine ⟨fun id values fresh => exact.insert fresh values, exact.delete,
    fun changes distinct => exact.update distinct, t.exact_truncate, exact.addUnique,
    exact.setEnabled, insert_error_iff exact, fun changes distinct => update_error_iff exact distinct,
    ?_, fun changes name _ failed => update_error exact.covers failed, ?_, ?_,
    hasKey_eq_scanKey exact⟩
  · intro id values name failed
    rcases t.insert_cases id values with ⟨equal, _⟩ | ⟨_, _, equal, _⟩
    · rw [equal] at failed
      cases failed
    · rw [equal]
  · intro name columns primary isIndex enabled failed
    unfold addUnique at failed ⊢
    split
    · rfl
    · next index success => simp [success] at failed
  · intro i enabled failed
    unfold setEnabled at failed ⊢
    split
    · rfl
    · next c position =>
        dsimp only
        split
        · rfl
        · next index success =>
            simp only [position] at failed
            simp only [success] at failed
            cases failed

/-- The contract at a table with a primary key and one row: a second row with the same
key is refused, and changing the row's key keeps the index exact. -/
theorem unique_indexes_exact_one_row :
    let t := (((new "T" []).addUnique "T_PK" [0] true false true).2.insert 1 [Value.ofInt 7]).2
    t.Exact ∧ (t.insert 2 [Value.ofInt 7]).1 = .error "T_PK" ∧
      (t.insert 2 [Value.ofInt 7]).2 = t ∧ (t.update [(1, [Value.ofInt 8])]).2.Exact := by
  intro t
  have empty : (new "T" []).Exact := fun c member => absurd member (by simp [new])
  have exact : t.Exact := (empty.addUnique "T_PK" [0] true false true).insert (by decide) _
  have refused : (t.insert 2 [Value.ofInt 7]).1 = .error "T_PK" := by decide
  have contract := unique_indexes_exact t exact
  exact ⟨exact, refused, contract.2.2.2.2.2.2.2.2.1 2 _ _ refused, contract.2.2.1 _ (by decide)⟩

end Table

end MockOracle
