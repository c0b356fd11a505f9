import MockOracle.Catalog.SchemaChange

/-!
# Well-formed catalogs

`Catalog.Formed` is the part of a catalog's well-formedness that its schema decides: tables
filed under their own names, column positions in range, foreign keys with a parent, one
primary key at most, and names that belong to one constraint or one object. Row operations
keep the schema; a schema change trims constraints, adds one, adds an empty table, or
removes a table that no other table references. One lemma for each of these shows that a
catalog stays formed.
-/

namespace MockOracle

open Std Semantics

namespace Constraint

/-- The positions of the columns that a constraint has in its own table. -/
def columns (c : Constraint) : List Nat :=
  match c.kind with
  | .unique columns _ _ => columns
  | .foreignKey columns _ _ _ => columns
  | _ => []

/-- The constraint without the contents of its index and without its state. -/
def outline (c : Constraint) : Constraint := { c.shape with enabled := false }

@[simp] theorem outline_mapIndex (c : Constraint) (f : KeyMap → KeyMap) :
    (c.mapIndex f).outline = c.outline := by
  simp [outline]

@[simp] theorem outline_enabled (c : Constraint) (enabled : Bool) :
    ({ c with enabled } : Constraint).outline = c.outline := by
  obtain ⟨name, kind, isIndex, _⟩ := c
  cases kind <;> rfl

@[simp] theorem outline_name (c : Constraint) : c.outline.name = c.name := by
  obtain ⟨name, kind, isIndex, _⟩ := c
  cases kind <;> rfl

@[simp] theorem outline_isIndex (c : Constraint) : c.outline.isIndex = c.isIndex := by
  obtain ⟨name, kind, isIndex, _⟩ := c
  cases kind <;> rfl

@[simp] theorem outline_columns (c : Constraint) : c.outline.columns = c.columns := by
  obtain ⟨name, kind, isIndex, _⟩ := c
  cases kind <;> rfl

@[simp] theorem outline_isPrimary (c : Constraint) : c.outline.isPrimary = c.isPrimary := by
  obtain ⟨name, kind, isIndex, _⟩ := c
  cases kind <;> rfl

/-- A foreign key's parent and the positions it references there. -/
def reference (c : Constraint) : Option (String × List Nat) :=
  match c.kind with
  | .foreignKey _ parent parentColumns _ => some (parent, parentColumns)
  | _ => none

@[simp] theorem outline_reference (c : Constraint) : c.outline.reference = c.reference := by
  obtain ⟨name, kind, isIndex, _⟩ := c
  cases kind <;> rfl

/-- Positions are in range, in the table and in the parent of a foreign key, and the two
column lists of a foreign key are of one length. -/
structure Formed (cat : Catalog) (t : Table) (c : Constraint) : Prop where
  inRange : ∀ i ∈ c.columns, i < t.columns.length
  parent : ∀ parent positions, c.reference = some (parent, positions) →
    c.columns.length = positions.length ∧
      ∃ p, cat.table parent = some p ∧ ∀ i ∈ positions, i < p.columns.length
  /-- CREATE INDEX makes no foreign keys. -/
  declared : c.reference ≠ none → c.isIndex = false

variable {cat cat' : Catalog} {t t' : Table} {c c' : Constraint}

/-- Being formed is about the outline, the columns of the table, and those of the parent. -/
theorem Formed.transfer (formed : c.Formed cat t) (outline : c'.outline = c.outline)
    (columns : t'.columns = t.columns)
    (parents : ∀ parent positions p, c.reference = some (parent, positions) →
      cat.table parent = some p → ∃ p', cat'.table parent = some p' ∧ p'.columns = p.columns) :
    c'.Formed cat' t' := by
  have sameColumns : c'.columns = c.columns := by
    rw [← outline_columns c', outline, outline_columns]
  have sameReference : c'.reference = c.reference := by
    rw [← outline_reference c', outline, outline_reference]
  constructor
  · rw [sameColumns, columns]
    exact formed.inRange
  · intro parent positions refers
    rw [sameReference] at refers
    obtain ⟨lengths, p, found, range⟩ := formed.parent parent positions refers
    obtain ⟨p', found', same⟩ := parents parent positions p refers found
    refine ⟨?_, p', found', ?_⟩
    · rw [sameColumns]
      exact lengths
    · rw [same]
      exact range
  · intro refers
    rw [sameReference] at refers
    rw [← outline_isIndex c', outline, outline_isIndex]
    exact formed.declared refers

end Constraint

namespace Table

/-- The names of a table's constraints that are not indexes. -/
def constraintNames (t : Table) : List String :=
  (t.constraints.filter fun c => !c.isIndex).map (·.name)

/-- The outlines of a table's constraints. -/
def outlines (t : Table) : List Constraint := t.constraints.map Constraint.outline

/-- The names of a table's constraints are what their outlines say. -/
theorem constraintNames_outlines (t : Table) :
    t.constraintNames = (t.outlines.filter fun c => !c.isIndex).map (·.name) := by
  simp [constraintNames, outlines, List.filter_map, Function.comp_def]

/-- A name is among those of a table's constraints if one that is no index has it. -/
theorem mem_constraintNames {t : Table} {label : String} :
    label ∈ t.constraintNames ↔ ∃ c ∈ t.constraints, c.isIndex = false ∧ c.name = label := by
  simp [constraintNames, and_assoc]

/-- One table after some of its constraints have been dropped, enabled or disabled, or its
rows changed. -/
structure Trims (t u : Table) : Prop where
  name : u.name = t.name
  columns : u.columns = t.columns
  constraints : u.outlines.Sublist t.outlines

namespace Trims

variable {t u v : Table}

/-- A table that stays the same is trimmed. -/
theorem refl (t : Table) : t.Trims t := ⟨rfl, rfl, .refl _⟩

/-- Trimming twice is trimming. -/
theorem trans (first : t.Trims u) (second : u.Trims v) : t.Trims v :=
  ⟨second.name.trans first.name, second.columns.trans first.columns,
    second.constraints.trans first.constraints⟩

/-- A table of the same schema is trimmed: only its rows and the contents of its indexes differ. -/
theorem of_schema (same : u.schema = t.schema) : t.Trims u where
  name := name_of_schema same
  columns := columns_of_schema same
  constraints := by
    have outlines : ∀ w : Table, w.outlines =
        (w.constraints.map Constraint.shape).map Constraint.outline := by
      intro w
      rw [Table.outlines, List.map_map]
      exact List.map_congr_left fun c _ => (c.outline_mapIndex fun _ => ∅).symm
    rw [outlines u, outlines t, shapes_of_schema same]

/-- Dropping constraints trims a table. -/
theorem filter (t : Table) (keep : Constraint → Bool) :
    t.Trims { t with constraints := t.constraints.filter keep } :=
  ⟨rfl, rfl, List.filter_sublist.map _⟩

/-- Enabling or disabling a constraint trims a table. -/
theorem setEnabled (t : Table) (i : Nat) (enabled : Bool) : t.Trims (t.setEnabled i enabled).2 := by
  unfold Table.setEnabled
  split
  · exact .refl t
  · next c position =>
      dsimp only
      split
      · exact .refl t
      · next index _ =>
          refine ⟨rfl, rfl, ?_⟩
          have changed : ({ c.mapIndex (fun _ => index) with enabled } : Constraint).outline =
              c.outline := by
            rw [Constraint.outline_enabled, Constraint.outline_mapIndex]
          simp only [outlines, List.map_set, changed]
          obtain ⟨bound, rfl⟩ := List.getElem?_eq_some_iff.mp position
          rw [← List.getElem_map Constraint.outline (h := by simpa using bound),
            List.set_getElem_self]

/-- What is left after trimming was there, with the same outline. -/
theorem member (trims : t.Trims u) {c : Constraint} (among : c ∈ u.constraints) :
    ∃ d ∈ t.constraints, c.outline = d.outline := by
  have outlined := trims.constraints.subset (List.mem_map_of_mem among)
  obtain ⟨d, found, same⟩ := List.mem_map.mp outlined
  exact ⟨d, found, same.symm⟩

/-- The names that are left after trimming were there, in their order. -/
theorem names (trims : t.Trims u) : u.constraintNames.Sublist t.constraintNames := by
  rw [constraintNames_outlines, constraintNames_outlines]
  exact (trims.constraints.filter _).map _

/-- Trimming adds no primary key. -/
theorem primaries (trims : t.Trims u) :
    u.constraints.countP (·.isPrimary) ≤ t.constraints.countP (·.isPrimary) := by
  have outlined : ∀ w : Table, w.constraints.countP (·.isPrimary) =
      w.outlines.countP (·.isPrimary) := by
    intro w
    simp [outlines, List.countP_map, Function.comp_def]
  rw [outlined u, outlined t]
  exact trims.constraints.countP_le

end Trims

end Table

namespace Catalog

/-- What the schema of a well-formed catalog fulfils. -/
structure Formed (cat : Catalog) : Prop where
  named : ∀ {name t}, cat.table name = some t → t.name = name
  constraints : ∀ {name t}, cat.table name = some t → ∀ c ∈ t.constraints, c.Formed cat t
  primary : ∀ {name t}, cat.table name = some t → t.constraints.countP (·.isPrimary) ≤ 1
  ownNames : ∀ {name t}, cat.table name = some t → t.constraintNames.Nodup
  otherNames : ∀ {name name' t t'}, cat.table name = some t → cat.table name' = some t' →
    name ≠ name' → t.constraintNames.Disjoint t'.constraintNames
  tableOrSequence : ∀ name, cat.tables.contains name = true → cat.sequences.contains name = false
  tableOrRoutine : ∀ name, cat.tables.contains name = true → cat.routines.contains name = false
  sequenceOrRoutine : ∀ name, cat.sequences.contains name = true →
    cat.routines.contains name = false

/-- The empty catalog is formed. -/
theorem formed_empty : Catalog.empty.Formed := by
  constructor <;> simp [Catalog.empty, Catalog.table]

/-- A table is contained if and only if it is found. -/
theorem contains_iff {cat : Catalog} {name : String} :
    cat.tables.contains name = true ↔ ∃ t, cat.table name = some t := by
  rw [ExtTreeMap.contains_eq_isSome_getElem?, Option.isSome_iff_exists]
  rfl

/-- A catalog after tables have been trimmed; none is added or removed. -/
structure Trims (cat cat' : Catalog) : Prop where
  tables : ∀ name t', cat'.table name = some t' → ∃ t, cat.table name = some t ∧ t.Trims t'
  present : ∀ name t, cat.table name = some t → ∃ t', cat'.table name = some t'
  sequences : cat'.sequences = cat.sequences
  routines : cat'.routines = cat.routines

namespace Trims

variable {cat cat' cat'' : Catalog}

/-- A catalog that stays the same is trimmed. -/
theorem refl (cat : Catalog) : cat.Trims cat :=
  ⟨fun _ t found => ⟨t, found, .refl t⟩, fun _ t found => ⟨t, found⟩, rfl, rfl⟩

/-- Trimming a catalog twice is trimming it. -/
theorem trans (first : cat.Trims cat') (second : cat'.Trims cat'') : cat.Trims cat'' where
  tables name t'' found := by
    obtain ⟨t', found', trims'⟩ := second.tables name t'' found
    obtain ⟨t, found, trims⟩ := first.tables name t' found'
    exact ⟨t, found, trims.trans trims'⟩
  present name t found := by
    obtain ⟨t', found'⟩ := first.present name t found
    exact second.present name t' found'
  sequences := second.sequences.trans first.sequences
  routines := second.routines.trans first.routines

/-- Trimming one table trims the catalog. -/
theorem setTable {name : String} {t u : Table} (found : cat.table name = some t)
    (trims : t.Trims u) : cat.Trims (cat.setTable name u) where
  tables other t' found' := by
    rw [table_setTable] at found'
    split at found'
    · next same =>
        cases found'
        exact ⟨t, same ▸ found, trims⟩
    · exact ⟨t', found', .refl t'⟩
  present other t' found' := by
    rw [table_setTable]
    split
    · exact ⟨u, rfl⟩
    · exact ⟨t', found'⟩
  sequences := rfl
  routines := rfl

/-- Modifying a table by trimming it trims the catalog. -/
theorem modifyTable (cat : Catalog) (name : String) {f : Table → Table}
    (trims : ∀ t : Table, t.Trims (f t)) : cat.Trims (cat.modifyTable name f) := by
  cases found : cat.table name with
  | none => simpa [Catalog.modifyTable, found] using Trims.refl cat
  | some t =>
      rw [modifyTable_of_found f found]
      exact .setTable found (trims t)

/-- A catalog with the same schema, sequences and routines is trimmed. -/
theorem of_schema (schema : cat'.schema = cat.schema) (sequences : cat'.sequences = cat.sequences)
    (routines : cat'.routines = cat.routines) : cat.Trims cat' where
  tables name t' found' := by
    have same := congrFun schema name
    rw [Catalog.schema, Catalog.schema, found', Option.map_some] at same
    obtain ⟨t, found, equal⟩ := Option.map_eq_some_iff.mp same.symm
    exact ⟨t, found, .of_schema equal.symm⟩
  present name t found := by
    have same := congrFun schema name
    rw [Catalog.schema, Catalog.schema, found, Option.map_some] at same
    obtain ⟨t', found', -⟩ := Option.map_eq_some_iff.mp same
    exact ⟨t', found'⟩
  sequences := sequences
  routines := routines

/-- Trimming a catalog keeps its tables. -/
theorem contains (trims : cat.Trims cat') (name : String) :
    cat'.tables.contains name = true ↔ cat.tables.contains name = true := by
  rw [contains_iff, contains_iff]
  constructor
  · rintro ⟨t', found'⟩
    obtain ⟨t, found, -⟩ := trims.tables name t' found'
    exact ⟨t, found⟩
  · rintro ⟨t, found⟩
    exact trims.present name t found

end Trims

namespace Formed

variable {cat cat' : Catalog}

/-- Trimming keeps a catalog formed. -/
theorem trims (formed : cat.Formed) (trims : cat.Trims cat') : cat'.Formed where
  named found' := by
    obtain ⟨t, found, change⟩ := trims.tables _ _ found'
    exact change.name.trans (formed.named found)
  constraints found' c among := by
    obtain ⟨t, found, change⟩ := trims.tables _ _ found'
    obtain ⟨d, member, outline⟩ := change.member among
    refine (formed.constraints found d member).transfer outline change.columns ?_
    intro parent positions p _ foundParent
    obtain ⟨p', foundParent'⟩ := trims.present parent p foundParent
    obtain ⟨q, foundQ, changeP⟩ := trims.tables parent p' foundParent'
    rw [foundParent] at foundQ
    cases foundQ
    exact ⟨p', foundParent', changeP.columns⟩
  primary found' := by
    obtain ⟨t, found, change⟩ := trims.tables _ _ found'
    exact change.primaries.trans (formed.primary found)
  ownNames found' := by
    obtain ⟨t, found, change⟩ := trims.tables _ _ found'
    exact (formed.ownNames found).sublist change.names
  otherNames found₁ found₂ different := by
    obtain ⟨t₁, foundT₁, change₁⟩ := trims.tables _ _ found₁
    obtain ⟨t₂, foundT₂, change₂⟩ := trims.tables _ _ found₂
    intro label in₁ in₂
    exact formed.otherNames foundT₁ foundT₂ different (change₁.names.subset in₁)
      (change₂.names.subset in₂)
  tableOrSequence name table := by
    rw [trims.sequences]
    exact formed.tableOrSequence name ((trims.contains name).mp table)
  tableOrRoutine name table := by
    rw [trims.routines]
    exact formed.tableOrRoutine name ((trims.contains name).mp table)
  sequenceOrRoutine name sequence := by
    rw [trims.sequences] at sequence
    rw [trims.routines]
    exact formed.sequenceOrRoutine name sequence

/-- Removing a table that no other table references keeps a catalog formed. -/
theorem removeTable (formed : cat.Formed) {name : String}
    (removed : ∀ other, cat'.table other = if name = other then none else cat.table other)
    (sequences : cat'.sequences = cat.sequences) (routines : cat'.routines = cat.routines)
    (free : ∀ other t c positions, other ≠ name → cat.table other = some t → c ∈ t.constraints →
      c.reference ≠ some (name, positions)) : cat'.Formed := by
  have old : ∀ {other t}, cat'.table other = some t → other ≠ name ∧ cat.table other = some t := by
    intro other t found
    rw [removed] at found
    split at found
    · cases found
    · next different => exact ⟨Ne.symm different, found⟩
  have kept : ∀ other, cat'.tables.contains other = true → cat.tables.contains other = true := by
    intro other here
    obtain ⟨t, found⟩ := contains_iff.mp here
    exact contains_iff.mpr ⟨t, (old found).2⟩
  constructor
  · exact fun found => formed.named (old found).2
  · intro other t found c member
    obtain ⟨different, before⟩ := old found
    refine (formed.constraints before c member).transfer rfl rfl ?_
    intro parent positions p refers foundParent
    refine ⟨p, ?_, rfl⟩
    rw [removed, if_neg]
    · exact foundParent
    · rintro rfl
      exact free other t c positions different before member refers
  · exact fun found => formed.primary (old found).2
  · exact fun found => formed.ownNames (old found).2
  · exact fun found found' => formed.otherNames (old found).2 (old found').2
  · intro other table
    rw [sequences]
    exact formed.tableOrSequence other (kept other table)
  · intro other table
    rw [routines]
    exact formed.tableOrRoutine other (kept other table)
  · rw [sequences, routines]
    exact formed.sequenceOrRoutine

/-- A new table without constraints keeps a catalog formed. -/
theorem newTable (formed : cat.Formed) {name : String} (free : cat.nameInUse name = false)
    (columns : List TableColumn) : (cat.setTable name (.new name columns)).Formed := by
  simp only [nameInUse, Bool.or_eq_false_iff] at free
  obtain ⟨⟨⟨noTable, noSequence⟩, noRoutine⟩, -⟩ := free
  have absent : cat.table name = none := ExtTreeMap.getElem?_eq_none_of_contains_eq_false noTable
  have old : ∀ {other t}, (cat.setTable name (.new name columns)).table other = some t →
      (other = name ∧ t = .new name columns) ∨ cat.table other = some t := by
    intro other t found
    rw [table_setTable] at found
    split at found
    · next same => exact Or.inl ⟨same.symm, (Option.some.inj found).symm⟩
    · exact Or.inr found
  have objects : ∀ other, (cat.setTable name (.new name columns)).tables.contains other = true →
      other = name ∨ cat.tables.contains other = true := by
    intro other here
    obtain ⟨t, found⟩ := contains_iff.mp here
    rcases old found with ⟨same, -⟩ | before
    · exact Or.inl same
    · exact Or.inr (contains_iff.mpr ⟨t, before⟩)
  have noNames : (Table.new name columns).constraintNames = [] := rfl
  constructor
  · intro other t found
    rcases old found with ⟨rfl, rfl⟩ | before
    · rfl
    · exact formed.named before
  · intro other t found c member
    rcases old found with ⟨rfl, rfl⟩ | before
    · cases member
    · refine (formed.constraints before c member).transfer rfl rfl ?_
      intro parent positions p _ foundParent
      refine ⟨p, ?_, rfl⟩
      rw [table_setTable, if_neg]
      · exact foundParent
      · rintro rfl
        rw [absent] at foundParent
        cases foundParent
  · intro other t found
    rcases old found with ⟨rfl, rfl⟩ | before
    · exact Nat.zero_le 1
    · exact formed.primary before
  · intro other t found
    rcases old found with ⟨rfl, rfl⟩ | before
    · exact List.nodup_nil
    · exact formed.ownNames before
  · intro first second t t' found found' different
    rcases old found with ⟨rfl, rfl⟩ | before
    · rw [noNames]
      exact List.disjoint_nil_left _
    · rcases old found' with ⟨rfl, rfl⟩ | before'
      · rw [noNames]
        exact List.disjoint_nil_right _
      · exact formed.otherNames before before' different
  · intro other table
    rcases objects other table with rfl | before
    · exact noSequence
    · exact formed.tableOrSequence other before
  · intro other table
    rcases objects other table with rfl | before
    · exact noRoutine
    · exact formed.tableOrRoutine other before
  · exact formed.sequenceOrRoutine

/-- Adding a constraint keeps a catalog formed, when its positions are in range, it is not a
second primary key, and it is an index or has a new name. -/
theorem addConstraint (formed : cat.Formed) {name : String} {t : Table} {c : Constraint}
    (found : cat.table name = some t) (own : c.Formed cat t)
    (primary : c.isPrimary = true → t.hasPrimaryKey = false)
    (fresh : c.isIndex = false → ∀ other u, cat.table other = some u → c.name ∉ u.constraintNames) :
    (cat.setTable name { t with constraints := t.constraints ++ [c] }).Formed := by
  have old : ∀ {other u}, (cat.setTable name { t with constraints := t.constraints ++ [c] }).table
      other = some u → (other = name ∧ u = { t with constraints := t.constraints ++ [c] }) ∨
        (other ≠ name ∧ cat.table other = some u) := by
    intro other u here
    rw [table_setTable] at here
    split at here
    · next same => exact Or.inl ⟨same.symm, (Option.some.inj here).symm⟩
    · next different => exact Or.inr ⟨Ne.symm different, here⟩
  have transferred : ∀ {u u' : Table} {d : Constraint}, d.Formed cat u → u'.columns = u.columns →
      d.Formed (cat.setTable name { t with constraints := t.constraints ++ [c] }) u' := by
    intro u u' d holds columns
    refine holds.transfer rfl columns ?_
    intro parent positions p _ foundParent
    rw [table_setTable]
    split
    · next same =>
        rw [← same, found] at foundParent
        cases foundParent
        exact ⟨_, rfl, rfl⟩
    · exact ⟨p, foundParent, rfl⟩
  have objects : ∀ other, (cat.setTable name
      { t with constraints := t.constraints ++ [c] }).tables.contains other = true →
        cat.tables.contains other = true := by
    intro other here
    obtain ⟨u, found'⟩ := contains_iff.mp here
    rcases old found' with ⟨rfl, -⟩ | ⟨-, before⟩
    · exact contains_iff.mpr ⟨t, found⟩
    · exact contains_iff.mpr ⟨u, before⟩
  have names : ({ t with constraints := t.constraints ++ [c] } : Table).constraintNames =
      t.constraintNames ++ if c.isIndex then [] else [c.name] := by
    cases index : c.isIndex <;> simp [Table.constraintNames, index]
  -- A name of the changed table is an old name of it or the new constraint's.
  have named : ∀ label ∈ ({ t with constraints := t.constraints ++ [c] } : Table).constraintNames,
      label ∈ t.constraintNames ∨ (c.isIndex = false ∧ label = c.name) := by
    intro label member
    rw [names] at member
    rcases List.mem_append.mp member with before | new
    · exact Or.inl before
    · split at new
      · cases new
      · next declared => exact Or.inr ⟨(Bool.not_eq_true _).mp declared, List.mem_singleton.mp new⟩
  constructor
  · intro other u here
    rcases old here with ⟨rfl, rfl⟩ | ⟨-, before⟩
    · have same : t.name = other := formed.named found
      exact same
    · exact formed.named before
  · intro other u here d member
    rcases old here with ⟨rfl, rfl⟩ | ⟨-, before⟩
    · rcases List.mem_append.mp member with among | new
      · exact transferred (formed.constraints found d among) rfl
      · rw [List.mem_singleton.mp new]
        exact transferred own rfl
    · exact transferred (formed.constraints before d member) rfl
  · intro other u here
    rcases old here with ⟨rfl, rfl⟩ | ⟨-, before⟩
    · have one := formed.primary found
      simp only [List.countP_append, List.countP_singleton]
      split
      · next isPrimary =>
          have none_ : t.constraints.countP (·.isPrimary) = 0 := by
            rw [List.countP_eq_zero]
            intro d member
            have absent := List.any_eq_false.mp (primary isPrimary)
            exact absent d member
          omega
      · omega
    · exact formed.primary before
  · intro other u here
    rcases old here with ⟨rfl, rfl⟩ | ⟨-, before⟩
    · rw [names]
      split
      · rw [List.append_nil]
        exact formed.ownNames found
      · next declared =>
          refine List.nodup_append.mpr ⟨formed.ownNames found, List.nodup_singleton _, ?_⟩
          intro label member new single
          rw [List.mem_singleton.mp single]
          rintro rfl
          exact fresh ((Bool.not_eq_true _).mp declared) _ t found member
    · exact formed.ownNames before
  · intro first second u u' here here' different label in₁ in₂
    rcases old here with ⟨rfl, rfl⟩ | ⟨apart, before⟩ <;>
      rcases old here' with ⟨rfl, rfl⟩ | ⟨apart', before'⟩
    · exact different rfl
    · rcases named label in₁ with own₁ | ⟨declared, rfl⟩
      · exact formed.otherNames found before' different own₁ in₂
      · exact fresh declared _ u' before' in₂
    · rcases named label in₂ with own₂ | ⟨declared, rfl⟩
      · exact formed.otherNames before found different in₁ own₂
      · exact fresh declared _ u before in₁
    · exact formed.otherNames before before' different in₁ in₂
  · exact fun other table => formed.tableOrSequence other (objects other table)
  · exact fun other table => formed.tableOrRoutine other (objects other table)
  · exact formed.sequenceOrRoutine

end Formed

end Catalog

end MockOracle
