import MockOracle.Catalog.WellFormed
import MockOracle.Session.DdlContract

/-!
# DDL keeps catalogs well formed

Names of columns resolve to positions in range, a foreign key takes its columns from a key
of the parent, and everything that depends on a dropped key or table is dropped with it.
-/

namespace MockOracle

open Std Semantics

/-! ## Resolving constraints -/

/-- The positions of resolved columns are in range. -/
theorem resolveColumns_inRange {t : Table} {names : List String} {positions : List Nat}
    (resolved : resolveColumns t names = .ok positions) : ∀ i ∈ positions, i < t.columns.length := by
  induction names generalizing positions with
  | nil =>
      cases resolved
      simp
  | cons name rest ih =>
      unfold resolveColumns at resolved
      split at resolved
      · cases resolved
      · next i index =>
          cases tail : resolveColumns t rest with
          | error e => simp [tail, Except.map] at resolved
          | ok later =>
              simp only [tail, Except.map, Except.ok.injEq] at resolved
              subst resolved
              intro j member
              rcases List.mem_cons.mp member with rfl | among
              · exact (List.findIdx?_eq_some_iff_getElem.mp index).1
              · exact ih tail j among

/-- The columns of a unique constraint are those of its key. -/
theorem Constraint.columns_of_unique {c : Constraint} {columns : List Nat}
    (unique : c.uniqueColumns = some columns) : c.columns = columns := by
  obtain ⟨name, kind, isIndex, enabled⟩ := c
  cases kind with
  | unique own primary index => exact Option.some.inj unique
  | check condition => cases unique
  | foreignKey own parent parentColumns onDelete => cases unique
  | index => cases unique

/-- A computation that succeeds after another succeeds with that one's result. -/
theorem Except.of_bind {ε α β : Type} {x : Except ε α} {f : α → Except ε β} {b : β}
    (success : (x >>= f) = .ok b) : ∃ a, x = .ok a ∧ f a = .ok b := by
  cases x with
  | error e => cases success
  | ok a => exact ⟨a, rfl, success⟩

/-- The key that a foreign key references is that of a unique constraint of its parent. -/
theorem key_of_matching {p : Table} {refs key : List Nat} {missing : OraError}
    (keyOk : (p.constraints.findSome? fun k => (k.uniqueColumns).filter fun key =>
      !k.isIndex && key.length == refs.length && key.all refs.contains).elim
        (.error missing) Except.ok = .ok key) :
    ∃ k ∈ p.constraints, k.uniqueColumns = some key ∧ key.length = refs.length ∧
      ∀ i ∈ key, i ∈ refs := by
  cases matching : p.constraints.findSome? fun k => (k.uniqueColumns).filter fun key =>
      !k.isIndex && key.length == refs.length && key.all refs.contains with
  | none => simp [matching] at keyOk
  | some found =>
      simp only [matching, Option.elim_some, Except.ok.injEq] at keyOk
      subst keyOk
      obtain ⟨k, member, filtered⟩ := List.exists_of_findSome?_eq_some matching
      obtain ⟨unique, fits⟩ := Option.filter_eq_some_iff.mp filtered
      refine ⟨k, member, unique, ?_⟩
      simp only [Bool.and_eq_true, beq_iff_eq, List.all_eq_true, List.contains_iff_mem] at fits
      exact ⟨fits.1.2, fits.2⟩

/-- A resolved foreign key pairs columns of the table with those of a key of its parent. -/
theorem resolveForeignKey_formed {cat : Catalog} (formed : cat.Formed) {t : Table}
    {columns refColumns : List String} {parent : String} {onDelete : OnDelete}
    {kind : ConstraintKind}
    (resolved : resolveForeignKey cat t columns parent refColumns onDelete = .ok kind)
    (label : String) (enabled : Bool) :
    Constraint.Formed cat t ⟨label, kind, false, enabled⟩ ∧
      Constraint.isPrimary ⟨label, kind, false, enabled⟩ = false := by
  unfold resolveForeignKey at resolved
  obtain ⟨idx, own, resolved⟩ := Except.of_bind resolved
  obtain ⟨p, parentOk, resolved⟩ := Except.of_bind resolved
  have found : cat.table parent = some p := by
    cases lookup : cat.table parent with
    | none => simp [lookup] at parentOk
    | some q =>
        simp only [lookup, Option.elim_some, Except.ok.injEq] at parentOk
        rw [parentOk]
  dsimp only at resolved
  -- Where the referenced columns come from does not matter.
  split at resolved
  all_goals
    obtain ⟨refs, -, resolved⟩ := Except.of_bind resolved
    split at resolved
    · cases resolved
    next lengths =>
    obtain ⟨key, keyOk, resolved⟩ := Except.of_bind resolved
    split at resolved
    · cases resolved
    cases resolved
    obtain ⟨k, member, unique, -, among⟩ := key_of_matching keyOk
    refine ⟨⟨?_, ?_, fun _ => rfl⟩, rfl⟩
    · intro i member
      obtain ⟨j, inKey, rfl⟩ := List.mem_map.mp member
      have bound : refs.idxOf j < idx.length := by
        rw [← not_not.mp lengths]
        exact List.idxOf_lt_length_of_mem (among j inKey)
      rw [List.getD_eq_getElem _ _ bound]
      exact resolveColumns_inRange own _ (List.getElem_mem bound)
    · intro parent' positions refers
      cases refers
      refine ⟨List.length_map _, p, found, ?_⟩
      have range := (formed.constraints found k member).inRange
      rw [Constraint.columns_of_unique unique] at range
      exact range

/-- Everything that a resolved constraint adds to a table keeps it formed. -/
theorem resolveConstraint_formed {user label : String} {cat : Catalog} (formed : cat.Formed)
    {t : Table} {c : TableConstraint} {resolved : ResolvedConstraint}
    (success : resolveConstraint user cat t label c = .ok resolved) :
    match resolved with
    | .unique columns primary _ =>
        (∀ i ∈ columns, i < t.columns.length) ∧ (primary = true → t.hasPrimaryKey = false)
    | .other kind => ∀ enabled, Constraint.Formed cat t ⟨label, kind, false, enabled⟩ ∧
        Constraint.isPrimary ⟨label, kind, false, enabled⟩ = false := by
  unfold resolveConstraint at success
  split at success
  · next cols _ =>
      split at success
      · cases success
      · next noPrimary =>
          split at success
          · cases success
          · next idx own =>
              split at success
              · cases success
              · cases success
                exact ⟨resolveColumns_inRange own, fun _ => (Bool.not_eq_true _).mp noPrimary⟩
  · next cols _ =>
      cases own : resolveColumns t cols with
      | error e => simp [own, Except.map] at success
      | ok idx =>
          simp only [own, Except.map, Except.ok.injEq] at success
          subst success
          refine ⟨resolveColumns_inRange own, fun isPrimary => ?_⟩
          cases isPrimary
  · cases success
    intro enabled
    refine ⟨⟨?_, ?_, fun _ => rfl⟩, rfl⟩
    · intro i member
      cases member
    · intro parent positions refers
      cases refers
  · next columns parent refColumns onDelete _ =>
      cases key : resolveForeignKey cat t columns parent refColumns onDelete with
      | error e => simp [key, Except.map] at success
      | ok kind =>
          simp only [key, Except.map, Except.ok.injEq] at success
          subst success
          exact resolveForeignKey_formed formed key label

/-! ## Adding constraints -/

/-- A unique constraint that fits its table can be added to a formed catalog. -/
theorem Catalog.Formed.addUnique {cat : Catalog} (formed : cat.Formed) {table : String} {t : Table}
    (found : cat.table table = some t) (label : String) {columns : List Nat}
    (range : ∀ i ∈ columns, i < t.columns.length) (primary isIndex enabled : Bool)
    (onlyPrimary : primary = true → t.hasPrimaryKey = false)
    (fresh : isIndex = false → ∀ other u, cat.table other = some u → label ∉ u.constraintNames) :
    (cat.setTable table (t.addUnique label columns primary isIndex enabled).2).Formed := by
  unfold Table.addUnique
  split
  · rw [Catalog.setTable_self found]
    exact formed
  · refine formed.addConstraint found ⟨range, ?_, ?_⟩ onlyPrimary fresh
    · intro parent positions refers
      cases refers
    · intro refers
      exact absurd rfl refers

/-- A name that no constraint of the catalog has. -/
theorem fresh_of_any {cat : Catalog} {label : String}
    (free : ¬ (cat.tables.toList.any fun entry => entry.2.constraints.any fun k =>
      !k.isIndex && k.name == label) = true) :
    ∀ other u, cat.table other = some u → label ∉ u.constraintNames := by
  intro other u found member
  obtain ⟨c, among, declared, rfl⟩ := Table.mem_constraintNames.mp member
  refine free (List.any_eq_true.mpr ⟨(other, u), ?_, List.any_eq_true.mpr ⟨c, among, ?_⟩⟩)
  · exact ExtTreeMap.mem_toList_iff_getElem?_eq_some.mpr found
  · simp [declared]

/-- Adding a constraint keeps a catalog formed, whether it succeeds or not. -/
theorem addConstraint_formed (ev : Evaluator) (committed : Catalog) (table : String)
    (c : TableConstraint) (st : DdlState) (formed : st.cat.Formed) :
    (DdlResult.state (addConstraint ev committed table c st)).cat.Formed := by
  have named : (st.nameConstraint c).2.cat = st.cat := by
    unfold DdlState.nameConstraint
    split <;> rfl
  unfold addConstraint
  simp only
  rw [← named] at formed
  split
  · exact formed
  · next free =>
      have fresh := fresh_of_any free
      split
      · exact formed
      · next t found =>
          split
          · exact formed
          · next columns primary duplicates resolved =>
              have facts := resolveConstraint_formed formed resolved
              have added := formed.addUnique found (st.nameConstraint c).1 facts.1 primary false
                c.enabled facts.2 fun _ => fresh
              split
              · next equal =>
                  rw [equal] at added
                  exact added
              · next equal =>
                  rw [equal] at added
                  exact added
          · next kind resolved =>
              obtain ⟨own, notPrimary⟩ := resolveConstraint_formed formed resolved c.enabled
              have added := formed.addConstraint found own
                (fun isPrimary => by rw [notPrimary] at isPrimary; cases isPrimary) fun _ => fresh
              split
              · rw [validate_cat]
                exact added
              · exact added

/-- Adding constraints keeps a catalog formed, whether they succeed or not. -/
theorem addConstraints_formed (ev : Evaluator) (committed : Catalog) (table : String)
    (constraints : List TableConstraint) (st : DdlState) (formed : st.cat.Formed) :
    (DdlResult.state (addConstraints ev committed table constraints st)).cat.Formed := by
  induction constraints generalizing st with
  | nil => exact formed
  | cons c rest ih =>
      have first := addConstraint_formed ev committed table c st formed
      unfold addConstraints
      split
      · next after equal =>
          rw [equal] at first
          exact ih after first
      · next after equal =>
          rw [equal] at first
          exact first

/-! ## ALTER TABLE -/

/-- Trimming a catalog again and again trims it. -/
theorem Catalog.Trims.foldl {α : Type} {f : Catalog → α → Catalog}
    (step : ∀ (cat : Catalog) a, cat.Trims (f cat a)) (as : List α) (cat : Catalog) :
    cat.Trims (as.foldl f cat) := by
  induction as generalizing cat with
  | nil => exact .refl cat
  | cons a rest ih => exact (step cat a).trans (ih _)

/-- Dropping foreign keys trims the catalog. -/
theorem dropForeignKeys_trims (refs : List ForeignKeyRef) (cat : Catalog) :
    cat.Trims (dropForeignKeys refs cat) := by
  unfold dropForeignKeys
  exact .foldl (fun cat f => .modifyTable cat f.child fun t => .filter t _) refs cat

/-- Disabling foreign keys trims the catalog. -/
theorem disableForeignKeys_trims (refs : List ForeignKeyRef) (cat : Catalog) :
    cat.Trims (disableForeignKeys refs cat) := by
  refine .foldl (fun cat f => .modifyTable cat f.child fun t => ?_) refs cat
  split
  · exact .refl t
  · exact .setEnabled t _ _

/-- Dropping a constraint trims the catalog. -/
theorem dropTableConstraint_trims (table : String) (t : Table) (name : Option String)
    (cascade : Bool) (st : DdlState) :
    st.cat.Trims (DdlResult.state (dropTableConstraint table t name cascade st)).cat := by
  unfold dropTableConstraint
  split
  · exact .refl _
  · simp only
    split
    · exact .refl _
    · exact (dropForeignKeys_trims _ _).trans (.modifyTable _ table fun t => .filter t _)

/-- Enabling or disabling a constraint trims the catalog. -/
theorem setTableConstraint_trims (ev : Evaluator) (committed : Catalog) (table : String)
    (t : Table) (name : Option String) (enabled validate cascade : Bool) (st : DdlState) :
    st.cat.Trims (DdlResult.state
      (setTableConstraint ev committed table t name enabled validate cascade st)).cat := by
  unfold setTableConstraint
  simp only
  split
  · exact .refl _
  · next i _ =>
      split
      · exact .refl _
      · have disabled := disableForeignKeys_trims (orphans st.cat table t i enabled) st.cat
        split
        · exact disabled
        · next u found =>
            have all := disabled.trans (.setTable found (.setEnabled u i enabled))
            split
            · next equal =>
                rw [equal] at all
                exact all
            · next equal =>
                rw [equal] at all
                split
                · rw [validate_cat]
                  exact all
                · exact all

/-- ALTER TABLE keeps a catalog formed. -/
theorem alterTable_formed (ev : Evaluator) (committed : Catalog) (table : String)
    (action : AlterTableAction) (st : DdlState) (formed : st.cat.Formed) :
    (DdlResult.state (alterTable ev committed table action st)).cat.Formed := by
  unfold alterTable
  split
  · exact formed
  · cases action with
    | addConstraints constraints =>
        exact addConstraints_formed ev committed table constraints st formed
    | dropConstraint name cascade =>
        exact formed.trims (dropTableConstraint_trims table _ name cascade st)
    | setConstraint name enabled validate cascade =>
        exact formed.trims
          (setTableConstraint_trims ev committed table _ name enabled validate cascade st)

/-! ## Dropping what depends on a table -/

/-- Once a constraint is dropped, dropping others does not bring it back. -/
theorem dropForeignKeys_absent {refs : List ForeignKeyRef} {cat : Catalog} {f : ForeignKeyRef}
    {t : Table} (dropped : f ∈ refs) (found : (dropForeignKeys refs cat).table f.child = some t) :
    f.name ∉ t.constraintNames := by
  induction refs generalizing cat with
  | nil => cases dropped
  | cons first rest ih =>
      have split : dropForeignKeys (first :: rest) cat =
          dropForeignKeys rest (cat.modifyTable first.child (·.dropConstraint first.name)) := rfl
      rw [split] at found
      rcases List.mem_cons.mp dropped with rfl | later
      · obtain ⟨u, foundU, trims⟩ := (dropForeignKeys_trims rest _).tables _ t found
        intro member
        obtain ⟨c, among, declared, same⟩ :=
          Table.mem_constraintNames.mp (trims.names.subset member)
        cases before : cat.table f.child with
        | none =>
            simp only [Catalog.modifyTable, before] at foundU
            cases foundU
        | some v =>
            rw [Catalog.modifyTable_of_found _ before, Catalog.table_setTable_self] at foundU
            cases foundU
            have kept := (List.mem_filter.mp among).2
            simp [declared, same] at kept
      · exact ih later found

/-- The foreign keys of a catalog are those of its tables. -/
theorem Catalog.mem_foreignKeys {cat : Catalog} {f : ForeignKeyRef} : f ∈ cat.foreignKeys ↔
    ∃ name t, cat.table name = some t ∧ ∃ c ∈ t.constraints, foreignKeyRef t.name c = some f := by
  simp only [foreignKeys, List.mem_flatMap, List.mem_filterMap, Prod.exists,
    ExtTreeMap.mem_toList_iff_getElem?_eq_some]
  rfl

/-- A constraint with a parent is a foreign key on it. -/
theorem foreignKeyRef_of_reference {c : Constraint} {parent : String} {positions : List Nat}
    (refers : c.reference = some (parent, positions)) (child : String) :
    ∃ f, Catalog.foreignKeyRef child c = some f ∧ f.child = child ∧ f.name = c.name ∧
      f.parent = parent ∧ f.parentColumns = positions := by
  obtain ⟨name, kind, isIndex, enabled⟩ := c
  cases kind with
  | unique own primary index => cases refers
  | check condition => cases refers
  | foreignKey own parent' parentColumns onDelete =>
      cases refers
      exact ⟨_, rfl, rfl, rfl, rfl, rfl⟩
  | index => cases refers

/-- A table can be removed once the foreign keys of other tables on it are dropped. -/
theorem Catalog.Formed.dropTable {cat : Catalog} (formed : cat.Formed) (name : String) :
    ((dropForeignKeys (cat.foreignKeys.filter fun f => f.parent == name && f.child != name)
      cat).removeTable name).Formed := by
  have trims := dropForeignKeys_trims
    (cat.foreignKeys.filter fun f => f.parent == name && f.child != name) cat
  refine (formed.trims trims).removeTable (ChangesTable.table_removeTable _ name) rfl rfl ?_
  intro other t c positions different found member refers
  -- Such a foreign key was there before, so it has been dropped by its name.
  obtain ⟨u, foundU, trimmed⟩ := trims.tables other t found
  obtain ⟨d, memberD, outline⟩ := trimmed.member member
  have refersD : d.reference = some (name, positions) := by
    rw [← Constraint.outline_reference, ← outline, Constraint.outline_reference]
    exact refers
  obtain ⟨f, foreign, child, label, parent, -⟩ := foreignKeyRef_of_reference refersD u.name
  rw [formed.named foundU] at child
  have dropped : f ∈ cat.foreignKeys.filter fun f => f.parent == name && f.child != name := by
    refine List.mem_filter.mpr ⟨Catalog.mem_foreignKeys.mpr ⟨_, _, foundU, d, memberD, foreign⟩, ?_⟩
    simp [parent, child, different]
  rw [← child] at found
  refine dropForeignKeys_absent dropped found (Table.mem_constraintNames.mpr ⟨c, member, ?_, ?_⟩)
  · refine ((formed.trims trims).constraints found c member).declared ?_
    rw [refers]
    exact Option.some_ne_none _
  · rw [label, ← c.outline_name, outline, d.outline_name]

/-! ## Statements -/

/-- Sequences may change when no name clashes. -/
theorem Catalog.Formed.of_tables {cat cat' : Catalog} (formed : cat.Formed)
    (tables : cat'.tables = cat.tables)
    (tableOrSequence : ∀ name, cat.tables.contains name = true →
      cat'.sequences.contains name = false)
    (tableOrRoutine : ∀ name, cat.tables.contains name = true →
      cat'.routines.contains name = false)
    (sequenceOrRoutine : ∀ name, cat'.sequences.contains name = true →
      cat'.routines.contains name = false) : cat'.Formed := by
  have same : ∀ name, cat'.table name = cat.table name := by
    intro name
    rw [Catalog.table, tables]
    rfl
  refine ⟨?_, ?_, ?_, ?_, ?_, ?_, ?_, sequenceOrRoutine⟩
  · intro name t found
    rw [same] at found
    exact formed.named found
  · intro name t found c member
    rw [same] at found
    refine (formed.constraints found c member).transfer rfl rfl fun parent _ p _ foundParent => ?_
    exact ⟨p, (same parent).trans foundParent, rfl⟩
  · intro name t found
    rw [same] at found
    exact formed.primary found
  · intro name t found
    rw [same] at found
    exact formed.ownNames found
  · intro name name' t t' found found'
    rw [same] at found found'
    exact formed.otherNames found found'
  · rw [tables]
    exact tableOrSequence
  · rw [tables]
    exact tableOrRoutine

/-- Counting the version up keeps a catalog formed. -/
theorem Catalog.Formed.bump {cat : Catalog} (formed : cat.Formed) : cat.bump.Formed :=
  formed.of_tables rfl formed.tableOrSequence formed.tableOrRoutine formed.sequenceOrRoutine

/-- Sequences may change as long as their names are free. -/
theorem Catalog.Formed.setSequences {cat : Catalog} (formed : cat.Formed)
    {sequences : ExtTreeMap String SequenceDef}
    (tableOrSequence : ∀ name, cat.tables.contains name = true → sequences.contains name = false)
    (sequenceOrRoutine : ∀ name, sequences.contains name = true →
      cat.routines.contains name = false) : ({ cat with sequences } : Catalog).bump.Formed :=
  formed.of_tables rfl tableOrSequence formed.tableOrRoutine sequenceOrRoutine

/-- Routines may change as long as their names are free. -/
theorem Catalog.Formed.setRoutines {cat : Catalog} (formed : cat.Formed)
    {routines : ExtTreeMap String Routine}
    (tableOrRoutine : ∀ name, cat.tables.contains name = true → routines.contains name = false)
    (sequenceOrRoutine : ∀ name, cat.sequences.contains name = true →
      routines.contains name = false) : ({ cat with routines } : Catalog).bump.Formed :=
  formed.of_tables rfl formed.tableOrSequence tableOrRoutine sequenceOrRoutine

/-- A name that is not in use belongs to no object. -/
theorem Catalog.free_of_nameInUse {cat : Catalog} {name : String}
    (free : cat.nameInUse name = false) :
    cat.tables.contains name = false ∧ cat.sequences.contains name = false ∧
      cat.routines.contains name = false := by
  simp only [Catalog.nameInUse, Bool.or_eq_false_iff] at free
  exact ⟨free.1.1.1, free.1.1.2, free.1.2⟩

/-- Filling a new table changes its rows only. -/
theorem Table.fill_trims (t : Table) (rows : List Row) (next : Nat) :
    t.Trims (t.fill rows next).2.2 := by
  induction rows generalizing next t with
  | nil => exact .refl t
  | cons values rest ih =>
      have inserted : t.Trims (t.insert next values).2 := .of_schema (t.schema_insert next values)
      unfold Table.fill
      split
      · next equal =>
          rw [equal] at inserted
          exact inserted
      · next equal =>
          rw [equal] at inserted
          exact inserted.trans (ih _ _)

namespace World

variable (ev : Evaluator) (binds : List Value) {w : World}

/-- CREATE TABLE keeps the committed catalog formed, once its query is computed. -/
theorem createTableFrom_formed (formed : w.db.state.Formed) (ct : CreateTable)
    (rel : Option Relation) : (w.createTableFrom ev ct rel).2.db.state.Formed := by
  unfold createTableFrom
  simp only
  split
  · exact formed
  · next taken =>
      have free := (Bool.not_eq_true _).mp taken
      have absent := Catalog.table_of_not_nameInUse free
      split
      · exact formed
      · let start : DdlState := ⟨w.evalState, (nameConstraints ct.constraints w.db.nextConstraint).2,
          w.db.state.setTable ct.name (.new ct.name (newColumns ct rel))⟩
        let declared := sortConstraints (nameConstraints ct.constraints w.db.nextConstraint).1
        have created : w.db.state.ChangesTable w.db.nextRowId ct.name start.cat :=
          .setTable (fun u found => by rw [absent] at found; cases found)
            fun _ => Table.Sound.new (newColumns ct rel)
        have changes := created.trans
          (addConstraints_changes w.db.nextRowId ev w.db.state ct.name start declared)
        have added := addConstraints_formed ev w.db.state ct.name declared start
          (formed.newTable free (newColumns ct rel))
        split
        · next e st failed =>
            rw [failed] at changes
            have restored : st.cat.removeTable ct.name = w.db.state := changes.removeTable absent
            exact restored.symm ▸ formed
        · next st succeeded =>
            rw [succeeded] at changes added
            split
            · exact added
            · next t found =>
                split
                · next c next t' _ =>
                    have restored : (st.cat.setTable ct.name t').removeTable ct.name =
                        w.db.state :=
                      (Catalog.removeTable_setTable _ _ _).trans (changes.removeTable absent)
                    exact restored.symm ▸ formed
                · next next t' filled =>
                    have trims := t.fill_trims ((rel.map (·.rows)).getD []) w.db.nextRowId
                    rw [filled] at trims
                    exact (added.trims (.setTable found trims)).bump

/-- CREATE TABLE keeps the committed catalog formed. -/
theorem createTable_formed (formed : w.db.state.Formed) (ct : CreateTable) :
    (w.createTable ev binds ct).2.db.state.Formed := by
  unfold createTable
  split
  · exact formed
  · exact createTableFrom_formed ev (w := w.setEval _) formed ct _

/-- DROP TABLE keeps the committed catalog formed: no foreign key is left without its parent. -/
theorem dropTable_formed (formed : w.db.state.Formed) (name : String) (cascade : Bool) :
    (w.dropTable name cascade).2.db.state.Formed := by
  unfold dropTable
  simp only
  split
  · exact formed
  · split
    · exact formed
    · exact (formed.dropTable name).bump

/-- TRUNCATE keeps the committed catalog formed. -/
theorem truncate_formed (formed : w.db.state.Formed) (name : String) :
    (w.truncate name).2.db.state.Formed := by
  unfold truncate
  simp only
  split
  · exact formed
  · split
    · exact formed
    · next t found =>
        exact (formed.trims (.setTable found (.of_schema t.schema_truncate))).bump

/-- CREATE INDEX keeps the committed catalog formed. -/
theorem createIndex_formed (formed : w.db.state.Formed) (name table : String)
    (columns : List String) (unique : Bool) :
    (w.createIndex name table columns unique).2.db.state.Formed := by
  unfold createIndex
  simp only
  split
  · exact formed
  · split
    · exact formed
    · next t found =>
        split
        · exact formed
        · next idx resolved =>
            split
            · have added := formed.addUnique found name (resolveColumns_inRange resolved) false
                true true (fun isPrimary => by cases isPrimary) fun declared => by cases declared
              split
              · next equal =>
                  rw [equal] at added
                  exact added
              · next equal =>
                  rw [equal] at added
                  exact added.bump
            · refine (formed.addConstraint found ⟨?_, ?_, ?_⟩ ?_ ?_).bump
              · intro i member
                cases member
              · intro parent positions refers
                cases refers
              · intro refers
                exact absurd rfl refers
              · intro isPrimary
                cases isPrimary
              · intro declared
                cases declared

/-- DROP INDEX keeps the committed catalog formed. -/
theorem dropIndex_formed (formed : w.db.state.Formed) (name : String) :
    (w.dropIndex name).2.db.state.Formed := by
  unfold dropIndex
  simp only
  split
  · exact formed
  · exact (formed.trims (.modifyTable _ _ fun t => .filter t _)).bump

/-- ALTER TABLE keeps the committed catalog formed. -/
theorem alter_formed (formed : w.db.state.Formed) (name : String) (action : AlterTableAction) :
    (w.alter ev name action).2.db.state.Formed := by
  have altered := alterTable_formed ev w.db.state name action
    ⟨w.evalState, w.db.nextConstraint, w.db.state⟩ formed
  unfold alter
  split
  · exact formed
  · next st equal =>
      rw [equal] at altered
      exact altered.bump

/-- CREATE SEQUENCE keeps the committed catalog formed: its name was free. -/
theorem createSequence_formed (formed : w.db.state.Formed) (name : String)
    (options : List SequenceOption) : (w.createSequence name options).2.db.state.Formed := by
  unfold createSequence
  simp only
  split
  · exact formed
  · next taken =>
      obtain ⟨noTable, -, noRoutine⟩ := Catalog.free_of_nameInUse ((Bool.not_eq_true _).mp taken)
      split
      · exact formed
      · refine formed.setSequences ?_ ?_
        · intro other table
          rw [ExtTreeMap.contains_insert, Bool.or_eq_false_iff]
          refine ⟨?_, formed.tableOrSequence other table⟩
          rw [beq_eq_false_iff_ne, ne_eq, Std.compare_eq_iff_eq]
          rintro rfl
          rw [noTable] at table
          cases table
        · intro other sequence
          rw [ExtTreeMap.contains_insert, Bool.or_eq_true, beq_iff_eq,
            Std.compare_eq_iff_eq] at sequence
          rcases sequence with rfl | before
          · exact noRoutine
          · exact formed.sequenceOrRoutine other before

/-- ALTER SEQUENCE keeps the committed catalog formed. -/
theorem alterSequence_formed (formed : w.db.state.Formed) (name : String)
    (options : List SequenceOption) : (w.alterSequence name options).2.db.state.Formed := by
  unfold alterSequence
  simp only
  split
  · exact formed
  · next old found =>
      have known : w.db.state.sequences.contains name = true := by
        rw [ExtTreeMap.contains_eq_isSome_getElem?, found]
        rfl
      split
      · exact formed
      · next def_ _ =>
          have same : ∀ other, (w.db.state.sequences.insert name def_).contains other =
              w.db.state.sequences.contains other := by
            intro other
            rw [ExtTreeMap.contains_insert]
            by_cases equal : name = other
            · subst equal
              rw [known, Bool.or_true]
            · simp [equal]
          refine formed.setSequences ?_ ?_
          · intro other table
            rw [same]
            exact formed.tableOrSequence other table
          · intro other sequence
            rw [same] at sequence
            exact formed.sequenceOrRoutine other sequence

/-- DROP SEQUENCE keeps the committed catalog formed. -/
theorem dropSequence_formed (formed : w.db.state.Formed) (name : String) :
    (w.dropSequence name).2.db.state.Formed := by
  unfold dropSequence
  simp only
  split
  · refine formed.setSequences ?_ ?_
    · intro other table
      rw [ExtTreeMap.contains_erase, formed.tableOrSequence other table, Bool.and_false]
    · intro other sequence
      rw [ExtTreeMap.contains_erase, Bool.and_eq_true] at sequence
      exact formed.sequenceOrRoutine other sequence.2
  · exact formed

/-- CREATE FUNCTION and CREATE PROCEDURE keep the committed catalog formed. -/
theorem createRoutine_formed (formed : w.db.state.Formed) (routine : Routine) (orReplace : Bool) :
    (w.createRoutine routine orReplace).2.db.state.Formed := by
  unfold createRoutine
  simp only
  split
  · exact formed
  · next taken =>
      -- The name is that of a routine already, or of nothing.
      have free : w.db.state.tables.contains routine.name = false ∧
          w.db.state.sequences.contains routine.name = false := by
        rw [Bool.and_eq_true, not_and_or, Bool.not_eq_true, Bool.not_eq_false',
          Bool.and_eq_true, Bool.not_eq_true] at taken
        rcases taken with ⟨-, known⟩ | unused
        · constructor
          · cases table : w.db.state.tables.contains routine.name with
            | false => rfl
            | true =>
                rw [formed.tableOrRoutine _ table] at known
                cases known
          · cases sequence : w.db.state.sequences.contains routine.name with
            | false => rfl
            | true =>
                rw [formed.sequenceOrRoutine _ sequence] at known
                cases known
        · obtain ⟨noTable, noSequence, -⟩ := Catalog.free_of_nameInUse unused
          exact ⟨noTable, noSequence⟩
      have different : ∀ {objects : String → Bool} {other : String},
          objects routine.name = false → objects other = true →
          (compare routine.name other == .eq) = false := by
        intro objects other unused used
        rw [beq_eq_false_iff_ne, ne_eq, Std.compare_eq_iff_eq]
        rintro rfl
        rw [unused] at used
        cases used
      refine formed.setRoutines ?_ ?_
      · intro other table
        rw [ExtTreeMap.contains_insert, formed.tableOrRoutine other table, Bool.or_false]
        exact different free.1 table
      · intro other sequence
        rw [ExtTreeMap.contains_insert, formed.sequenceOrRoutine other sequence, Bool.or_false]
        exact different free.2 sequence

/-- DROP FUNCTION and DROP PROCEDURE keep the committed catalog formed. -/
theorem dropRoutine_formed (formed : w.db.state.Formed) (name : String) (function : Bool) :
    (w.dropRoutine name function).2.db.state.Formed := by
  unfold dropRoutine
  simp only
  split
  · split
    · refine formed.setRoutines ?_ ?_
      · intro other table
        rw [ExtTreeMap.contains_erase, formed.tableOrRoutine other table, Bool.and_false]
      · intro other sequence
        rw [ExtTreeMap.contains_erase, formed.sequenceOrRoutine other sequence, Bool.and_false]
    · exact formed
  · exact formed

/-- Every DDL statement keeps the committed catalog formed, whether it succeeds or not. -/
theorem ddl_formed (formed : w.db.state.Formed) (stmt : Statement) :
    (w.ddl ev binds stmt).2.db.state.Formed := by
  cases stmt with
  | createTable ct => exact createTable_formed ev binds formed ct
  | dropTable name cascadeConstraints => exact dropTable_formed formed name cascadeConstraints
  | truncate name => exact truncate_formed formed name
  | createIndex name table columns unique => exact createIndex_formed formed name table columns unique
  | dropIndex name => exact dropIndex_formed formed name
  | alterTable name action => exact alter_formed ev formed name action
  | createSequence name options => exact createSequence_formed formed name options
  | alterSequence name options => exact alterSequence_formed formed name options
  | dropSequence name => exact dropSequence_formed formed name
  | createRoutine routine orReplace => exact createRoutine_formed formed routine orReplace
  | dropRoutine name function => exact dropRoutine_formed formed name function
  | partitionMaintenance table =>
      simp only [ddl, partitionMaintenance]
      split
      · split <;> exact formed
      · exact formed
  | _ => exact formed

end World

end MockOracle
