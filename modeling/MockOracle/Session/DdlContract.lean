import MockOracle.Catalog.SchemaChange
import MockOracle.Session.Ddl

/-!
# What DDL does to the database

A DDL statement either leaves the committed catalog exactly as it was or raises its
version. In particular a CREATE TABLE that fails half way, after adding the table and some
of its constraints, leaves no trace in the catalog. Every statement keeps the catalog
sound.
-/

namespace MockOracle

open Std Semantics

/-- The database after something that may publish a catalog: the committed catalog is the
same or has a larger version. -/
structure Database.Advances (db db' : Database) : Prop where
  draws : db.nextRowId ≤ db'.nextRowId
  versioned : db'.state = db.state ∨ db.state.version < db'.state.version
  sound : db.state.Sound db.nextRowId → db'.state.Sound db'.nextRowId

namespace Database.Advances

variable {db db' db'' : Database}

/-- A database whose catalog is unchanged. -/
theorem of_same (state : db'.state = db.state) (draws : db.nextRowId ≤ db'.nextRowId) :
    db.Advances db' where
  draws := draws
  versioned := Or.inl state
  sound sound := by
    rw [state]
    exact sound.mono draws

/-- A database that stays the same has advanced. -/
theorem refl (db : Database) : db.Advances db := of_same rfl (Nat.le_refl _)

/-- A database in which a new catalog is published. -/
theorem of_bump {cat : Catalog} (state : db'.state = cat.bump)
    (version : cat.version = db.state.version) (draws : db.nextRowId ≤ db'.nextRowId)
    (sound : db.state.Sound db.nextRowId → cat.Sound db'.nextRowId) : db.Advances db' where
  draws := draws
  versioned := by
    right
    rw [state, Catalog.bump, version]
    exact Nat.lt_succ_self _
  sound holds := by
    rw [state]
    exact (sound holds).of_tables rfl

/-- Advances add up. -/
theorem trans (first : db.Advances db') (second : db'.Advances db'') : db.Advances db'' where
  draws := first.draws.trans second.draws
  versioned := by
    rcases first.versioned with same | larger <;> rcases second.versioned with same' | larger'
    · exact Or.inl (same'.trans same)
    · exact Or.inr (same ▸ larger')
    · exact Or.inr (same' ▸ larger)
    · exact Or.inr (larger.trans larger')
  sound := second.sound ∘ first.sound

/-- The version never decreases. -/
theorem version_le (advances : db.Advances db') : db.state.version ≤ db'.state.version := by
  rcases advances.versioned with same | larger
  · rw [same]
  · omega

end Database.Advances

/-! ## Constraints of one table -/

/-- At most the table `name` is different, with the same columns, and soundness is kept. -/
structure Catalog.ChangesTable (bound : Nat) (name : String) (cat cat' : Catalog) : Prop where
  columns : ∀ t, cat.table name = some t → ∃ t', cat'.table name = some t' ∧ t'.columns = t.columns
  elsewhere : ∀ other, other ≠ name → cat'.table other = cat.table other
  sequences : cat'.sequences = cat.sequences
  routines : cat'.routines = cat.routines
  version : cat'.version = cat.version
  sound : cat.Sound bound → cat'.Sound bound

namespace Catalog.ChangesTable

variable {bound : Nat} {name : String} {cat cat' cat'' : Catalog}

/-- A catalog that stays the same changes no table. -/
theorem refl (cat : Catalog) : cat.ChangesTable bound name cat :=
  ⟨fun t found => ⟨t, found, rfl⟩, fun _ _ => rfl, rfl, rfl, rfl, fun sound => sound⟩

/-- Changes of one table add up. -/
theorem trans (first : cat.ChangesTable bound name cat')
    (second : cat'.ChangesTable bound name cat'') : cat.ChangesTable bound name cat'' where
  columns t found := by
    obtain ⟨t', found', same⟩ := first.columns t found
    obtain ⟨t'', found'', same'⟩ := second.columns t' found'
    exact ⟨t'', found'', same'.trans same⟩
  elsewhere other different := (second.elsewhere other different).trans (first.elsewhere other different)
  sequences := second.sequences.trans first.sequences
  routines := second.routines.trans first.routines
  version := second.version.trans first.version
  sound := second.sound ∘ first.sound

/-- Putting a sound table with the columns it had in the place of a table changes that table only.
-/
theorem setTable {t : Table} (columns : ∀ u, cat.table name = some u → t.columns = u.columns)
    (sound : cat.Sound bound → t.Sound bound name) :
    cat.ChangesTable bound name (cat.setTable name t) where
  columns u found := ⟨t, Catalog.table_setTable_self _ _ _, columns u found⟩
  elsewhere _ different := Catalog.table_setTable_ne _ _ different.symm
  sequences := rfl
  routines := rfl
  version := rfl
  sound holds := holds.setTable (sound holds)

/-- The tables after one is removed. -/
theorem table_removeTable (cat : Catalog) (name other : String) :
    (cat.removeTable name).table other = if name = other then none else cat.table other := by
  simp [Catalog.table, Catalog.removeTable, ExtTreeMap.getElem?_erase]

/-- A table is changed to one with the same columns. -/
theorem of_found {t u : Table} (found : cat.table name = some t) (columns : u.columns = t.columns)
    (sound : t.Sound bound name → u.Sound bound name) :
    cat.ChangesTable bound name (cat.setTable name u) :=
  setTable (fun w found' => by rw [found] at found'; cases found'; exact columns)
    fun holds => sound (holds name t found)

/-- Taking a new table out again restores the catalog. -/
theorem removeTable (changes : cat.ChangesTable bound name cat') (absent : cat.table name = none) :
    cat'.removeTable name = cat := by
  refine Catalog.ext (fun other => ?_) changes.sequences changes.routines changes.version
  rw [table_removeTable]
  split
  · next same => rw [← same, absent]
  · next different => exact changes.elsewhere other (Ne.symm different)

end Catalog.ChangesTable

/-- The state a DDL result carries. -/
def DdlResult.state : DdlResult → DdlState
  | .ok _ st => st
  | .error _ st => st

section Constraints

variable (bound : Nat) (ev : Evaluator) (committed : Catalog) (table : String) (st : DdlState)

/-- Validating a constraint changes no catalog. -/
theorem validate_cat (i : Nat) :
    (DdlResult.state (st.validate ev committed table i)).cat = st.cat := by
  unfold DdlState.validate
  split <;> rfl

/-- The constraints that are not unique have no key columns. -/
theorem resolve_keyless {user : String} {cat : Catalog} {t : Table} {name : String}
    {c : TableConstraint} {kind : ConstraintKind}
    (resolved : resolveConstraint user cat t name c = .ok (.other kind)) (isIndex enabled : Bool) :
    (Constraint.mk name kind isIndex enabled).uniqueColumns = none := by
  unfold resolveConstraint at resolved
  split at resolved
  · split at resolved
    · cases resolved
    · split at resolved
      · cases resolved
      · split at resolved <;> cases resolved
  · next cols _ =>
      cases columns : resolveColumns t cols with
      | error e => simp [columns, Except.map] at resolved
      | ok idx => simp [columns, Except.map] at resolved
  · cases resolved
    rfl
  · next columns parent refColumns onDelete _ =>
      cases key : resolveForeignKey cat t columns parent refColumns onDelete with
      | error e => simp [key, Except.map] at resolved
      | ok foreign =>
          simp only [key, Except.map, Except.ok.injEq, ResolvedConstraint.other.injEq] at resolved
          subst resolved
          unfold resolveForeignKey at key
          simp only [bind, Except.bind] at key
          repeat' (first | contradiction | split at key)
          all_goals
            cases key
            rfl

/-- Adding a constraint changes its table only. -/
theorem addConstraint_changes (c : TableConstraint) :
    st.cat.ChangesTable bound table (DdlResult.state (addConstraint ev committed table c st)).cat := by
  have named : (st.nameConstraint c).2.cat = st.cat := by
    unfold DdlState.nameConstraint
    split <;> rfl
  unfold addConstraint
  simp only
  split
  · exact named ▸ .refl _
  · split
    · exact named ▸ .refl _
    · next t found =>
        split
        · exact named ▸ .refl _
        · next columns primary duplicates _ =>
            have added : st.cat.ChangesTable bound table ((st.nameConstraint c).2.cat.setTable table
                (t.addUnique (st.nameConstraint c).1 columns primary false c.enabled).2) := by
              rw [named] at found ⊢
              exact .of_found found (Table.columns_addUnique t _ _ _ _ _)
                fun sound => sound.addUnique _ _ _ _ _
            split
            · next equal =>
                rw [equal] at added
                exact added
            · next equal =>
                rw [equal] at added
                exact added
        · next kind resolved =>
            have added : st.cat.ChangesTable bound table ((st.nameConstraint c).2.cat.setTable table
                { t with constraints := t.constraints ++
                  [⟨(st.nameConstraint c).1, kind, false, c.enabled⟩] }) := by
              rw [named] at found ⊢
              exact .of_found found rfl fun sound =>
                sound.addOther (resolve_keyless resolved false c.enabled)
            split
            · rw [validate_cat]
              exact added
            · exact added

/-- Adding constraints changes their table only. -/
theorem addConstraints_changes (constraints : List TableConstraint) :
    st.cat.ChangesTable bound table
      (DdlResult.state (addConstraints ev committed table constraints st)).cat := by
  induction constraints generalizing st with
  | nil => exact .refl _
  | cons c rest ih =>
      have first := addConstraint_changes bound ev committed table st c
      unfold addConstraints
      split
      · next after equal =>
          rw [equal] at first
          exact first.trans (ih after)
      · next after equal =>
          rw [equal] at first
          exact first

end Constraints

/-! ## ALTER TABLE -/

/-- The tables change, soundly, and the version does not. -/
structure Catalog.Reshapes (bound : Nat) (cat cat' : Catalog) : Prop where
  version : cat'.version = cat.version
  sound : cat.Sound bound → cat'.Sound bound

namespace Catalog.Reshapes

variable {bound : Nat} {cat cat' cat'' : Catalog}

/-- A catalog that stays the same is reshaped. -/
theorem refl (cat : Catalog) : cat.Reshapes bound cat := ⟨rfl, fun sound => sound⟩

/-- Reshapings add up. -/
theorem trans (first : cat.Reshapes bound cat') (second : cat'.Reshapes bound cat'') :
    cat.Reshapes bound cat'' := ⟨second.version.trans first.version, second.sound ∘ first.sound⟩

/-- A change of one table is a reshaping. -/
theorem of_changesTable {name : String}
    (changes : cat.ChangesTable bound name cat') : cat.Reshapes bound cat' :=
  ⟨changes.version, changes.sound⟩

/-- Modifying a table soundly is a reshaping. -/
theorem modifyTable {name : String} {f : Table → Table}
    (keeps : ∀ t, t.Sound bound name → (f t).Sound bound name) :
    cat.Reshapes bound (cat.modifyTable name f) := by
  refine ⟨?_, fun sound => sound.modifyTable keeps⟩
  unfold Catalog.modifyTable
  split <;> rfl

/-- Changing one table after another. -/
theorem foldl {α : Type} {f : Catalog → α → Catalog}
    (step : ∀ (cat : Catalog) a, cat.Reshapes bound (f cat a)) (as : List α) :
    cat.Reshapes bound (as.foldl f cat) := by
  induction as generalizing cat with
  | nil => exact .refl cat
  | cons a rest ih => exact (step cat a).trans ih

end Catalog.Reshapes

section Alter

variable {bound : Nat} {st : DdlState}

/-- Dropping foreign keys reshapes the catalog. -/
theorem dropForeignKeys_reshapes (bound : Nat) (cat : Catalog) (refs : List ForeignKeyRef) :
    cat.Reshapes bound (dropForeignKeys refs cat) :=
  .foldl (fun _ _ => .modifyTable fun _ sound => sound.filterConstraints _) refs

/-- Disabling foreign keys reshapes the catalog. -/
theorem disableForeignKeys_reshapes (cat : Catalog) (refs : List ForeignKeyRef) :
    cat.Reshapes bound (disableForeignKeys refs cat) := by
  refine .foldl (fun cat f => .modifyTable fun t sound => ?_) refs
  split
  · exact sound
  · exact sound.setEnabled _ _

/-- Dropping a constraint reshapes the catalog, with the foreign keys that go with it. -/
theorem dropTableConstraint_reshapes (table : String) (t : Table) (name : Option String)
    (cascade : Bool) :
    st.cat.Reshapes bound (DdlResult.state (dropTableConstraint table t name cascade st)).cat := by
  unfold dropTableConstraint
  split
  · exact .refl _
  · simp only
    split
    · exact .refl _
    · refine (dropForeignKeys_reshapes _ _ _).trans (.modifyTable fun t sound => ?_)
      exact sound.filterConstraints _

/-- Enabling or disabling a constraint reshapes the catalog. -/
theorem setTableConstraint_reshapes (ev : Evaluator) (committed : Catalog) (table : String)
    (t : Table) (name : Option String) (enabled validate cascade : Bool) :
    st.cat.Reshapes bound (DdlResult.state
      (setTableConstraint ev committed table t name enabled validate cascade st)).cat := by
  unfold setTableConstraint
  simp only
  split
  · exact .refl _
  · next i _ =>
      split
      · exact .refl _
      · have disabled : st.cat.Reshapes bound _ :=
          disableForeignKeys_reshapes st.cat (orphans st.cat table t i enabled)
        split
        · exact disabled
        · next u found =>
            have all := disabled.trans (.of_changesTable (.of_found found
              (Table.columns_setEnabled u i enabled) fun sound => sound.setEnabled i enabled))
            split
            · next equal =>
                rw [equal] at all
                exact all
            · next equal =>
                rw [equal] at all
                split
                · rw [validate_cat]
                  exact all
                · exact all

/-- Every ALTER TABLE reshapes the catalog. -/
theorem alterTable_reshapes (bound : Nat) (st : DdlState) (ev : Evaluator) (committed : Catalog) (table : String)
    (action : AlterTableAction) :
    st.cat.Reshapes bound (DdlResult.state (alterTable ev committed table action st)).cat := by
  unfold alterTable
  split
  · exact .refl _
  · cases action with
    | addConstraints constraints =>
        exact .of_changesTable (addConstraints_changes bound ev committed table st constraints)
    | dropConstraint name cascade => exact dropTableConstraint_reshapes table _ name cascade
    | setConstraint name enabled validate cascade =>
        exact setTableConstraint_reshapes ev committed table _ name enabled validate cascade

end Alter

/-! ## Statements -/

/-- The world after a statement that works on the committed state only. -/
structure World.Publishes (w w' : World) : Prop where
  db : w.db.Advances w'.db
  txn : w'.session.txn = w.session.txn
  commits : w'.session.commits = w.session.commits

namespace World.Publishes

variable {w w' w'' : World}

/-- A world whose catalog and transaction stay the same publishes nothing. -/
theorem of_same (state : w'.db.state = w.db.state) (draws : w.db.nextRowId ≤ w'.db.nextRowId)
    (txn : w'.session.txn = w.session.txn) (commits : w'.session.commits = w.session.commits) :
    w.Publishes w' := ⟨.of_same state draws, txn, commits⟩

/-- Nothing is published by doing nothing. -/
theorem refl (w : World) : w.Publishes w := of_same rfl (Nat.le_refl _) rfl rfl

/-- What is published adds up. -/
theorem trans (first : w.Publishes w') (second : w'.Publishes w'') : w.Publishes w'' :=
  ⟨first.db.trans second.db, second.txn.trans first.txn, second.commits.trans first.commits⟩

/-- A new catalog is published, and counters may have moved. -/
theorem of_bump {cat : Catalog} (state : w'.db.state = cat.bump)
    (version : cat.version = w.db.state.version) (next : w'.db.nextRowId = w.db.nextRowId)
    (sound : w.db.state.Sound w.db.nextRowId → cat.Sound w.db.nextRowId)
    (txn : w'.session.txn = w.session.txn) (commits : w'.session.commits = w.session.commits) :
    w.Publishes w' :=
  ⟨.of_bump state version next.ge (next ▸ sound), txn, commits⟩

end World.Publishes

/-- Filling a new table keeps it sound and draws ids. -/
theorem Table.Sound.fill {name : String} {rows : List Row} {next : Nat} {t : Table}
    (sound : t.Sound next name) (width : ∀ row ∈ rows, row.length = t.columns.length) :
    (t.fill rows next).2.2.Sound (t.fill rows next).2.1 name := by
  induction rows generalizing next t with
  | nil => exact sound
  | cons values rest ih =>
      have inserted := (sound.mono (Nat.le_succ next)).insert (Nat.lt_succ_self next)
        (width values List.mem_cons_self)
      have columns := Table.columns_of_schema (t.schema_insert next values)
      unfold Table.fill
      split
      · next equal =>
          rw [equal] at inserted
          exact inserted
      · next t' equal =>
          rw [equal] at inserted columns
          refine ih inserted fun row member => ?_
          exact (width row (List.mem_cons_of_mem _ member)).trans (congrArg List.length columns.symm)

/-- Filling a table draws row ids upwards. -/
theorem Table.fill_draws (rows : List Row) (next : Nat) (t : Table) :
    next ≤ (t.fill rows next).2.1 := by
  induction rows generalizing next t with
  | nil => exact Nat.le_refl _
  | cons values rest ih =>
      unfold Table.fill
      split
      · exact Nat.le_succ next
      · exact (Nat.le_succ next).trans (ih _ _)

/-- A table that is put in the catalog and removed was removed. -/
theorem Catalog.removeTable_setTable (cat : Catalog) (name : String) (t : Table) :
    (cat.setTable name t).removeTable name = cat.removeTable name := by
  refine Catalog.ext (fun other => ?_) rfl rfl rfl
  rw [ChangesTable.table_removeTable, ChangesTable.table_removeTable]
  split
  · rfl
  · next different => exact table_setTable_ne _ _ different

/-- Removing a table keeps the others sound. -/
theorem Catalog.Sound.removeTable {cat : Catalog} {bound : Nat} (sound : cat.Sound bound)
    (name : String) : (cat.removeTable name).Sound bound := by
  intro other t found
  rw [ChangesTable.table_removeTable] at found
  split at found
  · cases found
  · exact sound other t found

/-- A name that is not in use is no table. -/
theorem Catalog.table_of_not_nameInUse {cat : Catalog} {name : String}
    (free : cat.nameInUse name = false) : cat.table name = none := by
  simp only [Catalog.nameInUse, Bool.or_eq_false_iff] at free
  exact ExtTreeMap.getElem?_eq_none_of_contains_eq_false free.1.1.1

namespace World

variable (ev : Evaluator) (binds : List Value) (w : World)

/-- The rows of a CREATE TABLE are as wide as its columns. -/
def Rectangular (ct : CreateTable) (rel : Option Relation) : Prop :=
  ∀ row ∈ (rel.map (·.rows)).getD [], row.length = (newColumns ct rel).length

/-- The rows of the query of a CREATE TABLE are as wide as the columns it declares. -/
theorem createQuery_rectangular {ct : CreateTable} {rel : Option Relation} {eval : EvalState}
    (success : w.createQuery ev binds ct = .ok rel eval) : Rectangular ct rel := by
  unfold createQuery at success
  split at success
  · cases success
    simp [Rectangular]
  · split at success
    · next result _ evaluated =>
        cases success
        intro row member
        simpa [newColumns] using ev.rectangular evaluated row member
    · cases success

/-- CREATE TABLE publishes a catalog or leaves the one there is, once its query is computed. -/
theorem createTableFrom_publishes {ct : CreateTable} {rel : Option Relation}
    (rectangular : Rectangular ct rel) :
    w.Publishes (w.createTableFrom ev ct rel).2 := by
  unfold createTableFrom
  simp only
  split
  · exact .refl w
  · next free =>
      have absent := Catalog.table_of_not_nameInUse ((Bool.not_eq_true _).mp free)
      split
      · exact .refl w
      · -- Everything up to the rows changes the new table only.
        have created : w.db.state.ChangesTable w.db.nextRowId ct.name
            (w.db.state.setTable ct.name (.new ct.name (newColumns ct rel))) :=
          .setTable (fun u found => by rw [absent] at found; cases found)
            fun _ => Table.Sound.new (newColumns ct rel)
        have added := addConstraints_changes w.db.nextRowId ev w.db.state ct.name
          ⟨w.evalState, (nameConstraints ct.constraints w.db.nextConstraint).2,
            w.db.state.setTable ct.name (.new ct.name (newColumns ct rel))⟩
          (sortConstraints (nameConstraints ct.constraints w.db.nextConstraint).1)
        have constrained := created.trans added
        obtain ⟨t, found, columns⟩ := added.columns _ (Catalog.table_setTable_self _ _ _)
        split
        · next e st equal =>
            rw [equal] at constrained
            exact .of_same (constrained.removeTable absent) (Nat.le_refl _) rfl rfl
        · next st equal =>
            rw [equal] at constrained found
            have here : st.cat.table ct.name = some t := found
            rw [here]
            simp only
            have draws := Table.fill_draws ((rel.map (·.rows)).getD []) w.db.nextRowId t
            split
            · next c next t' filled =>
                rw [filled] at draws
                refine .of_same ?_ draws rfl rfl
                exact (Catalog.removeTable_setTable _ _ _).trans (constrained.removeTable absent)
            · next next t' filled =>
                rw [filled] at draws
                refine ⟨.of_bump rfl constrained.version draws fun sound => ?_, rfl, rfl⟩
                have soundCat := constrained.sound sound
                have soundTable := (soundCat ct.name t here).fill fun row member => by
                  rw [columns]
                  exact rectangular row member
                rw [filled] at soundTable
                exact (soundCat.mono draws).setTable soundTable

/-- CREATE TABLE works on the committed state only. -/
theorem createTable_publishes (ct : CreateTable) : w.Publishes (w.createTable ev binds ct).2 := by
  unfold createTable
  split
  · exact .of_same rfl (Nat.le_refl _) rfl rfl
  · next rel eval evaluated =>
      have evaluatedOnly : w.Publishes (w.setEval eval) := .of_same rfl (Nat.le_refl _) rfl rfl
      exact evaluatedOnly.trans (createTableFrom_publishes ev (w.setEval eval)
        (createQuery_rectangular ev binds w evaluated))

/-- DROP TABLE works on the committed state only. -/
theorem dropTable_publishes (name : String) (cascadeConstraints : Bool) :
    w.Publishes (w.dropTable name cascadeConstraints).2 := by
  unfold dropTable
  simp only
  split
  · exact .refl w
  · split
    · exact .refl w
    · refine .of_bump rfl ?_ rfl (fun sound => ?_) rfl rfl
      · exact (dropForeignKeys_reshapes w.db.nextRowId _ _).version
      · exact ((dropForeignKeys_reshapes _ _ _).sound sound).removeTable name

/-- TRUNCATE works on the committed state only. -/
theorem truncate_publishes (name : String) : w.Publishes (w.truncate name).2 := by
  unfold truncate
  simp only
  split
  · exact .refl w
  · split
    · exact .refl w
    · next t found =>
        exact .of_bump rfl rfl rfl (fun sound => sound.setTable (sound name t found).truncate) rfl rfl

/-- CREATE INDEX works on the committed state only. -/
theorem createIndex_publishes (name table : String) (columns : List String) (unique : Bool) :
    w.Publishes (w.createIndex name table columns unique).2 := by
  unfold createIndex
  simp only
  split
  · exact .refl w
  · split
    · exact .refl w
    · next t found =>
        split
        · exact .refl w
        · next idx _ =>
            split
            · split
              · next u failed =>
                  have same : u = t := by
                    unfold Table.addUnique at failed
                    split at failed
                    · exact (congrArg Prod.snd failed).symm
                    · cases congrArg Prod.fst failed
                  refine .of_same ?_ (Nat.le_refl _) rfl rfl
                  rw [same]
                  exact Catalog.setTable_self found
              · next u success =>
                  refine .of_bump rfl rfl rfl (fun sound => ?_) rfl rfl
                  have added := (sound table t found).addUnique name idx false true true
                  rw [success] at added
                  exact sound.setTable added
            · exact .of_bump rfl rfl rfl
                (fun sound => sound.setTable ((sound table t found).addOther rfl)) rfl rfl

/-- DROP INDEX works on the committed state only. -/
theorem dropIndex_publishes (name : String) : w.Publishes (w.dropIndex name).2 := by
  unfold dropIndex
  simp only
  split
  · exact .refl w
  · next owner t _ =>
      have dropped : w.db.state.Reshapes w.db.nextRowId (w.db.state.modifyTable owner fun t =>
          { t with constraints := t.constraints.filter fun c => !(c.isIndex && c.name == name) }) :=
        .modifyTable fun t sound => sound.filterConstraints _
      exact .of_bump rfl dropped.version rfl dropped.sound rfl rfl

/-- ALTER TABLE works on the committed state only. -/
theorem alter_publishes (name : String) (action : AlterTableAction) :
    w.Publishes (w.alter ev name action).2 := by
  have altered := alterTable_reshapes w.db.nextRowId
    ⟨w.evalState, w.db.nextConstraint, w.db.state⟩ ev w.db.state name action
  unfold alter
  split
  · exact .of_same rfl (Nat.le_refl _) rfl rfl
  · next st equal =>
      rw [equal] at altered
      exact .of_bump rfl altered.version rfl altered.sound rfl rfl

/-- Every DDL statement leaves the committed catalog as it was or raises its version. -/
theorem ddl_publishes (stmt : Statement) : w.Publishes (w.ddl ev binds stmt).2 := by
  have tables : ∀ {w' : World} {cat : Catalog}, w'.db.state = cat.bump →
      cat.tables = w.db.state.tables → cat.version = w.db.state.version →
      w'.db.nextRowId = w.db.nextRowId → w'.session = w.session → w.Publishes w' := by
    intro w' cat state same version next session
    exact .of_bump state version next (fun sound => sound.of_tables same) (by rw [session])
      (by rw [session])
  cases stmt with
  | createTable ct => exact createTable_publishes ev binds w ct
  | dropTable name cascadeConstraints => exact dropTable_publishes w name cascadeConstraints
  | truncate name => exact truncate_publishes w name
  | createIndex name table columns unique => exact createIndex_publishes w name table columns unique
  | dropIndex name => exact dropIndex_publishes w name
  | alterTable name action => exact alter_publishes ev w name action
  | createSequence name options =>
      simp only [ddl, createSequence]
      split
      · exact .refl w
      · split
        · exact .refl w
        · exact tables rfl rfl rfl rfl rfl
  | alterSequence name options =>
      simp only [ddl, alterSequence]
      split
      · exact .refl w
      · split
        · exact .refl w
        · exact tables rfl rfl rfl rfl rfl
  | dropSequence name =>
      simp only [ddl, dropSequence]
      split
      · exact tables rfl rfl rfl rfl rfl
      · exact .refl w
  | createRoutine routine orReplace =>
      simp only [ddl, createRoutine]
      split
      · exact .refl w
      · exact tables rfl rfl rfl rfl rfl
  | dropRoutine name function =>
      simp only [ddl, dropRoutine]
      split
      · split
        · exact tables rfl rfl rfl rfl rfl
        · exact .refl w
      · exact .refl w
  | partitionMaintenance table =>
      simp only [ddl, partitionMaintenance]
      split
      · split <;> exact .refl w
      · exact .refl w
  | _ => exact .refl w

end World

end MockOracle
