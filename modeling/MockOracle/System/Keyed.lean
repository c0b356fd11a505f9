import MockOracle.Session.CascadesEnd
import MockOracle.Session.DdlFormed
import MockOracle.System.System
import MockOracle.Eval.Literal

/-!
# Foreign keys have columns

`Catalog.Keyed` is what makes setting a foreign key to NULL a step forward. DML keeps the foreign
keys there are, and a statement that declares one names its columns in parentheses, so that there is
at least one. A catalog that DDL has made of such statements is keyed.
-/

namespace MockOracle

open Std Semantics

/-- A foreign key that is declared has columns. -/
def TableConstraint.NamesColumns (c : TableConstraint) : Prop :=
  ∀ columns parent refColumns onDelete, c.kind = .foreignKey columns parent refColumns onDelete →
    columns ≠ []

/-- The constraints that a statement declares. -/
def Statement.declares : Statement → List TableConstraint
  | .createTable ct => ct.constraints
  | .alterTable _ (.addConstraints constraints) => constraints
  | _ => []

namespace Constraint

/-- A foreign key, if it is one, has columns. -/
def Keyed (c : Constraint) : Prop := c.reference ≠ none → c.columns ≠ []

/-- A constraint with the outline of a keyed one is keyed. -/
theorem Keyed.of_outline {c c' : Constraint} (keyed : c.Keyed) (outline : c'.outline = c.outline) :
    c'.Keyed := by
  unfold Keyed
  rw [← outline_reference c', ← outline_columns c', outline, outline_reference, outline_columns]
  exact keyed

/-- A constraint that refers to no table is keyed. -/
theorem Keyed.of_reference {c : Constraint} (none_ : c.reference = none) : c.Keyed :=
  fun refers => absurd none_ refers

end Constraint

namespace Catalog

variable {cat cat' : Catalog}

/-- A catalog is keyed if and only if all its constraints are. -/
theorem keyed_iff : cat.Keyed ↔
    ∀ name t, cat.table name = some t → ∀ c ∈ t.constraints, c.Keyed := by
  constructor
  · intro keyed name t found c member refers
    obtain ⟨label, kind, isIndex, enabled⟩ := c
    cases kind with
    | unique columns primary index => exact absurd rfl refers
    | check condition => exact absurd rfl refers
    | index => exact absurd rfl refers
    | foreignKey columns parent parentColumns onDelete =>
        exact keyed _ (mem_foreignKeys.mpr ⟨name, t, found, _, member, rfl⟩)
  · intro keyed f member
    obtain ⟨name, t, found, c, among, refers⟩ := mem_foreignKeys.mp member
    have columns := keyed name t found c among
    obtain ⟨label, kind, isIndex, enabled⟩ := c
    cases kind with
    | unique columns primary index => cases refers
    | check condition => cases refers
    | index => cases refers
    | foreignKey columns parent parentColumns onDelete =>
        cases refers
        exact columns (Option.some_ne_none _)

namespace Keyed

/-- The empty catalog is keyed. -/
theorem empty : Catalog.empty.Keyed :=
  keyed_iff.mpr fun name t found => by simp [Catalog.empty, Catalog.table] at found

/-- Trimming keeps the foreign keys keyed. -/
theorem trims (keyed : cat.Keyed) (trims : cat.Trims cat') : cat'.Keyed := by
  rw [keyed_iff] at keyed ⊢
  intro name t' found' c member
  obtain ⟨t, found, change⟩ := trims.tables name t' found'
  obtain ⟨d, among, outline⟩ := change.member member
  exact (keyed name t found d among).of_outline outline

/-- Only the tables matter. -/
theorem of_tables (keyed : cat.Keyed) (tables : cat'.tables = cat.tables) : cat'.Keyed := by
  rw [keyed_iff] at keyed ⊢
  intro name t found
  refine keyed name t ?_
  rw [← found, Catalog.table, Catalog.table, tables]

/-- Dropping a table keeps the catalog keyed. -/
theorem removeTable (keyed : cat.Keyed) (name : String) : (cat.removeTable name).Keyed := by
  rw [keyed_iff] at keyed ⊢
  intro other t found
  rw [ChangesTable.table_removeTable] at found
  split at found
  · cases found
  · exact keyed other t found

/-- A table with keyed constraints can take the place of another. -/
theorem setTable (keyed : cat.Keyed) {t : Table} (own : ∀ c ∈ t.constraints, c.Keyed)
    (name : String) : (cat.setTable name t).Keyed := by
  rw [keyed_iff] at keyed ⊢
  intro other u found
  rw [table_setTable] at found
  split at found
  · cases found
    exact own
  · exact keyed other u found

/-- A constraint that is keyed can be added to a table. -/
theorem addConstraint (keyed : cat.Keyed) {name : String} {t : Table}
    (found : cat.table name = some t) {c : Constraint} (own : c.Keyed) :
    (cat.setTable name { t with constraints := t.constraints ++ [c] }).Keyed := by
  refine keyed.setTable (fun d member => ?_) name
  rcases List.mem_append.mp member with before | added
  · exact keyed_iff.mp keyed name t found d before
  · rw [List.mem_singleton.mp added]
    exact own

/-- A unique constraint or index keeps the catalog keyed. -/
theorem addUnique (keyed : cat.Keyed) {name : String} {t : Table} (found : cat.table name = some t)
    (label : String) (columns : List Nat) (primary isIndex enabled : Bool) :
    (cat.setTable name (t.addUnique label columns primary isIndex enabled).2).Keyed := by
  unfold Table.addUnique
  split
  · rw [Catalog.setTable_self found]
    exact keyed
  · exact keyed.addConstraint found (.of_reference rfl)

end Keyed

end Catalog

/-! ## DDL -/

/-- The resolved foreign key has as many columns as the statement names. -/
theorem resolveForeignKey_keyed {cat : Catalog} {t : Table} {columns refColumns : List String}
    {parent : String} {onDelete : OnDelete} {kind : ConstraintKind}
    (resolved : resolveForeignKey cat t columns parent refColumns onDelete = .ok kind)
    (named : columns ≠ []) (label : String) (enabled : Bool) :
    Constraint.Keyed ⟨label, kind, false, enabled⟩ := by
  unfold resolveForeignKey at resolved
  obtain ⟨idx, own, resolved⟩ := Except.of_bind resolved
  have some_ : idx ≠ [] := by
    rintro rfl
    cases columns with
    | nil => exact named rfl
    | cons name rest =>
        unfold resolveColumns at own
        split at own
        · cases own
        · cases tail : resolveColumns t rest with
          | error e => simp [tail, Except.map] at own
          | ok later => simp [tail, Except.map] at own
  obtain ⟨p, -, resolved⟩ := Except.of_bind resolved
  dsimp only at resolved
  split at resolved
  all_goals
    obtain ⟨refs, -, resolved⟩ := Except.of_bind resolved
    split at resolved
    · cases resolved
    next lengths =>
    obtain ⟨key, keyOk, resolved⟩ := Except.of_bind resolved
    split at resolved
    · cases resolved
    cases resolved
    obtain ⟨-, -, -, paired, -⟩ := key_of_matching keyOk
    intro _ none_
    refine some_ (List.length_eq_zero_iff.mp ?_)
    rw [← not_not.mp lengths, ← paired]
    exact List.length_eq_zero_iff.mpr (List.map_eq_nil_iff.mp none_)

/-- A declared constraint that names its columns resolves to a keyed one. -/
theorem resolveConstraint_keyed {user label : String} {cat : Catalog} {t : Table}
    {c : TableConstraint} {kind : ConstraintKind}
    (success : resolveConstraint user cat t label c = .ok (.other kind)) (named : c.NamesColumns)
    (enabled : Bool) : Constraint.Keyed ⟨label, kind, false, enabled⟩ := by
  unfold resolveConstraint at success
  split at success
  · split at success
    · cases success
    · split at success
      · cases success
      · split at success
        · cases success
        · cases success
  · next cols _ =>
      cases own : resolveColumns t cols with
      | error e => simp [own, Except.map] at success
      | ok idx => simp [own, Except.map] at success
  · cases success
    exact .of_reference rfl
  · next columns parent refColumns onDelete isKey =>
      cases key : resolveForeignKey cat t columns parent refColumns onDelete with
      | error e => simp [key, Except.map] at success
      | ok resolved =>
          simp only [key, Except.map, Except.ok.injEq, ResolvedConstraint.other.injEq] at success
          subst success
          exact resolveForeignKey_keyed key (named _ _ _ _ isKey) label enabled

/-- ADD CONSTRAINT keeps the catalog keyed. -/
theorem addConstraint_keyed (ev : Evaluator) (committed : Catalog) (table : String)
    {c : TableConstraint} (named : c.NamesColumns) {st : DdlState} (keyed : st.cat.Keyed) :
    (DdlResult.state (addConstraint ev committed table c st)).cat.Keyed := by
  have same : (st.nameConstraint c).2.cat = st.cat := by
    unfold DdlState.nameConstraint
    split <;> rfl
  unfold addConstraint
  simp only
  rw [← same] at keyed
  split
  · exact keyed
  · split
    · exact keyed
    · next t found =>
        split
        · exact keyed
        · next columns primary duplicates resolved =>
            have added := keyed.addUnique found (st.nameConstraint c).1 columns primary false
              c.enabled
            split
            · next equal =>
                rw [equal] at added
                exact added
            · next equal =>
                rw [equal] at added
                exact added
        · next kind resolved =>
            have added := keyed.addConstraint found (resolveConstraint_keyed resolved named c.enabled)
            split
            · rw [validate_cat]
              exact added
            · exact added

/-- So do the constraints of a CREATE TABLE. -/
theorem addConstraints_keyed (ev : Evaluator) (committed : Catalog) (table : String)
    {constraints : List TableConstraint} (named : ∀ c ∈ constraints, c.NamesColumns)
    (st : DdlState) (keyed : st.cat.Keyed) :
    (DdlResult.state (addConstraints ev committed table constraints st)).cat.Keyed := by
  induction constraints generalizing st with
  | nil => exact keyed
  | cons c rest ih =>
      obtain ⟨here, later⟩ := List.forall_mem_cons.mp named
      have first := addConstraint_keyed ev committed table here keyed
      unfold addConstraints
      split
      · next after equal =>
          rw [equal] at first
          exact ih later after first
      · next after equal =>
          rw [equal] at first
          exact first

/-- ALTER TABLE keeps the catalog keyed. -/
theorem alterTable_keyed (ev : Evaluator) (committed : Catalog) (table : String)
    {action : AlterTableAction}
    (named : ∀ c ∈ (Statement.alterTable table action).declares, c.NamesColumns) (st : DdlState)
    (keyed : st.cat.Keyed) :
    (DdlResult.state (alterTable ev committed table action st)).cat.Keyed := by
  unfold alterTable
  split
  · exact keyed
  · cases action with
    | addConstraints constraints => exact addConstraints_keyed ev committed table named st keyed
    | dropConstraint name cascade =>
        exact keyed.trims (dropTableConstraint_trims table _ name cascade st)
    | setConstraint name enabled validate cascade =>
        exact keyed.trims
          (setTableConstraint_trims ev committed table _ name enabled validate cascade st)

/-- Sorting and naming the constraints keeps the columns they name. -/
theorem sortConstraints_named {constraints : List TableConstraint}
    (named : ∀ c ∈ constraints, c.NamesColumns) (next : Nat) :
    ∀ c ∈ sortConstraints (nameConstraints constraints next).1, c.NamesColumns := by
  have each : ∀ c ∈ (nameConstraints constraints next).1, c.NamesColumns := by
    induction constraints generalizing next with
    | nil => simp [nameConstraints]
    | cons c rest ih =>
        obtain ⟨here, later⟩ := List.forall_mem_cons.mp named
        unfold nameConstraints
        split
        · exact List.forall_mem_cons.mpr ⟨here, ih later next⟩
        · exact List.forall_mem_cons.mpr ⟨here, ih later (next + 1)⟩
  intro c member
  rcases List.mem_append.mp member with other | isKey
  · exact each c (List.mem_of_mem_filter other)
  · exact each c (List.mem_of_mem_filter isKey)

namespace World

variable (ev : Evaluator) (binds : List Value) {w : World}

/-- CREATE TABLE keeps the state keyed. -/
theorem createTableFrom_keyed (keyed : w.db.state.Keyed) {ct : CreateTable}
    (named : ∀ c ∈ ct.constraints, c.NamesColumns) (rel : Option Relation) :
    (w.createTableFrom ev ct rel).2.db.state.Keyed := by
  unfold createTableFrom
  simp only
  split
  · exact keyed
  · split
    · exact keyed
    · have added := addConstraints_keyed ev w.db.state ct.name
        (sortConstraints_named named w.db.nextConstraint)
        ⟨w.evalState, (nameConstraints ct.constraints w.db.nextConstraint).2,
          w.db.state.setTable ct.name (.new ct.name (newColumns ct rel))⟩
        (keyed.setTable (fun c member => by cases member) ct.name)
      split
      · next failed =>
          rw [failed] at added
          exact added.removeTable ct.name
      · next st succeeded =>
          rw [succeeded] at added
          split
          · exact added
          · next t found =>
              split
              · next filled =>
                  have trims := t.fill_trims ((rel.map (·.rows)).getD []) w.db.nextRowId
                  rw [filled] at trims
                  exact (added.trims (.setTable found trims)).removeTable ct.name
              · next filled =>
                  have trims := t.fill_trims ((rel.map (·.rows)).getD []) w.db.nextRowId
                  rw [filled] at trims
                  exact (added.trims (.setTable found trims)).of_tables rfl

/-- So does ALTER TABLE. -/
theorem alter_keyed (keyed : w.db.state.Keyed) (name : String) {action : AlterTableAction}
    (named : ∀ c ∈ (Statement.alterTable name action).declares, c.NamesColumns) :
    (w.alter ev name action).2.db.state.Keyed := by
  have altered := alterTable_keyed ev w.db.state name named
    ⟨w.evalState, w.db.nextConstraint, w.db.state⟩ keyed
  unfold alter
  split
  · exact keyed
  · next st equal =>
      rw [equal] at altered
      exact altered.of_tables rfl

/-- A DDL statement whose foreign keys name columns keeps the committed catalog keyed, whether it
succeeds or not. -/
theorem ddl_keyed (keyed : w.db.state.Keyed) {stmt : Statement}
    (named : ∀ c ∈ stmt.declares, c.NamesColumns) : (w.ddl ev binds stmt).2.db.state.Keyed := by
  cases stmt with
  | createTable ct =>
      simp only [ddl, createTable]
      split
      · exact keyed
      · exact createTableFrom_keyed ev (w := w.setEval _) keyed named _
  | dropTable name cascadeConstraints =>
      simp only [ddl, dropTable]
      split
      · exact keyed
      · split
        · exact keyed
        · exact ((keyed.trims (dropForeignKeys_trims _ _)).removeTable name).of_tables rfl
  | truncate name =>
      simp only [ddl, truncate]
      split
      · exact keyed
      · split
        · exact keyed
        · next t found =>
            exact (keyed.trims (.setTable found (.of_schema t.schema_truncate))).of_tables rfl
  | createIndex name table columns unique =>
      simp only [ddl, createIndex]
      split
      · exact keyed
      · split
        · exact keyed
        · next t found =>
            split
            · exact keyed
            · next idx resolved =>
                split
                · have added := keyed.addUnique found name idx false true true
                  split
                  · next equal =>
                      rw [equal] at added
                      exact added
                  · next equal =>
                      rw [equal] at added
                      exact added.of_tables rfl
                · exact (keyed.addConstraint found (.of_reference rfl)).of_tables rfl
  | dropIndex name =>
      simp only [ddl, dropIndex]
      split
      · exact keyed
      · exact (keyed.trims (.modifyTable _ _ fun t => .filter t _)).of_tables rfl
  | alterTable name action => exact alter_keyed ev keyed name named
  | createSequence name options =>
      simp only [ddl, createSequence]
      split
      · exact keyed
      · split <;> exact keyed.of_tables rfl
  | alterSequence name options =>
      simp only [ddl, alterSequence]
      split
      · exact keyed
      · split <;> exact keyed.of_tables rfl
  | dropSequence name =>
      simp only [ddl, dropSequence]
      split <;> exact keyed.of_tables rfl
  | createRoutine routine orReplace =>
      simp only [ddl, createRoutine]
      split <;> exact keyed.of_tables rfl
  | dropRoutine name function =>
      simp only [ddl, dropRoutine]
      split
      · split <;> exact keyed.of_tables rfl
      · exact keyed
  | partitionMaintenance table =>
      simp only [ddl, partitionMaintenance]
      split
      · split <;> exact keyed
      · exact keyed
  | _ => exact keyed

/-- DDL statements whose foreign keys name columns make a keyed catalog. -/
theorem ddls_keyed {stmts : List Statement}
    (named : ∀ stmt ∈ stmts, ∀ c ∈ stmt.declares, c.NamesColumns) (new : w.db.state = .empty) :
    (stmts.foldl (fun w stmt => (w.ddl ev binds stmt).2) w).db.state.Keyed := by
  have run : ∀ {w : World}, w.db.state.Keyed →
      (stmts.foldl (fun w stmt => (w.ddl ev binds stmt).2) w).db.state.Keyed := by
    intro w keyed
    induction stmts generalizing w with
    | nil => exact keyed
    | cons stmt rest ih =>
        obtain ⟨here, later⟩ := List.forall_mem_cons.mp named
        exact ih later (ddl_keyed ev binds keyed here)
  refine run ?_
  rw [new]
  exact .empty

end World

/-! ## Cascades -/

/-- The loop over the rounds logs no more entries than there are rows and foreign key cells. -/
theorem cascades_bounded (user : String) (start : Nat) {txn : Txn} (keyed : txn.work.Keyed) :
    (enforceRounds user (txn.work.foreignKeys.filter (·.enabled)) (txn.work.rowCount + 2) start
      txn).2.log.length ≤ txn.log.length + txn.work.weight := by
  have among : ∀ f ∈ txn.work.foreignKeys.filter (·.enabled), f ∈ txn.work.foreignKeys :=
    fun _ member => (List.mem_filter.mp member).1
  have enough : EnoughRounds start txn (txn.work.rowCount + 2) := Or.inl (Nat.le_refl _)
  obtain ⟨-, edits, last, cascaded⟩ := enforceRounds_end user among enough
  have paid := CascadeEdit.weight_of_steps cascaded.run keyed
  rw [cascaded.logged, List.length_append]
  omega

namespace System

/-- Two tables that reference each other: C goes with its P, and the R of a P is set to NULL when its
C goes. P has the rows (1, NULL) and (2, 1), and C has the row (1, 1). -/
def cyclic : System :=
  (new fun _ => Literal.env "SCOTT").runAll literalEvaluator
    [.sql 0 (Literal.createTable "P" ["ID", "R"] [Literal.primaryKey "P_PK" "ID"]),
      .sql 0 (Literal.createTable "C" ["ID", "P"] [Literal.primaryKey "C_PK" "ID",
        Literal.references "C_FK" "P" "P" .cascade]),
      .sql 0 (.alterTable "P" (.addConstraints [Literal.references "P_FK" "R" "C" .setNull])),
      .sql 0 (Literal.insert "P" [.ofInt 1, .null]),
      .sql 0 (Literal.insert "C" [.ofInt 1, .ofInt 1]),
      .sql 0 (Literal.insert "P" [.ofInt 2, .ofInt 1]), .commit 0]

/-- The transaction that has deleted the row 1 of P, before any cascade. -/
def deletingFirst : Txn :=
  match Dml.statement ⟨literalEvaluator, [], cyclic.db.state, none⟩
    (.delete ⟨"P", none, some (Literal.isNumber "ID" 1), none⟩) (cyclic.world 0).dmlState with
  | .ok _ st => st.txn
  | .error _ st => st.txn

/-- The row of C goes, and the R of the other P with it: two entries for two cells and a row. -/
theorem cascades_end_cyclic :
    ∃ (txn : Txn) (last : Catalog),
      RoundsEnd "SCOTT" (deletingFirst.work.foreignKeys.filter (·.enabled)) 0 deletingFirst
        (.ok (), txn) ∧
      txn.log = [.delete "P" 1 [.ofInt 1, .null], .delete "C" 2 [.ofInt 1, .ofInt 1],
        .update "P" 3 [.ofInt 2, .null] [.ofInt 2, .ofInt 1]] ∧
      (∀ a, txn.work.rowAt a = last.rowAt a) ∧ last.weight + 2 ≤ deletingFirst.work.weight := by
  have computed : deletingFirst.log = [.delete "P" 1 [.ofInt 1, .null]] ∧
      (deletingFirst.work.foreignKeys.all fun f => !f.columns.isEmpty) = true ∧
      (enforceRounds "SCOTT" (deletingFirst.work.foreignKeys.filter (·.enabled))
        (deletingFirst.work.rowCount + 2) 0 deletingFirst).1.isOk = true ∧
      (enforceRounds "SCOTT" (deletingFirst.work.foreignKeys.filter (·.enabled))
        (deletingFirst.work.rowCount + 2) 0 deletingFirst).2.log =
      [.delete "P" 1 [.ofInt 1, .null], .delete "C" 2 [.ofInt 1, .ofInt 1],
        .update "P" 3 [.ofInt 2, .null] [.ofInt 2, .ofInt 1]] := by decide +kernel
  obtain ⟨log, columns, success, final⟩ := computed
  have keyed : deletingFirst.work.Keyed := fun f member none_ => by
    have here := List.all_eq_true.mp columns f member
    rw [none_] at here
    cases here
  obtain ⟨ends, edits, last, cascaded⟩ := cascades_end "SCOTT" 0 deletingFirst
  generalize enforceRounds "SCOTT" (deletingFirst.work.foreignKeys.filter (·.enabled))
    (deletingFirst.work.rowCount + 2) 0 deletingFirst = outcome at *
  obtain ⟨result, txn⟩ := outcome
  cases result with
  | error e => cases success
  | ok _ =>
    have logged : txn.log = deletingFirst.log ++ Edit.log edits := cascaded.logged
    have entries : txn.log = _ := final
    rw [logged, log, List.singleton_append] at entries
    have paid := CascadeEdit.weight_of_steps cascaded.run keyed
    rw [(List.cons.inj entries).2] at paid
    exact ⟨txn, last, ends, final, cascaded.rows, paid⟩

end System

end MockOracle
