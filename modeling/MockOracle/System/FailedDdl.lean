import Mathlib.Logic.Relation
import MockOracle.Session.DdlRows
import MockOracle.System.CreateAs
import MockOracle.System.DropConstraint
import MockOracle.System.Validation

/-!
# DDL that fails

A DDL statement that fails leaves the committed catalog as it was, at whichever step it fails.
Counters are not part of the catalog: numbers that its evaluations have drawn stay drawn. It
evaluates the query of CREATE TABLE AS SELECT, before the new name is looked at, and the
CHECK conditions that ALTER TABLE validates, and nothing else.
-/

namespace MockOracle

open Std Semantics

/-- The state after an evaluation, whether it succeeds or not. -/
def stateAfter {α : Type} : EStateM.Result OraError EvalState α → EvalState
  | .ok _ st => st
  | .error _ st => st

/-- One evaluation of a condition for one of some rows. -/
def ChecksRow (ev : Evaluator) (committed : Catalog) (rows : Rows) (conditions : Expr → Prop)
    (st st' : EvalState) : Prop :=
  ∃ (cat : Catalog) (cols : List RelCol) (condition : Expr) (id : Nat) (row : Row),
    conditions condition ∧ rows[id]? = some row ∧
      st' = stateAfter
        (ev.evalBool ⟨cat, [], committed, none⟩ condition (.row cols row none) st)

/-- Some evaluations of conditions for rows, one after the other. -/
def ChecksRows (ev : Evaluator) (committed : Catalog) (rows : Rows) (conditions : Expr → Prop) :
    EvalState → EvalState → Prop :=
  Relation.ReflTransGen (ChecksRow ev committed rows conditions)

namespace ChecksRows

variable {ev : Evaluator} {committed : Catalog} {rows : Rows} {conditions : Expr → Prop}
  {st st' : EvalState}

theorem mono {more : Expr → Prop} (checks : ChecksRows ev committed rows conditions st st')
    (fewer : ∀ condition, conditions condition → more condition) :
    ChecksRows ev committed rows more st st' := by
  refine Relation.ReflTransGen.mono ?_ _ _ checks
  rintro a b ⟨cat, cols, condition, id, row, written, stored, after⟩
  exact ⟨cat, cols, condition, id, row, fewer condition written, stored, after⟩

/-- Nothing is evaluated for no rows. -/
theorem of_empty (checks : ChecksRows ev committed ∅ conditions st st') : st' = st := by
  induction checks with
  | refl => rfl
  | tail _ last ih =>
      obtain ⟨_, _, _, _, _, -, stored, -⟩ := last
      simp at stored

end ChecksRows

/-! ## Validating constraints -/

section Checks

variable {ev : Evaluator} {committed : Catalog} {table : String} {t : Table}

theorem validateRows_checks {cat : Catalog} {condition : Expr} {violated : OraError}
    {rows : List (Nat × Row)} (stored : ∀ row ∈ rows, t.rows[row.1]? = some row.2)
    (st : EvalState) :
    ChecksRows ev committed t.rows (· = condition) st (stateAfter
      (validateRows ev ⟨cat, [], committed, none⟩ t condition violated rows st)) := by
  induction rows generalizing st with
  | nil => exact .refl
  | cons row rest ih =>
      have first : ChecksRow ev committed t.rows (· = condition) st (stateAfter
          (ev.evalBool ⟨cat, [], committed, none⟩ condition
            (.row (tableScopeCols t t.name) row.2 none) st)) :=
        ⟨cat, _, condition, row.1, row.2, rfl, stored row List.mem_cons_self, rfl⟩
      have later := ih fun other member => stored other (List.mem_cons_of_mem _ member)
      unfold validateRows
      simp only [bind, EStateM.bind]
      cases evaluated : ev.evalBool ⟨cat, [], committed, none⟩ condition
          (.row (tableScopeCols t t.name) row.2 none) st with
      | error e st₁ =>
          rw [evaluated] at first
          exact .single first
      | ok value st₁ =>
          rw [evaluated] at first
          simp only
          split
          · exact .single first
          · exact .head first (later st₁)

/-- Validating a constraint evaluates the condition of a CHECK and nothing else. -/
theorem validateConstraint_checks {cat : Catalog} {i : Nat} {k : Constraint}
    (found : cat.table table = some t) (position : t.constraints[i]? = some k) (st : EvalState) :
    ChecksRows ev committed t.rows (fun condition => k.kind = .check condition) st
      (stateAfter (validateConstraint ev committed cat table i st)) := by
  obtain ⟨name, kind, isIndex, enabled⟩ := k
  simp only [validateConstraint, found, position, Option.bind_some, Option.map_some]
  cases kind with
  | check condition =>
      refine (validateRows_checks (fun row member => ?_) st).mono fun _ equal => equal ▸ rfl
      exact ExtTreeMap.mem_toList_iff_getElem?_eq_some.mp member
  | foreignKey columns parent parentColumns onDelete =>
      dsimp only
      split
      · exact .refl
      · split <;> exact .refl
  | unique columns primary index =>
      cases primary with
      | false => exact .refl
      | true =>
          dsimp only
          split <;> exact .refl
  | index => exact .refl

theorem DdlState.validate_eval (st : DdlState) (i : Nat) :
    (DdlResult.state (st.validate ev committed table i)).eval =
      stateAfter (validateConstraint ev committed st.cat table i st.eval) := by
  unfold DdlState.validate
  split
  · next equal => rw [equal]; rfl
  · next equal => rw [equal]; rfl

/-- Adding a constraint changes no row and evaluates its condition, if it is a CHECK. -/
theorem addConstraint_checks (c : TableConstraint) {st : DdlState}
    (found : st.cat.table table = some t) :
    ChecksRows ev committed t.rows (fun condition => c.kind = .check condition) st.eval
        (DdlResult.state (addConstraint ev committed table c st)).eval ∧
      ∃ u, (DdlResult.state (addConstraint ev committed table c st)).cat.table table = some u ∧
        u.rows = t.rows := by
  obtain ⟨sameCat, sameEval⟩ := st.nameConstraint_keeps c
  unfold addConstraint
  simp only [sameCat, sameEval, found]
  split
  · exact ⟨sameEval ▸ .refl, t, sameCat ▸ found, rfl⟩
  split
  · exact ⟨sameEval ▸ .refl, t, sameCat ▸ found, rfl⟩
  · next columns primary duplicates resolved =>
      have rows := t.rows_addUnique (st.nameConstraint c).1 columns primary false c.enabled
      split
      · next u equal =>
          rw [equal] at rows
          exact ⟨sameEval ▸ .refl, u, Catalog.table_setTable_self _ _ _, rows⟩
      · next u equal =>
          rw [equal] at rows
          exact ⟨sameEval ▸ .refl, u, Catalog.table_setTable_self _ _ _, rows⟩
  · next kind resolved =>
      have here := Catalog.table_setTable_self st.cat table
        { t with constraints := t.constraints ++ [⟨(st.nameConstraint c).1, kind, false, c.enabled⟩] }
      split
      · rw [DdlState.validate_eval, validate_cat]
        refine ⟨?_, _, here, rfl⟩
        have position : (t.constraints ++ [⟨(st.nameConstraint c).1, kind, false, c.enabled⟩])[
            t.constraints.length]? = some ⟨(st.nameConstraint c).1, kind, false, c.enabled⟩ := by
          simp
        refine (validateConstraint_checks here position _).mono fun condition isCheck => ?_
        rcases resolveConstraint_kind resolved with ⟨e, written, rfl⟩ |
          ⟨columns, parent, refColumns, onDelete, own, key, written, rfl⟩
        · cases isCheck
          exact written
        · cases isCheck
      · exact ⟨sameEval ▸ .refl, _, here, rfl⟩

/-- Adding constraints evaluates the conditions of those that are CHECKs. -/
theorem addConstraints_checks {cs : List TableConstraint} {st : DdlState}
    (found : st.cat.table table = some t) :
    ChecksRows ev committed t.rows (fun condition => ∃ c ∈ cs, c.kind = .check condition) st.eval
      (DdlResult.state (addConstraints ev committed table cs st)).eval := by
  induction cs generalizing st t with
  | nil => exact .refl
  | cons c rest ih =>
      obtain ⟨first, u, foundAfter, rows⟩ := addConstraint_checks c found
      have own : ChecksRows ev committed t.rows
          (fun condition => ∃ d ∈ c :: rest, d.kind = .check condition) st.eval
          (DdlResult.state (addConstraint ev committed table c st)).eval :=
        first.mono fun condition isCheck => ⟨c, List.mem_cons_self, isCheck⟩
      unfold addConstraints
      split
      · next middle equal =>
          rw [equal] at own foundAfter
          have later := ih foundAfter
          rw [rows] at later
          refine own.trans (later.mono ?_)
          rintro condition ⟨d, member, isCheck⟩
          exact ⟨d, List.mem_cons_of_mem _ member, isCheck⟩
      · next middle equal =>
          rw [equal] at own
          exact own

/-- Enabling a CHECK evaluates its condition; disabling a constraint evaluates nothing. -/
theorem setTableConstraint_checks {name : Option String} {enabled validate cascade : Bool}
    {st : DdlState} (found : st.cat.table table = some t) :
    ChecksRows ev committed t.rows (fun condition => enabled = true ∧ ∃ i k,
        findConstraint t name = some i ∧ t.constraints[i]? = some k ∧ k.kind = .check condition)
      st.eval (DdlResult.state
        (setTableConstraint ev committed table t name enabled validate cascade st)).eval := by
  unfold setTableConstraint
  simp only
  split
  · exact .refl
  next i position =>
  split
  · exact .refl
  split
  · exact .refl
  next v foundAfter =>
  split
  · exact .refl
  next u changed =>
  split
  · next asked =>
      -- Only enabling validates, and then no foreign key has been disabled on the way.
      obtain rfl : enabled = true := by
        cases enabled with
        | true => rfl
        | false => simp at asked
      simp only [orphans, if_true, disableForeignKeys, List.foldl_nil, found,
        Option.some.injEq] at foundAfter
      subst foundAfter
      rw [DdlState.validate_eval]
      obtain ⟨k, here, -⟩ := findConstraint_some position
      obtain ⟨k', rfl, -, outline, -⟩ := Table.setEnabled_ok here changed
      have enabledTable := Catalog.table_setTable_self st.cat table
        { t with constraints := t.constraints.set i k' }
      have after : (t.constraints.set i k')[i]? = some k' := by
        rw [List.getElem?_set_self (List.getElem?_eq_some_iff.mp here).1]
      refine (validateConstraint_checks enabledTable after _).mono ?_
      intro condition isCheck
      exact ⟨rfl, i, k, position, here, Constraint.kind_of_outline outline isCheck⟩
  · exact .refl

end Checks

/-! ## Statements -/

/-- The CHECK conditions that an ALTER TABLE validates: those that it adds, or that of the
constraint that it enables. -/
def AlterTableAction.Conditions (action : AlterTableAction) (t : Table) (condition : Expr) : Prop :=
  match action with
  | .addConstraints cs => ∃ c ∈ cs, c.kind = .check condition
  | .setConstraint name enabled _ _ => enabled = true ∧ ∃ i k,
      findConstraint t name = some i ∧ t.constraints[i]? = some k ∧ k.kind = .check condition
  | .dropConstraint _ _ => False

/-- What a DDL statement evaluates: the query of CREATE TABLE AS SELECT, once; the conditions that
an ALTER TABLE validates, for rows of its table; nothing otherwise. -/
def Statement.Evaluates (ev : Evaluator) (binds : List Value) (w : World) (stmt : Statement)
    (st : EvalState) : Prop :=
  match stmt with
  | .createTable ct =>
      match ct.asQuery with
      | none => st = w.evalState
      | some q =>
          st = stateAfter (ev.query ⟨w.db.state, binds, w.db.state, none⟩ q none w.evalState)
  | .alterTable name action =>
      match w.db.state.table name with
      | none => st = w.evalState
      | some t => ChecksRows ev w.db.state t.rows (action.Conditions t) w.evalState st
  | _ => st = w.evalState

namespace World

variable {ev : Evaluator} {binds : List Value} {w w' : World} {e : OraError}

/-- The constraints of a new table meet no rows, so that none of their conditions is evaluated. -/
theorem createTableFrom_eval (ct : CreateTable) (rel : Option Relation)
    (failed : w.createTableFrom ev ct rel = (.error e, w')) : w'.evalState = w.evalState := by
  have checks := (@addConstraints_checks ev w.db.state ct.name _ (w.declared ct)
    (w.createStart ct (newColumns ct rel)) (Catalog.table_setTable_self _ _ _)).of_empty
  unfold createTableFrom at failed
  dsimp only at failed
  split at failed
  · cases failed
    rfl
  split at failed
  · cases failed
    rfl
  split at failed
  · next st equal =>
      rw [declared, createStart, equal] at checks
      cases failed
      exact checks
  next st equal =>
  rw [declared, createStart, equal] at checks
  split at failed
  · cases failed
  split at failed
  · cases failed
    exact checks
  · cases failed

theorem createTable_failed (ct : CreateTable)
    (failed : w.createTable ev binds ct = (.error e, w')) :
    w'.db.state = w.db.state ∧ (Statement.createTable ct).Evaluates ev binds w w'.evalState := by
  unfold createTable createQuery at failed
  simp only [Statement.Evaluates]
  cases asQuery : ct.asQuery with
  | none =>
      simp only [asQuery] at failed
      have same := @createTableFrom_error ev ct (w.setEval w.evalState) none e (by rw [failed])
      rw [failed] at same
      exact ⟨same, createTableFrom_eval ct none failed⟩
  | some q =>
      simp only [asQuery] at failed ⊢
      cases evaluated : ev.query ⟨w.db.state, binds, w.db.state, none⟩ q none w.evalState with
      | error e' eval =>
          simp only [evaluated] at failed
          cases failed
          exact ⟨rfl, rfl⟩
      | ok rel eval =>
          simp only [evaluated] at failed
          have same := @createTableFrom_error ev ct (w.setEval eval) (some rel) e (by rw [failed])
          rw [failed] at same
          exact ⟨same, createTableFrom_eval ct (some rel) failed⟩

/-- ALTER TABLE works on a copy, which is dropped when it fails. -/
theorem alter_failed (name : String) (action : AlterTableAction)
    (failed : w.alter ev name action = (.error e, w')) :
    w'.db.state = w.db.state ∧
      (Statement.alterTable name action).Evaluates ev binds w w'.evalState := by
  unfold alter at failed
  unfold Statement.Evaluates
  split at failed
  · next st equal =>
      cases failed
      refine ⟨rfl, ?_⟩
      have after : (w.setDdl st).evalState = (DdlResult.state (alterTable ev w.db.state name action
          ⟨w.evalState, w.db.nextConstraint, w.db.state⟩)).eval := by
        rw [equal]
        rfl
      rw [after]
      unfold alterTable
      cases found : w.db.state.table name with
      | none =>
          simp only [found]
          rfl
      | some t =>
          have start : (DdlState.mk w.evalState w.db.nextConstraint w.db.state).cat.table name =
            some t := found
          simp only [found]
          cases action with
          | addConstraints cs => exact addConstraints_checks start
          | dropConstraint dropped cascade =>
              dsimp only
              unfold dropTableConstraint
              split
              · exact .refl
              · dsimp only
                split <;> exact .refl
          | setConstraint changed enabled validate cascade => exact setTableConstraint_checks start
  · cases failed

/-- A unique index that cannot be built leaves its table as it was. -/
theorem createIndex_failed (name table : String) (columns : List String) (unique : Bool)
    (failed : w.createIndex name table columns unique = (.error e, w')) :
    w'.db.state = w.db.state ∧ w'.evalState = w.evalState := by
  unfold createIndex at failed
  dsimp only at failed
  split at failed
  · cases failed
    exact ⟨rfl, rfl⟩
  split at failed
  · cases failed
    exact ⟨rfl, rfl⟩
  next t found =>
  split at failed
  · cases failed
    exact ⟨rfl, rfl⟩
  split at failed
  · split at failed
    · next u refused =>
        cases failed
        refine ⟨?_, rfl⟩
        unfold Table.addUnique at refused
        split at refused
        · cases refused
          exact Catalog.setTable_self found
        · cases refused
    · cases failed
  · cases failed

/-- A DDL statement that fails leaves the committed catalog as it was. The counters are left as
its evaluations leave them: those of the query of CREATE TABLE AS SELECT, and of the conditions
that ALTER TABLE validates. -/
theorem failed_ddl (stmt : Statement) (failed : w.ddl ev binds stmt = (.error e, w')) :
    w'.db.state = w.db.state ∧ stmt.Evaluates ev binds w w'.evalState := by
  unfold ddl at failed
  split at failed
  case h_1 ct => exact createTable_failed ct failed
  case h_4 name table columns unique => exact createIndex_failed name table columns unique failed
  case h_6 name action => exact alter_failed name action failed
  case h_13 => cases failed
  -- The others look at everything they need before they change anything.
  all_goals
    simp only [dropTable, truncate, dropIndex, createSequence, alterSequence, dropSequence,
      createRoutine, dropRoutine, partitionMaintenance] at failed
    repeat' split at failed
    all_goals cases failed
    all_goals exact ⟨rfl, rfl⟩

end World

namespace FailedDdl

open CreateAs

/-- A database with a sequence. -/
def counted : World := (start.ddl evaluator [] (.createSequence "S" [])).2

/-- `CREATE TABLE s AS SELECT s.NEXTVAL x FROM dual`. -/
def taken : CreateTable where
  name := "S"
  columns := []
  constraints := []
  asQuery := some (.mk (.select
    (.mk false [.expr (.sequence "S" true) "X"] [.mk (.table "DUAL" none) []] none [] none)) [] none none)

/-- `CREATE TABLE t (x NUMBER, CONSTRAINT t_x UNIQUE (x), CONSTRAINT t_y UNIQUE (y))`. -/
def halfway : CreateTable where
  name := "T"
  columns := [⟨"X", .number 0 0, none, false, false⟩]
  constraints := [⟨some "T_X", .unique ["X"], true, true⟩, ⟨some "T_Y", .unique ["Y"], true, true⟩]
  asQuery := none

/-- The error of a statement, and where it leaves the counter of the sequence. -/
def outcome (stmt : Statement) : Option OraError × Option Int :=
  match counted.ddl evaluator [] stmt with
  | (.error e, w') => (some e, w'.db.sequences["S"]?)
  | (.ok _, w') => (none, w'.db.sequences["S"]?)

end FailedDdl

open FailedDdl CreateAs in
/-- The name is taken by the sequence, which has been drawn from when that is found out. -/
theorem failed_ddl_draws : ¬ ∀ (w w' : World) (stmt : Statement) (e : OraError),
    w.ddl evaluator [] stmt = (.error e, w') →
      w'.db.state = w.db.state ∧ w'.db.sequences = w.db.sequences ∧
        w'.db.identities = w.db.identities := by
  intro claim
  have result : outcome (.createTable taken) = (some nameAlreadyUsed, some 2) := by decide +kernel
  have before : counted.db.sequences["S"]? = none := by decide +kernel
  unfold outcome at result
  split at result
  · next e w' failed =>
      obtain ⟨-, sequences, -⟩ := claim _ _ _ _ failed
      rw [sequences, before] at result
      cases result
  · cases result

open FailedDdl CreateAs in
/-- The second constraint is refused when the first has been added to the new table. -/
theorem failed_ddl_halfway : ∃ e w', counted.ddl evaluator [] (.createTable halfway) = (.error e, w') ∧
    w'.db.state = counted.db.state ∧ w'.evalState = counted.evalState := by
  have result : outcome (.createTable halfway) = (some (.invalidIdentifier "\"Y\""), none) := by
    decide +kernel
  unfold outcome at result
  split at result
  · next e w' failed =>
      obtain ⟨state, counters⟩ := World.failed_ddl (.createTable halfway) failed
      exact ⟨e, w', failed, state, counters⟩
  · cases result

end MockOracle
