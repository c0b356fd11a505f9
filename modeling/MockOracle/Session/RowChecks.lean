import MockOracle.Session.Atomic

/-!
# Row constraints after a statement

INSERT and UPDATE check every row they write. An ON DELETE SET NULL cascade does not: it refuses
to set a column to NULL that may not be, and evaluates no CHECK condition. So the rows that a
DELETE leaves changed meet the row constraints exactly if they do once the columns are NULL.
-/

namespace MockOracle

open Std Semantics

/-! ## The row constraints -/

/-- A CHECK condition over some columns is a function of the row alone. -/
def Evaluator.OfRow (ev : Evaluator) (cols : List RelCol) (condition : Expr)
    (truth : Row → Option Bool) : Prop :=
  ∀ (ex : Ex) (row : Row) (st st' : EvalState) (value : Option Bool),
    ev.evalBool ex condition (.row cols row none) st = .ok value st' → value = truth row

/-- The value of conditions over columns for rows. -/
abbrev Truth := List RelCol → Expr → Row → Option Bool

namespace Table

/-- A row has no NULL where the table does not allow one, and makes no enabled CHECK FALSE. -/
structure RowOk (truth : Truth) (t : Table) (row : Row) : Prop where
  filled : ∀ i < t.columns.length, t.required i = true → (cell row i).isNull = false
  checks : ∀ k ∈ t.constraints, k.enabled = true → ∀ condition, k.kind = .check condition →
    truth (tableScopeCols t t.name) condition row ≠ some false

variable {t u : Table}

theorem primaryColumns_shape (c : Constraint) : c.shape.primaryColumns = c.primaryColumns := by
  obtain ⟨name, kind, isIndex, enabled⟩ := c
  cases kind with
  | unique columns primary index => cases primary <;> rfl
  | check condition => rfl
  | foreignKey columns parent parentColumns onDelete => rfl
  | index => rfl

theorem primaryKey_of_schema (same : u.schema = t.schema) : u.primaryKey = t.primaryKey := by
  have through : ∀ w : Table, w.primaryKey =
      ((w.constraints.map Constraint.shape).findSome? (·.primaryColumns)).getD [] := by
    intro w
    simp only [primaryKey, List.findSome?_map, Function.comp_def, primaryColumns_shape]
  rw [through u, through t, shapes_of_schema same]

theorem required_of_schema (same : u.schema = t.schema) (i : Nat) : u.required i = t.required i := by
  rw [required, required, columns_of_schema same, primaryKey_of_schema same]

theorem RowOk.of_schema {truth : Truth} {row : Row} (ok : t.RowOk truth row)
    (same : u.schema = t.schema) : u.RowOk truth row where
  filled i inRange needed := by
    rw [columns_of_schema same] at inRange
    rw [required_of_schema same] at needed
    exact ok.filled i inRange needed
  checks k member enabled condition isCheck := by
    have cols : tableScopeCols u u.name = tableScopeCols t t.name := by
      rw [tableScopeCols, tableScopeCols, columns_of_schema same, name_of_schema same]
    have shapes : k.shape ∈ t.constraints.map Constraint.shape := by
      rw [← shapes_of_schema same]
      exact List.mem_map_of_mem member
    obtain ⟨l, memberL, shape⟩ := List.mem_map.mp shapes
    obtain ⟨name, kind, isIndex, on⟩ := k
    obtain ⟨name', kind', isIndex', on'⟩ := l
    cases isCheck
    rw [cols]
    cases kind' with
    | check condition' =>
        cases shape
        exact ok.checks _ memberL enabled condition rfl
    | unique columns primary index => cases shape
    | foreignKey columns parent parentColumns onDelete => cases shape
    | index => cases shape

theorem filled_of_missingColumn {row : Row} (width : row.length = t.columns.length)
    (none_ : t.missingColumn row = none) :
    ∀ i < t.columns.length, t.required i = true → (cell row i).isNull = false := by
  intro i inRange needed
  have inRow : i < row.length := width ▸ inRange
  have inZip : i < (t.columns.zip row).length := by
    rw [List.length_zip]
    omega
  rw [missingColumn, Option.map_eq_none_iff, List.find?_eq_none] at none_
  have member : ((t.columns.zip row)[i], i) ∈ (t.columns.zip row).zipIdx := by
    rw [List.mem_zipIdx_iff_getElem?]
    exact List.getElem?_eq_getElem inZip
  have free := none_ _ member
  rw [List.getElem_zip] at free
  simp only [needed, Bool.true_and, Bool.not_eq_true] at free
  rw [cell, List.getD_eq_getElem _ _ inRow]
  exact free

end Table

/-! ## Rows that were checked -/

section Checked

variable {ev : Evaluator} {ex : Ex} {t : Table} {row : Row} {truth : Truth}

/-- The enabled CHECK conditions of a table are functions of the row, with the given values. -/
def Table.Decided (ev : Evaluator) (truth : Truth) (t : Table) : Prop :=
  ∀ k ∈ t.constraints, k.enabled = true → ∀ condition, k.kind = .check condition →
    ev.OfRow (tableScopeCols t t.name) condition (truth (tableScopeCols t t.name) condition)

theorem checkConditions_ok {user : String} {cs : List Constraint} {st st' : EvalState}
    (decided : ∀ k ∈ cs, k.enabled = true → ∀ condition, k.kind = .check condition →
      ev.OfRow (tableScopeCols t t.name) condition (truth (tableScopeCols t t.name) condition))
    (success : checkConditions ev ex user t row cs st = .ok () st') :
    ∀ k ∈ cs, k.enabled = true → ∀ condition, k.kind = .check condition →
      truth (tableScopeCols t t.name) condition row ≠ some false := by
  induction cs generalizing st with
  | nil => simp
  | cons c rest ih =>
      have later : ∀ k ∈ rest, k.enabled = true → ∀ condition, k.kind = .check condition →
          ev.OfRow (tableScopeCols t t.name) condition
            (truth (tableScopeCols t t.name) condition) :=
        fun k member => decided k (List.mem_cons_of_mem _ member)
      rw [List.forall_mem_cons]
      obtain ⟨name, kind, isIndex, enabled⟩ := c
      by_cases tested : ∃ condition, enabled = true ∧ kind = .check condition
      · obtain ⟨condition, rfl, rfl⟩ := tested
        obtain ⟨value, middle, evaluated, success⟩ := bind_ok success
        have known := decided _ List.mem_cons_self rfl condition rfl _ _ _ _ _ evaluated
        split at success
        · obtain ⟨_, _, thrown, _⟩ := bind_ok success
          cases thrown
        · next notFalse =>
            refine ⟨fun _ condition' isCheck => ?_, ih later success⟩
            cases isCheck
            exact known ▸ notFalse
      · have skipped : checkConditions ev ex user t row (⟨name, kind, isIndex, enabled⟩ :: rest) =
            checkConditions ev ex user t row rest := by
          cases enabled <;> cases kind <;> first | rfl | simp at tested
        rw [skipped] at success
        refine ⟨fun isEnabled condition isCheck => ?_, ih later success⟩
        exact (tested ⟨condition, isEnabled, isCheck⟩).elim

/-- A row that passed the checks of its table meets its row constraints. -/
theorem Passes.rowOk (passes : Passes ev ex t row) (width : row.length = t.columns.length)
    (decided : t.Decided ev truth) : t.RowOk truth row := by
  obtain ⟨updating, before, after, success⟩ := passes
  obtain ⟨current, middle, got, success⟩ := bind_ok success
  split at success
  · cases success
  · next none_ =>
      exact ⟨t.filled_of_missingColumn width none_, checkConditions_ok decided success⟩

end Checked

/-! ## Statements -/

section Statements

variable {ctx : Dml} {st st' : DmlState} {stmt : DmlStatement} {truth : Truth}

/-- A statement that succeeds has been enforced. -/
theorem run_ok {r : Nat × List Row} (success : ctx.run stmt st = .ok r st') :
    ∃ after, ctx.statement stmt st = .ok r after ∧
      enforceForeignKeys after.eval.env.user st.txn.log.length after.txn = (.ok (), st'.txn) := by
  unfold Dml.run at success
  cases outcome : ctx.statement stmt st with
  | error e after =>
      rw [outcome] at success
      cases success
  | ok r' after =>
      rw [outcome] at success
      simp only at success
      split at success
      · next txn equal =>
          cases success
          exact ⟨after, rfl, equal⟩
      · cases success

/-- The rows that INSERT and UPDATE evaluate to meet the row constraints. -/
theorem Dml.Writes.rowOk (sound : st.txn.work.Sound st.nextRowId) {table : String} {row : Row}
    (decided : ∀ name t, st.txn.work.table name = some t → t.Decided ctx.ev truth)
    (writes : ctx.Writes stmt st table row) :
    ∃ t, st.txn.work.table table = some t ∧ t.RowOk truth row := by
  cases stmt with
  | insert ins =>
      obtain ⟨rfl, t, rows, returned, eval, found, evaluated, member⟩ := writes
      obtain ⟨width, passes⟩ := evalInsert_ok evaluated row member
      exact ⟨t, found, passes.rowOk width (decided _ t found)⟩
  | update upd =>
      obtain ⟨rfl, t, changes, returned, eval, found, evaluated, r, member, rfl⟩ := writes
      obtain ⟨stored, width, passes⟩ := (evalUpdate_ok evaluated).2 r member
      refine ⟨t, found, passes.rowOk ?_ (decided _ t found)⟩
      rw [width]
      exact (sound _ t found).width stored
  | delete del => exact writes.elim

end Statements

end MockOracle
