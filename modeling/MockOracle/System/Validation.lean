import MockOracle.Eval.Literal
import MockOracle.Session.Validation
import MockOracle.System.System

/-!
# Validated constraints

ALTER TABLE adds a constraint, or enables one, and validates it against the rows already there.
Enabling skips the validation when the constraint is enabled already, although a constraint may
have been enabled without it.
-/

namespace MockOracle

open Std Semantics

namespace AlterTableAction

/-- The action is to validate the constraint that it leaves at position `i`: it adds it there,
enabled and not NOVALIDATE, or enables it with validation. -/
def Validates (action : AlterTableAction) (t : Table) (i : Nat) : Prop :=
  match action with
  | .addConstraints cs => ∃ j c, i = t.constraints.length + j ∧ cs[j]? = some c ∧
      c.enabled = true ∧ c.validate = true
  | .setConstraint name enabled validate _ =>
      findConstraint t name = some i ∧ enabled = true ∧ validate = true
  | .dropConstraint _ _ => False

/-- The constraint that the action is about: the one declared at that place of its list, or the
one that stood at the position, but for its index and state. -/
def Concerns (action : AlterTableAction) (t : Table) (i : Nat) (k : Constraint) : Prop :=
  match action with
  | .addConstraints cs => ∃ c, cs[i - t.constraints.length]? = some c ∧ c.Describes k
  | .setConstraint _ _ _ _ => ∃ old, t.constraints[i]? = some old ∧ k.outline = old.outline
  | .dropConstraint _ _ => False

/-- The CHECK conditions that the action may evaluate. -/
def Tests (action : AlterTableAction) (t : Table) (condition : Expr) : Prop :=
  (∃ k ∈ t.constraints, k.kind = .check condition) ∨
    ∃ cs, action = .addConstraints cs ∧ ∃ c ∈ cs, c.kind = .check condition

end AlterTableAction

theorem Constraint.kind_of_outline {k old : Constraint} (same : k.outline = old.outline)
    {condition : Expr} (isCheck : k.kind = .check condition) : old.kind = .check condition := by
  obtain ⟨name, kind, isIndex, enabled⟩ := k
  obtain ⟨name', kind', isIndex', enabled'⟩ := old
  cases isCheck
  cases kind' <;> simp_all [Constraint.outline, Constraint.shape, Constraint.mapIndex]

theorem Constraint.uniqueColumns_of_outline {k old : Constraint} (same : k.outline = old.outline) :
    k.uniqueColumns = old.uniqueColumns := by
  have through : ∀ c : Constraint, c.outline.uniqueColumns = c.uniqueColumns := by
    intro c
    obtain ⟨name, kind, isIndex, enabled⟩ := c
    cases kind <;> rfl
  rw [← through k, ← through old, same]

section Validated

variable {ev : Evaluator} {committed : Catalog} {table : String} {st st' : DdlState} {t : Table}
  {truth : Expr → Row → Option Bool} {i : Nat}

/-- The rows satisfy a constraint that has just been added and validated, if lookups are right. -/
theorem added_constraint_iff {cs : List TableConstraint} {j : Nat} {c : TableConstraint}
    (found : st.cat.table table = some t) (declared : cs[j]? = some c) (enabled : c.enabled = true)
    (validate : c.validate = true)
    (decides : ∀ c ∈ cs, ∀ condition, c.kind = .check condition →
      ev.Decides st.eval.env (tableScopeCols t t.name) condition (truth condition))
    (success : addConstraints ev committed table cs st = .ok () st') :
    ∃ t' k, st'.cat.table table = some t' ∧ t'.constraints[t.constraints.length + j]? = some k ∧
      c.Describes k ∧ k.enabled = true ∧
        (k.Satisfied truth st'.cat t' ↔ k.LookupsRight st.cat t) := by
  obtain ⟨ks, final, view, passed⟩ := addConstraints_passes found decides rfl success
  have inRange : j < ks.length := by
    rw [← passed.length_eq]
    exact (List.getElem?_eq_some_iff.mp declared).1
  have passes := passed.get (List.getElem?_eq_some_iff.mp declared).1 inRange
  rw [List.get_eq_getElem, (List.getElem?_eq_some_iff.mp declared).2, List.get_eq_getElem] at passes
  obtain ⟨describes, sameState, asked⟩ := passes
  obtain ⟨distinct, checked⟩ := asked enabled
  refine ⟨_, ks[j], final, ?_, describes, sameState.trans enabled, ?_⟩
  · rw [List.getElem?_append_right (Nat.le_add_right _ _), Nat.add_sub_cancel_left]
    exact List.getElem?_eq_getElem inRange
  · rw [Constraint.satisfied_iff_of_rows (Catalog.rowsOf_of_view view) rfl]
    exact Constraint.satisfied_iff_lookupsRight (checked validate) distinct

/-- The rows satisfy a constraint that has just been enabled, if they did before or it was
disabled and lookups are right. -/
theorem enabled_constraint_iff {name : Option String} {cascade : Bool}
    (found : st.cat.table table = some t) (position : findConstraint t name = some i)
    {old : Constraint} (here : t.constraints[i]? = some old)
    (decides : ∀ condition, old.kind = .check condition →
      ev.Decides st.eval.env (tableScopeCols t t.name) condition (truth condition))
    (success : setTableConstraint ev committed table t name true true cascade st = .ok () st') :
    ∃ t' k, st'.cat.table table = some t' ∧ t'.constraints[i]? = some k ∧
      k.outline = old.outline ∧ k.enabled = true ∧
        (k.Satisfied truth st'.cat t' ↔
          if old.enabled then k.Satisfied truth st.cat t else k.LookupsRight st.cat t) := by
  obtain ⟨u, enabled, cat, validated⟩ := setTableConstraint_ok found position here success
  obtain ⟨k, rfl, isEnabled, outline, built⟩ := Table.setEnabled_ok here enabled
  have foundAfter : st'.cat.table table = some { t with constraints := t.constraints.set i k } := by
    rw [cat, Catalog.table_setTable_self]
  have hereAfter : (t.constraints.set i k)[i]? = some k := by
    simp [(List.getElem?_eq_some_iff.mp here).1]
  have rows : st'.cat.rowsOf = st.cat.rowsOf := by
    rw [cat]
    exact Catalog.rowsOf_setTable found rfl
  refine ⟨_, k, foundAfter, hereAfter, outline, isEnabled, ?_⟩
  cases wasEnabled : old.enabled with
  | true => exact Constraint.satisfied_iff_of_rows rows rfl
  | false =>
      have distinct : k.KeysDistinct { t with constraints := t.constraints.set i k } :=
        fun columns unique => @Table.distinct_of_buildIndex t columns k.index (built columns unique)
      obtain ⟨checked, -⟩ := validateConstraint_ok foundAfter hereAfter
        (fun condition isCheck => decides condition (Constraint.kind_of_outline outline isCheck))
        rfl (validated rfl wasEnabled)
      rw [Constraint.satisfied_iff_lookupsRight checked distinct, if_neg Bool.false_ne_true]
      cases unique : k.uniqueColumns with
      | some columns =>
          obtain ⟨label, kind, isIndex, on⟩ := k
          cases kind with
          | unique own primary index => exact Iff.rfl
          | check condition => cases unique
          | foreignKey own parent parentColumns onDelete => cases unique
          | index => cases unique
      | none =>
          have view : st'.cat.view = st.cat.view := by
            rw [cat]
            exact Catalog.view_setTable found (Table.view_set here
              ((Constraint.uniqueColumns_of_outline outline).symm.trans unique) unique)
          exact ⟨fun right => right.transfer view.symm rfl, fun right => right.transfer view rfl⟩

/-- When ALTER TABLE succeeds, the rows satisfy a constraint that it was to validate exactly if
they did before, should it have been enabled already, and otherwise exactly if every foreign key
value that the parent reports is held by a parent row. -/
theorem validated_constraint_iff {action : AlterTableAction}
    (found : st.cat.table table = some t) (validates : action.Validates t i)
    (decides : ∀ condition, action.Tests t condition →
      ev.Decides st.eval.env (tableScopeCols t t.name) condition (truth condition))
    (altered : alterTable ev committed table action st = .ok () st') :
    ∃ t' k, st'.cat.table table = some t' ∧ t'.constraints[i]? = some k ∧
      action.Concerns t i k ∧ k.enabled = true ∧
        (k.Satisfied truth st'.cat t' ↔
          if (t.constraints[i]?).any (·.enabled) then k.Satisfied truth st.cat t
          else k.LookupsRight st.cat t) := by
  unfold alterTable at altered
  simp only [found] at altered
  cases action with
  | addConstraints cs =>
      obtain ⟨j, c, rfl, declared, enabled, validate⟩ := validates
      obtain ⟨t', k, foundAfter, here, describes, isEnabled, satisfied⟩ :=
        added_constraint_iff found declared enabled validate
          (fun c member condition written => decides condition (Or.inr ⟨cs, rfl, c, member, written⟩))
          altered
      refine ⟨t', k, foundAfter, here, ⟨c, ?_, describes⟩, isEnabled, ?_⟩
      · rw [Nat.add_sub_cancel_left]
        exact declared
      · rw [satisfied, List.getElem?_eq_none (Nat.le_add_right _ _)]
        exact Iff.rfl
  | dropConstraint name cascade => exact validates.elim
  | setConstraint name enabled validate cascade =>
      obtain ⟨position, rfl, rfl⟩ := validates
      have inRange := (List.findIdx?_eq_some_iff_getElem.mp position).1
      have here := List.getElem?_eq_getElem inRange
      obtain ⟨t', k, foundAfter, hereAfter, outline, isEnabled, satisfied⟩ :=
        enabled_constraint_iff found position here
          (fun condition written =>
            decides condition (Or.inl ⟨_, List.getElem_mem inRange, written⟩))
          altered
      refine ⟨t', k, foundAfter, hereAfter, ⟨_, here, outline⟩, isEnabled, ?_⟩
      rw [satisfied, here, Option.any_some]

end Validated

/-- A row for which a CHECK condition is FALSE. -/
theorem Constraint.not_satisfied_of_refused {truth : Expr → Row → Option Bool} {cat : Catalog}
    {t : Table} {k : Constraint}
    (refused : (match k.kind with
      | .check condition => t.rows.toList.any fun row => truth condition row.2 == some false
      | _ => false) = true) : ¬ k.Satisfied truth cat t := by
  obtain ⟨name, kind, isIndex, enabled⟩ := k
  cases kind with
  | check condition =>
      obtain ⟨⟨id, row⟩, member, isFalse⟩ := List.any_eq_true.mp refused
      intro satisfied
      exact satisfied id row (ExtTreeMap.mem_toList_iff_getElem?_eq_some.mp member)
        (eq_of_beq isFalse)
  | unique columns primary index => cases refused
  | foreignKey columns parent parentColumns onDelete => cases refused
  | index => cases refused

namespace Literal

/-- The value of a condition for a row; an error counts as UNKNOWN. -/
def truth (cols : List RelCol) (e : Expr) (row : Row) : Option Bool :=
  match condition [] (.row cols row none) e with
  | .ok value => value
  | .error _ => none

theorem decides (env : Env) (cols : List RelCol) (e : Expr) :
    literalEvaluator.Decides env cols e (truth cols e) := by
  intro cat committed row st st' value settings evaluated
  unfold truth
  simp only [literalEvaluator, pureEval] at evaluated
  split at evaluated
  · next equal =>
      cases evaluated
      exact ⟨by rw [equal], settings⟩
  · cases evaluated

end Literal

namespace System

/-- A row that violates a CHECK, which was added ENABLE NOVALIDATE. -/
def unvalidated : System :=
  (new fun _ => Literal.env "SCOTT").runAll literalEvaluator
    [.sql 0 (Literal.createTable "T" ["A"] []), .sql 0 (Literal.insert "T" [.ofInt 1]),
      .commit 0,
      .sql 0 (.alterTable "T" (.addConstraints
        [⟨some "CK", .check (.isNull (.column none "A") false), true, false⟩]))]

/-- ALTER TABLE starts from the committed catalog. -/
def unvalidatedStart : DdlState :=
  ⟨(unvalidated.world 0).evalState, unvalidated.db.nextConstraint, unvalidated.db.state⟩

def unvalidatedCols : List RelCol := [⟨some "T", "A", .number 0 0⟩]

theorem unvalidated_setConstraint :
    (unvalidated.db.state.table "T").map (fun t => findConstraint t (some "CK")) = some (some 0) ∧
    (match alterTable literalEvaluator unvalidated.db.state "T"
      (.setConstraint (some "CK") true true false) unvalidatedStart with
    | .ok _ st => (st.cat.table "T").any fun t => (t.constraints[0]?).any fun k =>
        match k.kind with
        | .check condition => t.rows.toList.any fun row =>
            Literal.truth unvalidatedCols condition row.2 == some false
        | _ => false
    | .error _ _ => false) = true := by
  decide +kernel

/-- ENABLE VALIDATE CONSTRAINT succeeds although the condition is FALSE for the row. -/
theorem validated_constraint_violated :
    ∃ t t' k st', unvalidated.db.state.table "T" = some t ∧
      (AlterTableAction.setConstraint (some "CK") true true false).Validates t 0 ∧
      alterTable literalEvaluator unvalidated.db.state "T" (.setConstraint (some "CK") true true false)
        unvalidatedStart = .ok () st' ∧
      st'.cat.table "T" = some t' ∧ t'.constraints[0]? = some k ∧
      ¬ k.Satisfied (Literal.truth unvalidatedCols) st'.cat t' := by
  obtain ⟨position, result⟩ := unvalidated_setConstraint
  obtain ⟨t, found, position⟩ := Option.map_eq_some_iff.mp position
  split at result
  · next st' success =>
      obtain ⟨t', foundAfter, result⟩ := (Option.any_eq_true _ _).mp result
      obtain ⟨k, here, refused⟩ := (Option.any_eq_true _ _).mp result
      exact ⟨t, t', k, st', found, ⟨position, rfl, rfl⟩, success, foundAfter, here,
        Constraint.not_satisfied_of_refused refused⟩
  · cases result

/-- A CHECK that the row meets. -/
def addCheck : AlterTableAction :=
  .addConstraints [⟨some "CK2", .check (.isNull (.column none "A") true), true, true⟩]

theorem unvalidated_addCheck :
    (unvalidated.db.state.table "T").map (fun t =>
      (t.constraints.length, t.name, t.columns.map fun c => (c.name, c.sqlType))) =
        some (1, "T", [("A", .number 0 0)]) ∧
    (match alterTable literalEvaluator unvalidated.db.state "T" addCheck
      unvalidatedStart with
    | .ok _ _ => true
    | .error _ _ => false) = true := by
  decide +kernel

/-- ADD CONSTRAINT with a CHECK that the row meets validates it. -/
theorem validated_constraint_iff_added :
    ∃ t' k st', alterTable literalEvaluator unvalidated.db.state "T" addCheck unvalidatedStart =
        .ok () st' ∧
      st'.cat.table "T" = some t' ∧ t'.constraints[1]? = some k ∧ k.name = "CK2" ∧
      k.Satisfied (Literal.truth unvalidatedCols) st'.cat t' := by
  obtain ⟨shape, result⟩ := unvalidated_addCheck
  obtain ⟨t, found, shape⟩ := Option.map_eq_some_iff.mp shape
  simp only [Prod.mk.injEq] at shape
  obtain ⟨one, name, columns⟩ := shape
  have cols : tableScopeCols t t.name = unvalidatedCols := by
    have through : tableScopeCols t t.name = (t.columns.map fun c => (c.name, c.sqlType)).map
        fun c => ⟨some t.name, c.1, c.2⟩ := by simp [tableScopeCols]
    rw [through, columns, name]
    rfl
  split at result
  · next st' success =>
      obtain ⟨t', k, foundAfter, here, ⟨c, declared, describes⟩, -, satisfied⟩ :=
        @validated_constraint_iff literalEvaluator unvalidated.db.state "T" unvalidatedStart st' t
          (Literal.truth unvalidatedCols) 1 addCheck found ⟨0, _, by rw [one], rfl, rfl, rfl⟩
          (fun condition _ => cols ▸ Literal.decides _ _ condition) success
      rw [one] at declared
      cases declared
      refine ⟨t', k, st', success, foundAfter, here, describes.1 _ rfl, satisfied.mpr ?_⟩
      rw [List.getElem?_eq_none (by rw [one])]
      obtain ⟨label, kind, isIndex, enabled⟩ := k
      have isCheck := describes.2
      cases isCheck
      exact trivial
  · cases result

end System

end MockOracle
