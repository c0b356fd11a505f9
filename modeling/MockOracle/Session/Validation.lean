import MockOracle.Catalog.Satisfied
import MockOracle.Session.DdlFormed

/-!
# What validation establishes

Adding a constraint builds its index or validates it, and enabling one rebuilds its index and,
if it was disabled, validates it. Both change the constraints of one table and no row, and no
lookup of a foreign key is answered differently after a constraint has been added.
-/

namespace MockOracle

open Std Semantics

/-- In an environment, a CHECK condition over some columns has the value that `truth` gives for
a row, whatever the catalog holds, and evaluating it leaves the environment alone. -/
def Evaluator.Decides (ev : Evaluator) (env : Env) (cols : List RelCol) (condition : Expr)
    (truth : Row → Option Bool) : Prop :=
  ∀ (cat committed : Catalog) (row : Row) (st st' : EvalState) (value : Option Bool),
    st.env = env →
      ev.evalBool ⟨cat, [], committed, none⟩ condition (.row cols row none) st = .ok value st' →
        value = truth row ∧ st'.env = env

/-! ## What validation sees of a catalog -/

/-- What validation reads of a table. -/
structure TableView where
  name : String
  columns : List TableColumn
  rows : Rows
  hasKey : List Nat → String → Bool

/-- What the validation of a constraint reads of a table. -/
def Table.view (t : Table) : TableView := ⟨t.name, t.columns, t.rows, t.hasKey⟩

/-- The view of the table under a name. -/
def Catalog.view (cat : Catalog) (name : String) : Option TableView :=
  (cat.table name).map Table.view

/-- The rows of a table. -/
def Catalog.rowsOf (cat : Catalog) (name : String) : Option Rows :=
  (cat.table name).map (·.rows)

namespace Catalog

variable {cat cat' : Catalog} {name : String} {t u : Table}

/-- Storing a table with the same view keeps every view of the catalog. -/
theorem view_setTable (found : cat.table name = some t) (same : u.view = t.view) :
    (cat.setTable name u).view = cat.view := by
  funext other
  rw [view, table_setTable]
  split
  · next equal => rw [view, ← equal, found, Option.map_some, same, Option.map_some]
  · rfl

/-- Storing a table with the same rows keeps the rows of every table. -/
theorem rowsOf_setTable (found : cat.table name = some t) (same : u.rows = t.rows) :
    (cat.setTable name u).rowsOf = cat.rowsOf := by
  funext other
  rw [rowsOf, table_setTable]
  split
  · next equal => rw [rowsOf, ← equal, found, Option.map_some, same, Option.map_some]
  · rfl

/-- The views tell the rows. -/
theorem rowsOf_of_view (same : cat'.view = cat.view) : cat'.rowsOf = cat.rowsOf := by
  funext other
  have equal := congrArg (Option.map TableView.rows) (congrFun same other)
  simpa [view, rowsOf, Function.comp_def, Table.view] using equal

/-- Catalogs of one view have the same tables, up to constraints. -/
theorem table_of_view (same : cat'.view = cat.view) (found : cat.table name = some t) :
    ∃ u, cat'.table name = some u ∧ u.view = t.view := by
  have equal := congrFun same name
  rw [view, view, found, Option.map_some] at equal
  exact Option.map_eq_some_iff.mp equal

end Catalog

namespace Constraint

variable {truth : Expr → Row → Option Bool} {cat cat' : Catalog} {t u : Table} {k : Constraint}

/-- Whether a constraint is satisfied depends on rows only. -/
theorem Satisfied.transfer (satisfied : k.Satisfied truth cat t) (same : cat'.rowsOf = cat.rowsOf)
    (rows : u.rows = t.rows) : k.Satisfied truth cat' u := by
  obtain ⟨name, kind, isIndex, enabled⟩ := k
  cases kind with
  | unique columns primary index =>
      simp only [Satisfied, Table.Distinct, rows] at satisfied ⊢
      exact satisfied
  | check condition =>
      simp only [Satisfied, rows] at satisfied ⊢
      exact satisfied
  | foreignKey columns parent parentColumns onDelete =>
      intro id row found complete
      rw [rows] at found
      obtain ⟨p, isParent, id', row', holds⟩ := satisfied id row found complete
      have equal := congrFun same parent
      rw [Catalog.rowsOf, Catalog.rowsOf, isParent, Option.map_some] at equal
      obtain ⟨q, isParent', sameRows⟩ := Option.map_eq_some_iff.mp equal
      exact ⟨q, isParent', id', row', sameRows ▸ holds⟩
  | index => trivial

/-- Whether a constraint is satisfied depends on the rows only. -/
theorem satisfied_iff_of_rows (same : cat'.rowsOf = cat.rowsOf) (rows : u.rows = t.rows) :
    k.Satisfied truth cat' u ↔ k.Satisfied truth cat t :=
  ⟨fun satisfied => satisfied.transfer same.symm rows.symm,
    fun satisfied => satisfied.transfer same rows⟩

/-- What validation checks depends on the view only. -/
theorem Checked.transfer (checked : k.Checked truth cat t) (same : cat'.view = cat.view)
    (rows : u.rows = t.rows) : k.Checked truth cat' u := by
  obtain ⟨name, kind, isIndex, enabled⟩ := k
  cases kind with
  | unique columns primary index =>
      simp only [Checked, rows] at checked ⊢
      exact checked
  | check condition =>
      simp only [Checked, rows] at checked ⊢
      exact checked
  | foreignKey columns parent parentColumns onDelete =>
      intro id row key found filed
      rw [rows] at found
      obtain ⟨p, isParent, reported⟩ := checked id row key found filed
      obtain ⟨q, isParent', view⟩ := Catalog.table_of_view same isParent
      have hasKey := congrArg (fun v => v.hasKey parentColumns key) view
      exact ⟨q, isParent', hasKey.trans reported⟩
  | index => trivial

/-- Whether the lookups are right depends on the views and the rows only. -/
theorem LookupsRight.transfer (right : k.LookupsRight cat t) (same : cat'.view = cat.view)
    (rows : u.rows = t.rows) : k.LookupsRight cat' u := by
  obtain ⟨name, kind, isIndex, enabled⟩ := k
  cases kind with
  | foreignKey columns parent parentColumns onDelete =>
      intro id row key q found filed isParent reported
      rw [rows] at found
      obtain ⟨p, isParent', view⟩ := Catalog.table_of_view same.symm isParent
      have hasKey := congrArg (fun v => v.hasKey parentColumns key) view
      obtain ⟨id', row', held, equal⟩ :=
        right id row key p found filed isParent' (hasKey.trans reported)
      have sameRows : p.rows = q.rows := congrArg TableView.rows view
      exact ⟨id', row', sameRows ▸ held, equal⟩
  | unique columns primary index => trivial
  | check condition => trivial
  | index => trivial

end Constraint

/-! ## Lookups after a constraint has been added -/

namespace Table

variable {t : Table}

/-- The columns hold no NULL if and only if every row is complete there. -/
theorem hasNull_eq_false {columns : List Nat} : t.hasNull columns = false ↔
    ∀ (id : Nat) (row : Row), t.rows[id]? = some row → Complete columns row := by
  simp only [hasNull, List.any_eq_false, Prod.forall, ExtTreeMap.mem_toList_iff_getElem?_eq_some,
    Complete, Bool.not_eq_true]

/-- An added constraint answers lookups as the rows do: it is not unique, or disabled, or its
index was built from them. -/
theorem view_append {k : Constraint}
    (built : ∀ columns, k.uniqueColumns = some columns → k.enabled = true →
      t.buildIndex columns = some k.index) :
    ({ t with constraints := t.constraints ++ [k] } : Table).view = t.view := by
  have hasKey : Table.hasKey { t with constraints := t.constraints ++ [k] } = t.hasKey := by
    funext columns key
    unfold Table.hasKey
    rw [List.find?_append]
    cases earlier : t.constraints.find? fun c => c.enabled && c.uniqueColumns == some columns with
    | some c => rfl
    | none =>
        by_cases matching : (k.enabled && k.uniqueColumns == some columns) = true
        · have both := matching
          simp only [Bool.and_eq_true, beq_iff_eq] at both
          have exact := exact_buildIndex (built columns both.2 both.1)
          simp only [List.find?_cons, matching, Option.none_or]
          rw [Bool.eq_iff_iff, ExtTreeMap.contains_eq_isSome_getElem?, Option.isSome_iff_exists]
          exact (exists_congr fun id => exact key id).trans scanKey_iff.symm
        · simp [matching]
  rw [view, view, hasKey]

end Table

/-! ## Validating a constraint -/

section Validate

variable {ev : Evaluator} {committed cat : Catalog} {table : String} {t : Table}
  {truth : Expr → Row → Option Bool} {env : Env}

/-- The validation of a CHECK passes only if the condition is FALSE on no row. -/
theorem validateRows_ok {ex : Ex} {condition : Expr} {violated : OraError}
    (decides : ev.Decides env (tableScopeCols t t.name) condition (truth condition))
    (plain : ex.binds = [] ∧ ex.vars = none) {rows : List (Nat × Row)} {st st' : EvalState}
    (settings : st.env = env) (success : validateRows ev ex t condition violated rows st = .ok () st') :
    (∀ row ∈ rows, truth condition row.2 ≠ some false) ∧ st'.env = env := by
  obtain ⟨cat, binds, committed, vars⟩ := ex
  obtain ⟨rfl, rfl⟩ : binds = [] ∧ vars = none := plain
  induction rows generalizing st with
  | nil =>
      cases success
      exact ⟨by simp, settings⟩
  | cons row rest ih =>
      obtain ⟨value, middle, evaluated, success⟩ := bind_ok success
      obtain ⟨decided, kept⟩ := decides _ _ _ _ _ _ settings evaluated
      split at success
      · obtain ⟨_, _, thrown, _⟩ := bind_ok success
        cases thrown
      · next notFalse =>
          obtain ⟨later, done⟩ := ih kept success
          refine ⟨?_, done⟩
          rw [List.forall_mem_cons]
          exact ⟨decided ▸ notFalse, later⟩

/-- A constraint that validation accepts has been checked. -/
theorem validateConstraint_ok {i : Nat} {k : Constraint} (found : cat.table table = some t)
    (position : t.constraints[i]? = some k)
    (decides : ∀ condition, k.kind = .check condition →
      ev.Decides env (tableScopeCols t t.name) condition (truth condition))
    {st st' : EvalState} (settings : st.env = env)
    (success : validateConstraint ev committed cat table i st = .ok () st') :
    k.Checked truth cat t ∧ st'.env = env := by
  obtain ⟨name, kind, isIndex, enabled⟩ := k
  simp only [validateConstraint, found, position, Option.bind_some, Option.map_some] at success
  cases kind with
  | unique columns primary index =>
      cases primary with
      | false =>
          cases success
          exact ⟨by simp [Constraint.Checked], settings⟩
      | true =>
          dsimp only at success
          split at success
          · cases success
          · next noNull =>
              cases success
              exact ⟨fun _ => Table.hasNull_eq_false.mp ((Bool.not_eq_true _).mp noNull), settings⟩
  | check condition =>
      obtain ⟨passed, kept⟩ := validateRows_ok (decides condition rfl) ⟨rfl, rfl⟩ settings success
      refine ⟨fun id row stored => ?_, kept⟩
      exact passed (id, row) (ExtTreeMap.mem_toList_iff_getElem?_eq_some.mpr stored)
  | foreignKey columns parent parentColumns onDelete =>
      dsimp only at success
      split at success
      · cases success
      · next p isParent =>
          split at success
          · cases success
          · next allFound =>
              cases success
              refine ⟨fun id row key stored filed => ⟨p, isParent, ?_⟩, settings⟩
              simp only [List.any_eq_true, not_exists, not_and] at allFound
              have reported := allFound (id, row)
                (ExtTreeMap.mem_toList_iff_getElem?_eq_some.mpr stored)
              simpa [filed] using reported
  | index =>
      cases success
      exact ⟨trivial, settings⟩

end Validate

/-! ## Adding constraints -/

/-- A constraint is the one that a statement declares. -/
def TableConstraint.Describes (c : TableConstraint) (k : Constraint) : Prop :=
  (∀ name, c.name = some name → k.name = name) ∧
    match c.kind with
    | .primaryKey _ => k.isPrimary = true
    | .unique _ => k.uniqueColumns.isSome = true ∧ k.isPrimary = false
    | .check condition => k.kind = .check condition
    | .foreignKey _ parent _ onDelete =>
        ∃ columns key, k.kind = .foreignKey columns parent key onDelete

/-- A declared constraint that describes a CHECK declares its condition. -/
theorem TableConstraint.Describes.condition {c : TableConstraint} {k : Constraint}
    (describes : c.Describes k) {condition : Expr} (isCheck : k.kind = .check condition) :
    c.kind = .check condition := by
  obtain ⟨name, kind, isIndex, enabled⟩ := k
  cases isCheck
  have kinds := describes.2
  split at kinds
  · cases kinds
  · cases kinds.1
  · next written =>
      cases kinds
      exact written
  · obtain ⟨_, _, other⟩ := kinds
    cases other

/-- What adding a constraint `c` does: it appends `k` to a table. An enabled unique key has an
index over distinct rows, without NULLs if it is a primary key; another constraint is validated
if it is to be. -/
structure Adds (ev : Evaluator) (committed : Catalog) (table : String) (c : TableConstraint)
    (st st' : DdlState) (t : Table) (k : Constraint) : Prop where
  found : st.cat.table table = some t
  cat : st'.cat = st.cat.setTable table { t with constraints := t.constraints ++ [k] }
  enabled : k.enabled = c.enabled
  describes : c.Describes k
  unique : ∀ columns, k.uniqueColumns = some columns → st'.eval = st.eval ∧
    (c.enabled = true → t.buildIndex columns = some k.index ∧
      (k.isPrimary = true → t.hasNull columns = false))
  other : k.uniqueColumns = none →
    if c.enabled && c.validate then
      validateConstraint ev committed st'.cat table t.constraints.length st.eval = .ok () st'.eval
    else st'.eval = st.eval

/-- A foreign key resolves to a foreign key. -/
theorem resolveForeignKey_kind {cat : Catalog} {t : Table} {columns : List String}
    {parent : String} {refColumns : List String} {onDelete : OnDelete} {kind : ConstraintKind}
    (resolved : resolveForeignKey cat t columns parent refColumns onDelete = .ok kind) :
    ∃ own key, kind = .foreignKey own parent key onDelete := by
  unfold resolveForeignKey at resolved
  obtain ⟨idx, -, resolved⟩ := Except.of_bind resolved
  obtain ⟨p, -, resolved⟩ := Except.of_bind resolved
  dsimp only at resolved
  -- Where the referenced columns come from does not matter.
  split at resolved
  all_goals
    obtain ⟨refs, -, resolved⟩ := Except.of_bind resolved
    split at resolved
    · cases resolved
    obtain ⟨key, -, resolved⟩ := Except.of_bind resolved
    split at resolved
    · cases resolved
    cases resolved
    exact ⟨_, _, rfl⟩

/-- A resolved constraint is of the kind that was declared, and an enabled primary key meets no
NULL. -/
theorem resolveConstraint_kind {user : String} {cat : Catalog} {t : Table} {name : String}
    {c : TableConstraint} {resolved : ResolvedConstraint}
    (success : resolveConstraint user cat t name c = .ok resolved) :
    match resolved with
    | .unique columns primary _ =>
        ((∃ cols, c.kind = .primaryKey cols) ∧ primary = true ∧
            (c.enabled = true → t.hasNull columns = false)) ∨
          (∃ cols, c.kind = .unique cols) ∧ primary = false
    | .other kind => (∃ e, c.kind = .check e ∧ kind = .check e) ∨
        ∃ columns parent refColumns onDelete own key,
          c.kind = .foreignKey columns parent refColumns onDelete ∧
            kind = .foreignKey own parent key onDelete := by
  unfold resolveConstraint at success
  split at success
  · next cols written =>
      split at success
      · cases success
      · split at success
        · cases success
        · split at success
          · cases success
          · next noNull =>
              cases success
              exact Or.inl ⟨⟨cols, written⟩, rfl, fun enabled => by simpa [enabled] using noNull⟩
  · next cols written =>
      cases names : resolveColumns t cols with
      | error e => simp [names, Except.map] at success
      | ok idx =>
          simp only [names, Except.map, Except.ok.injEq] at success
          subst success
          exact Or.inr ⟨⟨cols, written⟩, rfl⟩
  · next e written =>
      cases success
      exact Or.inl ⟨e, written, rfl⟩
  · next columns parent refColumns onDelete written =>
      cases key : resolveForeignKey cat t columns parent refColumns onDelete with
      | error e => simp [key, Except.map] at success
      | ok found =>
          simp only [key, Except.map, Except.ok.injEq] at success
          subst success
          obtain ⟨own, positions, equal⟩ := resolveForeignKey_kind key
          exact Or.inr ⟨columns, parent, refColumns, onDelete, own, positions, written, equal⟩

section Adding

variable {ev : Evaluator} {committed : Catalog} {table : String} {st st' : DdlState}
  {truth : Expr → Row → Option Bool} {env : Env}

/-- Naming a constraint changes neither the catalog nor the evaluation. -/
theorem DdlState.nameConstraint_keeps (st : DdlState) (c : TableConstraint) :
    (st.nameConstraint c).2.cat = st.cat ∧ (st.nameConstraint c).2.eval = st.eval := by
  unfold DdlState.nameConstraint
  split <;> exact ⟨rfl, rfl⟩

/-- Validation within DDL leaves the catalog alone. -/
theorem DdlState.validate_ok {i : Nat} (success : st.validate ev committed table i = .ok () st') :
    st'.cat = st.cat ∧ validateConstraint ev committed st.cat table i st.eval = .ok () st'.eval := by
  unfold DdlState.validate at success
  split at success
  · next eval equal =>
      cases success
      exact ⟨rfl, equal⟩
  · cases success

/-- A constraint that has a name keeps it. -/
theorem DdlState.nameConstraint_name (st : DdlState) {c : TableConstraint} {name : String}
    (named : c.name = some name) : (st.nameConstraint c).1 = name := by
  unfold DdlState.nameConstraint
  rw [named]

/-- What ADD CONSTRAINT does when it succeeds. -/
theorem addConstraint_adds {c : TableConstraint}
    (success : addConstraint ev committed table c st = .ok () st') :
    ∃ t k, Adds ev committed table c st st' t k := by
  obtain ⟨sameCat, sameEval⟩ := st.nameConstraint_keeps c
  unfold addConstraint at success
  simp only [sameCat, sameEval] at success
  split at success
  · cases success
  split at success
  · cases success
  next t found =>
  split at success
  · cases success
  · next columns primary duplicates resolved =>
      have kind := resolveConstraint_kind resolved
      unfold Table.addUnique at success
      split at success
      · next built =>
          split at built
          · cases built
          · next index indexed =>
              cases built
              cases success
              refine ⟨t, ⟨_, .unique columns primary index, _, _⟩, found, rfl, rfl,
                ⟨fun _ => st.nameConstraint_name, ?_⟩, ?_, fun notUnique => (by cases notUnique)⟩
              · rcases kind with ⟨⟨cols, written⟩, rfl, -⟩ | ⟨⟨cols, written⟩, rfl⟩
                · rw [written]
                  rfl
                · rw [written]
                  exact ⟨rfl, rfl⟩
              · intro own same
                cases same
                refine ⟨rfl, fun enabled => ⟨?_, fun isPrimary => ?_⟩⟩
                · rw [if_pos enabled] at indexed
                  exact indexed
                · rcases kind with ⟨-, -, noNull⟩ | ⟨-, rfl⟩
                  · exact noNull enabled
                  · cases isPrimary
      · cases success
  · next kind resolved =>
      have describes : c.Describes ⟨(st.nameConstraint c).1, kind, false, c.enabled⟩ ∧
          Constraint.uniqueColumns ⟨(st.nameConstraint c).1, kind, false, c.enabled⟩ = none := by
        rcases resolveConstraint_kind resolved with ⟨e, written, rfl⟩ |
          ⟨columns, parent, refColumns, onDelete, own, key, written, rfl⟩
        · refine ⟨⟨fun _ => st.nameConstraint_name, ?_⟩, rfl⟩
          rw [written]
        · refine ⟨⟨fun _ => st.nameConstraint_name, ?_⟩, rfl⟩
          rw [written]
          exact ⟨own, key, rfl⟩
      obtain ⟨describes, keyless⟩ := describes
      have notUnique : ∀ columns, Constraint.uniqueColumns
          ⟨(st.nameConstraint c).1, kind, false, c.enabled⟩ ≠ some columns := by
        intro columns same
        rw [keyless] at same
        cases same
      split at success
      · next validated =>
          obtain ⟨cat, passed⟩ := DdlState.validate_ok success
          refine ⟨t, _, found, cat, rfl, describes, fun columns same => absurd same (notUnique columns),
            fun _ => ?_⟩
          rw [if_pos validated, cat]
          simpa [sameEval] using passed
      · next unvalidated =>
          cases success
          refine ⟨t, _, found, rfl, rfl, describes, fun columns same => absurd same (notUnique columns),
            fun _ => ?_⟩
          rw [if_neg unvalidated]

namespace Adds

variable {c : TableConstraint} {t : Table} {k : Constraint}

/-- Adding a constraint changes no row and no lookup. -/
theorem view (adds : Adds ev committed table c st st' t k) : st'.cat.view = st.cat.view := by
  rw [adds.cat]
  refine Catalog.view_setTable adds.found (Table.view_append fun columns unique enabled => ?_)
  exact ((adds.unique columns unique).2 (adds.enabled ▸ enabled)).1

/-- An enabled unique key has distinct keys. -/
theorem distinct (adds : Adds ev committed table c st st' t k) (enabled : c.enabled = true) :
    k.KeysDistinct t := by
  intro columns unique
  exact Table.distinct_of_buildIndex ((adds.unique columns unique).2 enabled).1

/-- A constraint that is added to be validated is checked. -/
theorem checked (adds : Adds ev committed table c st st' t k)
    (decides : ∀ condition, c.kind = .check condition →
      ev.Decides env (tableScopeCols t t.name) condition (truth condition))
    (settings : st.eval.env = env) :
    (c.enabled = true → c.validate = true → k.Checked truth st.cat t) ∧ st'.eval.env = env := by
  cases unique : k.uniqueColumns with
  | some columns =>
      obtain ⟨sameEval, built⟩ := adds.unique columns unique
      refine ⟨fun enabled _ => ?_, by rw [sameEval, settings]⟩
      obtain ⟨name, kind, isIndex, isEnabled⟩ := k
      cases kind with
      | unique own primary index =>
          cases unique
          exact fun isPrimary => Table.hasNull_eq_false.mp ((built enabled).2 isPrimary)
      | check condition => cases unique
      | foreignKey own parent parentColumns onDelete => cases unique
      | index => cases unique
  | none =>
      have other := adds.other unique
      split at other
      · have foundAfter : st'.cat.table table =
            some { t with constraints := t.constraints ++ [k] } := by
          rw [adds.cat, Catalog.table_setTable_self]
        obtain ⟨checked, kept⟩ := validateConstraint_ok foundAfter (by simp)
          (fun condition isCheck => decides condition (adds.describes.condition isCheck))
          settings other
        exact ⟨fun _ _ => checked.transfer adds.view.symm rfl, kept⟩
      · next unvalidated =>
          refine ⟨fun enabled validate => ?_, by rw [other, settings]⟩
          simp [enabled, validate] at unvalidated

end Adds

/-- An added constraint has been checked as far as its declaration asks. -/
def TableConstraint.Passes (truth : Expr → Row → Option Bool) (cat : Catalog) (t : Table)
    (c : TableConstraint) (k : Constraint) : Prop :=
  c.Describes k ∧ k.enabled = c.enabled ∧
    (c.enabled = true → k.KeysDistinct t ∧ (c.validate = true → k.Checked truth cat t))

/-- Constraints are added one after the other; each is checked against the same rows. -/
theorem addConstraints_passes {cs : List TableConstraint} {t : Table}
    (found : st.cat.table table = some t)
    (decides : ∀ c ∈ cs, ∀ condition, c.kind = .check condition →
      ev.Decides env (tableScopeCols t t.name) condition (truth condition))
    (settings : st.eval.env = env) (success : addConstraints ev committed table cs st = .ok () st') :
    ∃ ks, st'.cat.table table = some { t with constraints := t.constraints ++ ks } ∧
      st'.cat.view = st.cat.view ∧ List.Forall₂ (TableConstraint.Passes truth st.cat t) cs ks := by
  induction cs generalizing st t with
  | nil =>
      cases success
      exact ⟨[], by simpa using found, rfl, .nil⟩
  | cons c rest ih =>
      unfold addConstraints at success
      split at success
      · next middle first =>
          obtain ⟨u, k, adds⟩ := addConstraint_adds first
          obtain rfl : t = u := Option.some.inj (found.symm.trans adds.found)
          obtain ⟨checked, kept⟩ := adds.checked (decides c List.mem_cons_self) settings
          have foundAfter : middle.cat.table table =
              some { t with constraints := t.constraints ++ [k] } := by
            rw [adds.cat, Catalog.table_setTable_self]
          obtain ⟨ks, final, view, passed⟩ := ih foundAfter
            (fun d member => decides d (List.mem_cons_of_mem _ member)) kept success
          refine ⟨k :: ks, by simpa using final, view.trans adds.view, .cons ?_ ?_⟩
          · exact ⟨adds.describes, adds.enabled,
              fun enabled => ⟨adds.distinct enabled, checked enabled⟩⟩
          · refine passed.imp fun d l passes => ⟨passes.1, passes.2.1, fun enabled => ?_⟩
            obtain ⟨distinct, asked⟩ := passes.2.2 enabled
            exact ⟨distinct, fun validate => (asked validate).transfer adds.view.symm rfl⟩
      · cases success

end Adding

/-! ## Enabling a constraint -/

section Enabling

variable {t u : Table} {i : Nat} {k : Constraint}

/-- Enabling a constraint rebuilds the index of a unique one over distinct keys. -/
theorem Table.setEnabled_ok (here : t.constraints[i]? = some k)
    (success : t.setEnabled i true = (.ok (), u)) :
    ∃ k' : Constraint, u = { t with constraints := t.constraints.set i k' } ∧ k'.enabled = true ∧
      k'.outline = k.outline ∧
        ∀ columns, k'.uniqueColumns = some columns → t.buildIndex columns = some k'.index := by
  obtain ⟨name, kind, isIndex, enabled⟩ := k
  simp only [Table.setEnabled, here, if_true] at success
  split at success
  · cases success
  · next index rebuilt =>
      cases success
      refine ⟨_, rfl, rfl, by cases kind <;> rfl, ?_⟩
      cases kind with
      | unique columns primary old =>
          intro own same
          cases same
          exact rebuilt
      | check condition => exact fun own same => (by cases same)
      | foreignKey columns parent parentColumns onDelete => exact fun own same => (by cases same)
      | index => exact fun own same => (by cases same)

/-- Setting a member where neither the old nor the new one is looked for keeps what is found. -/
theorem List.find?_set_of_false {α : Type} {p : α → Bool} {a b : α} (l : List α) (i : Nat)
    (here : l[i]? = some a) (old : p a = false) (new : p b = false) :
    (l.set i b).find? p = l.find? p := by
  induction l generalizing i with
  | nil => rfl
  | cons first rest ih =>
      cases i with
      | zero =>
          cases here
          simp [old, new]
      | succ i =>
          simp only [List.set_cons_succ, List.find?_cons]
          rw [ih i (by simpa using here)]

/-- A constraint that is not unique answers no lookup. -/
theorem Table.view_set {k' : Constraint} (here : t.constraints[i]? = some k)
    (old : k.uniqueColumns = none) (new : k'.uniqueColumns = none) :
    ({ t with constraints := t.constraints.set i k' } : Table).view = t.view := by
  have hasKey : Table.hasKey { t with constraints := t.constraints.set i k' } = t.hasKey := by
    funext columns key
    unfold Table.hasKey
    rw [List.find?_set_of_false t.constraints i here (by simp [old]) (by simp [new])]
  rw [Table.view, Table.view, hasKey]

/-- Enabling a constraint of a table, and validating it if it was disabled. -/
theorem setTableConstraint_ok {ev : Evaluator} {committed : Catalog} {table : String}
    {name : Option String} {validate cascade : Bool} {st st' : DdlState}
    (found : st.cat.table table = some t) (position : findConstraint t name = some i)
    (here : t.constraints[i]? = some k)
    (success : setTableConstraint ev committed table t name true validate cascade st = .ok () st') :
    ∃ u, t.setEnabled i true = (.ok (), u) ∧ st'.cat = st.cat.setTable table u ∧
      (validate = true → k.enabled = false →
        validateConstraint ev committed st'.cat table i st.eval = .ok () st'.eval) := by
  unfold setTableConstraint at success
  simp only [position, orphans, if_true, List.isEmpty_nil, Bool.not_true, Bool.false_and,
    Bool.false_eq_true, if_false, disableForeignKeys, List.foldl_nil, found, here,
    Option.any_some] at success
  split at success
  · cases success
  · next u enabled =>
      refine ⟨u, enabled, ?_⟩
      split at success
      · obtain ⟨cat, passed⟩ := DdlState.validate_ok success
        rw [cat]
        exact ⟨rfl, fun _ _ => passed⟩
      · next skipped =>
          cases success
          refine ⟨rfl, fun asked disabled => ?_⟩
          simp [asked, disabled] at skipped

end Enabling

end MockOracle
