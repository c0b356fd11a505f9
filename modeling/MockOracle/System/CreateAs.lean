import MockOracle.Eval.Evaluate
import MockOracle.Eval.Literal
import MockOracle.Eval.Plain
import MockOracle.Session.Validation
import MockOracle.System.System

/-!
# CREATE TABLE AS SELECT

The constraints are added while the table is still empty, and the query's rows are then inserted
as they are. Inserting maintains the unique indexes and refuses a repeated key; nothing looks at
NULLs in a primary key, at a CHECK or at a foreign key. So whatever the query returns, the new
table meets its constraints exactly if each of them is one that no row can break unseen, as a
plain UNIQUE is.
-/

namespace MockOracle

open Std Semantics

/-! ## Filling a table -/

namespace Table

variable {t u : Table} {rows : List Row} {next n : Nat}

theorem insert_ok {id : Nat} {values : Row} (inserted : t.insert id values = (.ok (), u)) :
    u = t.write id values := by
  rcases t.insert_cases id values with ⟨equal, _⟩ | ⟨_, _, equal, _⟩
  · rw [equal] at inserted
    exact (Prod.mk.inj inserted).2.symm
  · rw [equal] at inserted
    cases inserted

/-- The rows stand in the table under consecutive ids. -/
theorem fill_ok (filled : t.fill rows next = (.ok (), n, u)) :
    u.schema = t.schema ∧ (t.Covers → u.Covers) ∧
      ∀ id : Nat, u.rows[id]? =
        if next ≤ id ∧ id < next + rows.length then rows[id - next]? else t.rows[id]? := by
  induction rows generalizing t next with
  | nil =>
      cases filled
      refine ⟨rfl, fun covers => covers, fun id => ?_⟩
      rw [if_neg]
      simp
  | cons values rest ih =>
      have inserted : t.insert next values = (.ok (), t.write next values) := by
        unfold Table.fill at filled
        split at filled
        · cases filled
        · next middle equal => rw [equal, insert_ok equal]
      have later : (t.write next values).fill rest (next + 1) = (.ok (), n, u) := by
        simpa only [Table.fill, inserted] using filled
      obtain ⟨schema, covers, stored⟩ := ih later
      refine ⟨schema.trans (schema_write next values), fun before => covers ?_, fun id => ?_⟩
      · have kept := before.insert next values
        rw [inserted] at kept
        exact kept
      · rw [stored id, List.length_cons]
        by_cases here : id = next
        · subst here
          rw [if_neg (by omega), if_pos (by omega), Nat.sub_self]
          simp [write]
        · have other : (t.write next values).rows[id]? = t.rows[id]? := by
            simp [write, ExtTreeMap.getElem?_insert, Ne.symm here]
          rw [other]
          by_cases inRange : next + 1 ≤ id ∧ id < next + 1 + rest.length
          · rw [if_pos inRange, if_pos (by omega), show id - next = id - (next + 1) + 1 by omega,
              List.getElem?_cons_succ]
          · rw [if_neg inRange, if_neg (by omega)]

/-- The rows of a table that was empty are those it has been filled with, in order. -/
theorem getElem?_fill (filled : t.fill rows next = (.ok (), n, u)) (empty : t.rows = ∅) (id : Nat) :
    u.rows[id]? = if next ≤ id then rows[id - next]? else none := by
  obtain ⟨-, -, stored⟩ := fill_ok filled
  have none_ : t.rows[id]? = none := by simp [empty]
  rw [stored id, none_]
  by_cases after : next ≤ id
  · by_cases inRange : id < next + rows.length
    · rw [if_pos ⟨after, inRange⟩, if_pos after]
    · rw [if_neg (by omega), if_pos after, List.getElem?_eq_none (by omega)]
  · rw [if_neg (by omega), if_neg after]

theorem row_fill_iff (filled : t.fill rows next = (.ok (), n, u)) (empty : t.rows = ∅) {row : Row} :
    (∃ id : Nat, u.rows[id]? = some row) ↔ row ∈ rows := by
  constructor
  · rintro ⟨id, here⟩
    rw [getElem?_fill filled empty] at here
    split at here
    · exact List.mem_of_getElem? here
    · cases here
  · intro member
    obtain ⟨i, here⟩ := List.mem_iff_getElem?.mp member
    refine ⟨next + i, ?_⟩
    rw [getElem?_fill filled empty, if_pos (Nat.le_add_right _ _), Nat.add_sub_cancel_left, here]

end Table

/-! ## The constraints of the new table -/

section Constrained

variable {ev : Evaluator} {committed : Catalog} {table : String} {st st' : DdlState} {t : Table}

/-- A declared constraint stands in the table, in the declared state. -/
def TableConstraint.Becomes (c : TableConstraint) (k : Constraint) : Prop :=
  c.Describes k ∧ k.enabled = c.enabled

/-- No index of a table that is being created finds a key, as the table is still empty. -/
def Table.Unfiled (t : Table) : Prop :=
  ∀ c ∈ t.constraints, ∀ values key, c.key values = some key → c.index[key]? = none

/-- A constraint is added to an empty table with an empty index. -/
theorem Adds.unfiled {c : TableConstraint} {k : Constraint}
    (adds : Adds ev committed table c st st' t k) (empty : t.rows = ∅) (unfiled : t.Unfiled) :
    ({ t with constraints := t.constraints ++ [k] } : Table).Unfiled := by
  intro d member
  rcases List.mem_append.mp member with old | new
  · exact unfiled d old
  · rw [List.mem_singleton.mp new]
    intro values key filed
    obtain ⟨name, kind, isIndex, on⟩ := k
    cases kind with
    | unique columns primary index =>
        have enabled : c.enabled = true := by
          rw [← adds.enabled]
          cases on with
          | true => rfl
          | false => cases filed
        have built := ((adds.unique columns rfl).2 enabled).1
        have exact := Table.exact_buildIndex built
        rw [empty] at exact
        by_contra found
        obtain ⟨id, here⟩ := Option.ne_none_iff_exists'.mp found
        obtain ⟨row, stored, -⟩ := (exact key id).mp here
        simp at stored
    | check condition => cases filed
    | foreignKey columns parent parentColumns onDelete => cases filed
    | index => cases filed

/-- Constraints are appended in order, and the table is left empty. -/
theorem addConstraints_become {cs : List TableConstraint} (found : st.cat.table table = some t)
    (empty : t.rows = ∅) (unfiled : t.Unfiled)
    (success : addConstraints ev committed table cs st = .ok () st') :
    ∃ ks, st'.cat.table table = some { t with constraints := t.constraints ++ ks } ∧
      ({ t with constraints := t.constraints ++ ks } : Table).Unfiled ∧
      List.Forall₂ TableConstraint.Becomes cs ks := by
  induction cs generalizing st t with
  | nil =>
      cases success
      exact ⟨[], by simpa using found, by simpa using unfiled, .nil⟩
  | cons c rest ih =>
      unfold addConstraints at success
      split at success
      · next middle first =>
          obtain ⟨u, k, adds⟩ := addConstraint_adds first
          obtain rfl : t = u := Option.some.inj (found.symm.trans adds.found)
          have foundAfter : middle.cat.table table =
              some { t with constraints := t.constraints ++ [k] } := by
            rw [adds.cat, Catalog.table_setTable_self]
          obtain ⟨ks, final, kept, become⟩ :=
            ih foundAfter empty (adds.unfiled empty unfiled) success
          exact ⟨k :: ks, by simpa using final, by simpa using kept,
            .cons ⟨adds.describes, adds.enabled⟩ become⟩
      · cases success

theorem TableConstraint.describes_shape (c : TableConstraint) (k : Constraint) :
    c.Describes k.shape ↔ c.Describes k := by
  obtain ⟨name, kind, isIndex, on⟩ := k
  cases kind with
  | unique columns primary index =>
      obtain ⟨label, written, enabled, validate⟩ := c
      cases written <;> simp [Describes, Constraint.shape, Constraint.mapIndex, Constraint.isPrimary,
        Constraint.uniqueColumns]
  | check condition => exact Iff.rfl
  | foreignKey columns parent parentColumns onDelete => exact Iff.rfl
  | index => exact Iff.rfl

/-- What a declaration becomes does not depend on the contents of indexes. -/
theorem becomes_of_shapes {cs : List TableConstraint} {ks ls : List Constraint}
    (become : List.Forall₂ TableConstraint.Becomes cs ks)
    (same : ls.map Constraint.shape = ks.map Constraint.shape) :
    List.Forall₂ TableConstraint.Becomes cs ls := by
  have through : ∀ ms : List Constraint, List.Forall₂ TableConstraint.Becomes cs ms ↔
      List.Forall₂ TableConstraint.Becomes cs (ms.map Constraint.shape) := by
    intro ms
    rw [List.forall₂_map_right_iff]
    simp only [TableConstraint.Becomes, TableConstraint.describes_shape, Constraint.enabled_shape]
    exact Iff.rfl
  rw [through, same, ← through]
  exact become

end Constrained

/-! ## What rows a constraint needs -/

/-- A row a query can return under its columns: each value is NULL or of the column's variant. -/
def TypedRow (cols : List RelCol) (row : Row) : Prop :=
  List.Forall₂ (fun c v => v = .null ∨ c.sqlType.hasVariant v = true) cols row

/-- What the rows of a query have to meet, besides unique keys being distinct, to satisfy a
constraint of the table `name` that is created from them: no NULL in a primary key, no CHECK that
is FALSE, and a parent row for each foreign key, which may be one of them. -/
def Constraint.Suits (truth : Expr → Row → Option Bool) (cat : Catalog) (name : String)
    (rows : List Row) (k : Constraint) : Prop :=
  match k.kind with
  | .unique columns primary _ => primary = true → ∀ row ∈ rows, Complete columns row
  | .check condition => ∀ row ∈ rows, truth condition row ≠ some false
  | .foreignKey columns parent parentColumns _ => ∀ row ∈ rows, Complete columns row →
      if name = parent then ∃ row' ∈ rows, SameKey columns row parentColumns row'
      else ∃ p, cat.table parent = some p ∧ p.Holds parentColumns columns row
  | .index => True

/-- A constraint of the table `name` that no row of its columns can break unseen: every unique
key, as the index refuses what breaks it, and of the others a CHECK that is FALSE for no row and a
foreign key whose parent has every key. A primary key is no such constraint. -/
def Constraint.Unbreakable (truth : Expr → Row → Option Bool) (cat : Catalog) (name : String)
    (cols : List RelCol) (k : Constraint) : Prop :=
  match k.kind with
  | .unique columns primary _ => primary = true → columns = []
  | .check condition => ∀ row, TypedRow cols row → truth condition row ≠ some false
  | .foreignKey columns parent parentColumns _ => ∀ row, TypedRow cols row → Complete columns row →
      if name = parent then SameKey columns row parentColumns row
      else ∃ p, cat.table parent = some p ∧ p.Holds parentColumns columns row
  | .index => True

section Suits

variable {truth : Expr → Row → Option Bool} {cat cat' : Catalog} {name : String} {rows : List Row}
  {cols : List RelCol} {k : Constraint}

theorem typedRow_nulls (cols : List RelCol) : TypedRow cols (cols.map fun _ => .null) := by
  induction cols with
  | nil => exact .nil
  | cons c cols ih => exact .cons (Or.inl rfl) ih

theorem isNull_cell_nulls (cols : List RelCol) (i : Nat) :
    (cell (cols.map fun _ => .null) i).isNull = true := by
  unfold cell
  rw [List.getD_eq_getElem?_getD, List.getElem?_map]
  cases cols[i]? <;> rfl

/-- The constraints of a table with distinct keys are satisfied exactly if its rows suit them. -/
theorem Constraint.satisfied_iff_suits {t : Table} (distinct : k.KeysDistinct t)
    (stored : ∀ row, (∃ id : Nat, t.rows[id]? = some row) ↔ row ∈ rows)
    (tables : ∀ other, cat'.table other = if name = other then some t else cat.table other) :
    k.Satisfied truth cat' t ↔ k.Suits truth cat name rows := by
  have forall_iff : ∀ P : Row → Prop,
      (∀ (id : Nat) (row : Row), t.rows[id]? = some row → P row) ↔ ∀ row ∈ rows, P row := by
    intro P
    constructor
    · intro all row member
      obtain ⟨id, here⟩ := (stored row).mpr member
      exact all id row here
    · intro all id row here
      exact all row ((stored row).mp ⟨id, here⟩)
  obtain ⟨label, kind, isIndex, enabled⟩ := k
  cases kind with
  | unique columns primary index =>
      have own : t.Distinct columns := distinct columns rfl
      simp only [Satisfied, Suits, forall_iff]
      exact ⟨fun satisfied => satisfied.2, fun suits => ⟨own, suits⟩⟩
  | check condition =>
      simp only [Satisfied, Suits]
      exact forall_iff fun row => truth condition row ≠ some false
  | foreignKey columns parent parentColumns onDelete =>
      simp only [Satisfied, Suits, tables]
      rw [forall_iff fun row => Complete columns row →
        ∃ p, (if name = parent then some t else cat.table parent) = some p ∧
          p.Holds parentColumns columns row]
      refine forall_congr' fun row => forall_congr' fun _ => forall_congr' fun _ => ?_
      split
      · constructor
        · rintro ⟨p, isParent, id, row', here, same⟩
          cases isParent
          exact ⟨row', (stored row').mp ⟨id, here⟩, same⟩
        · rintro ⟨row', member, same⟩
          obtain ⟨id, here⟩ := (stored row').mpr member
          exact ⟨t, rfl, id, row', here, same⟩
      · exact Iff.rfl
  | index => exact Iff.rfl

/-- Rows of any number suit a constraint that none of them can break. -/
theorem Constraint.Unbreakable.suits (unbreakable : k.Unbreakable truth cat name cols)
    (typed : ∀ row ∈ rows, TypedRow cols row) : k.Suits truth cat name rows := by
  obtain ⟨label, kind, isIndex, enabled⟩ := k
  cases kind with
  | unique columns primary index =>
      intro isPrimary row member i here
      rw [show columns = [] from unbreakable isPrimary] at here
      cases here
  | check condition => exact fun row member => unbreakable row (typed row member)
  | foreignKey columns parent parentColumns onDelete =>
      intro row member complete
      have held := unbreakable row (typed row member) complete
      split at held
      · next own =>
          rw [if_pos own]
          exact ⟨row, member, held⟩
      · next other =>
          rw [if_neg other]
          exact held
  | index => trivial

/-- A constraint that suits each row alone is one that no row can break. -/
theorem Constraint.unbreakable_of_suits
    (suits : ∀ row, TypedRow cols row → k.Suits truth cat name [row]) :
    k.Unbreakable truth cat name cols := by
  obtain ⟨label, kind, isIndex, enabled⟩ := k
  cases kind with
  | unique columns primary index =>
      intro isPrimary
      refine List.eq_nil_iff_forall_not_mem.mpr fun i here => ?_
      -- A row of NULLs breaks the primary key.
      have complete := suits _ (typedRow_nulls cols) isPrimary _ (List.mem_singleton_self _) i here
      rw [isNull_cell_nulls] at complete
      cases complete
  | check condition => exact fun row typed => suits row typed row (List.mem_singleton_self row)
  | foreignKey columns parent parentColumns onDelete =>
      intro row typed complete
      have held := suits row typed row (List.mem_singleton_self row) complete
      split at held
      · next own =>
          rw [if_pos own]
          obtain ⟨row', member, same⟩ := held
          rwa [List.mem_singleton.mp member] at same
      · next other =>
          rw [if_neg other]
          exact held
  | index => trivial

/-- What a constraint needs of rows does not depend on the contents of its index. -/
theorem Constraint.suits_shape : k.shape.Suits truth cat name rows ↔ k.Suits truth cat name rows := by
  obtain ⟨label, kind, isIndex, enabled⟩ := k
  cases kind <;> exact Iff.rfl

theorem Constraint.unbreakable_shape :
    k.shape.Unbreakable truth cat name cols ↔ k.Unbreakable truth cat name cols := by
  obtain ⟨label, kind, isIndex, enabled⟩ := k
  cases kind <;> exact Iff.rfl

end Suits

/-! ## The statement -/

namespace World

variable {ev : Evaluator} {binds : List Value} {ct : CreateTable} {w w' : World}
  {columns : List TableColumn} {rel : Option Relation}

/-- The constraints of the statement under the names they get, foreign keys last. -/
def declared (w : World) (ct : CreateTable) : List TableConstraint :=
  sortConstraints (nameConstraints ct.constraints w.db.nextConstraint).1

/-- Where the statement starts adding constraints. -/
def createStart (w : World) (ct : CreateTable) (columns : List TableColumn) : DdlState :=
  ⟨w.evalState, (nameConstraints ct.constraints w.db.nextConstraint).2,
    w.db.state.setTable ct.name (.new ct.name columns)⟩

/-- Adding the constraints changes nothing but the new table. -/
theorem createStart_changes (ev : Evaluator) (columns : List TableColumn) (bound : Nat)
    (absent : w.db.state.table ct.name = none) :
    w.db.state.ChangesTable bound ct.name (DdlResult.state
      (addConstraints ev w.db.state ct.name (w.declared ct) (w.createStart ct columns))).cat := by
  have created : w.db.state.ChangesTable bound ct.name (w.createStart ct columns).cat :=
    .setTable (fun u found => by rw [absent] at found; cases found)
      fun _ => Table.Sound.new columns
  exact created.trans
    (addConstraints_changes bound ev w.db.state ct.name (w.createStart ct columns) (w.declared ct))

/-- A CREATE TABLE that fails leaves the committed catalog as it was. -/
theorem createTableFrom_error {e : OraError} (failed : (w.createTableFrom ev ct rel).1 = .error e) :
    (w.createTableFrom ev ct rel).2.db.state = w.db.state := by
  by_cases free : w.db.state.nameInUse ct.name = true
  · simp [createTableFrom, free]
  · have absent := Catalog.table_of_not_nameInUse ((Bool.not_eq_true _).mp free)
    have changes := createStart_changes ev (newColumns ct rel) 0 absent
    unfold createTableFrom at failed ⊢
    simp only [free, Bool.false_eq_true, if_false] at failed ⊢
    split at failed
    · next repeated => rw [if_pos repeated]
    · next distinct =>
        rw [if_neg distinct]
        split
        · next e' st equal =>
            rw [declared, createStart, equal] at changes
            exact changes.removeTable absent
        · next st equal =>
            rw [declared, createStart, equal] at changes
            rw [equal] at failed
            simp only at failed
            split
            · next missing =>
                rw [missing] at failed
                cases failed
            · next t found =>
                rw [found] at failed
                simp only at failed
                split
                · next filled =>
                    exact (Catalog.removeTable_setTable _ _ _).trans (changes.removeTable absent)
                · next filled =>
                    rw [filled] at failed
                    cases failed

/-- The table with its columns and constraints stands, and is to be filled. -/
structure Prepared (ev : Evaluator) (ct : CreateTable) (w : World) (columns : List TableColumn)
    (st : DdlState) (ks : List Constraint) : Prop where
  free : w.db.state.nameInUse ct.name = false
  named : (columns.map (·.name)).Nodup
  added : addConstraints ev w.db.state ct.name (w.declared ct) (w.createStart ct columns) = .ok () st
  found : st.cat.table ct.name = some ⟨ct.name, columns, ks, ∅⟩
  unfiled : (⟨ct.name, columns, ks, ∅⟩ : Table).Unfiled
  become : List.Forall₂ TableConstraint.Becomes (w.declared ct) ks

namespace Prepared

variable {st : DdlState} {ks : List Constraint} {rows : List Row} {n : Nat} {t : Table}

/-- After the table is filled the catalog has it and is otherwise as before. -/
theorem tables (prepared : w.Prepared ev ct columns st ks) (other : String) :
    (st.cat.setTable ct.name t).bump.table other =
      if ct.name = other then some t else w.db.state.table other := by
  have absent := Catalog.table_of_not_nameInUse prepared.free
  have changes := createStart_changes ev columns 0 absent
  rw [prepared.added] at changes
  have table : ∀ cat : Catalog, cat.bump.table = cat.table := fun _ => rfl
  rw [table, Catalog.table_setTable]
  split
  · rfl
  · next different => exact changes.elsewhere other (Ne.symm different)

/-- The statement succeeds once the table is filled. -/
theorem created (prepared : w.Prepared ev ct (newColumns ct rel) st ks)
    (filled : Table.fill ((rel.map (·.rows)).getD []) w.db.nextRowId
      ⟨ct.name, newColumns ct rel, ks, ∅⟩ = (.ok (), n, t)) :
    ∃ w', w.createTableFrom ev ct rel = (.ok (), w') ∧
      w'.db.state = (st.cat.setTable ct.name t).bump := by
  have added : addConstraints ev w.db.state ct.name
      (sortConstraints (nameConstraints ct.constraints w.db.nextConstraint).1)
      ⟨w.evalState, (nameConstraints ct.constraints w.db.nextConstraint).2,
        w.db.state.setTable ct.name (.new ct.name (newColumns ct rel))⟩ = .ok () st :=
    prepared.added
  unfold createTableFrom
  simp only [prepared.free, Bool.false_eq_true, if_false, not_not.mpr prepared.named, added,
    prepared.found, filled]
  exact ⟨_, rfl, rfl⟩

/-- A single row always fits into the new table. -/
theorem fill_singleton (prepared : w.Prepared ev ct columns st ks) (row : Row) :
    ∃ t, Table.fill [row] w.db.nextRowId ⟨ct.name, columns, ks, ∅⟩ =
      (.ok (), w.db.nextRowId + 1, t) := by
  rcases Table.insert_cases ⟨ct.name, columns, ks, ∅⟩ w.db.nextRowId row with
    ⟨inserted, -⟩ | ⟨c, member, -, key, filed, other, found⟩
  · refine ⟨Table.write ⟨ct.name, columns, ks, ∅⟩ w.db.nextRowId row, ?_⟩
    simp only [Table.fill, inserted]
  · rw [prepared.unfiled c member row key filed] at found
    cases found

end Prepared

/-- A CREATE TABLE that succeeds has added every constraint to the empty table and then filled
it with the rows of its query. -/
theorem createTableFrom_ok (created : w.createTableFrom ev ct rel = (.ok (), w')) :
    ∃ st ks, w.Prepared ev ct (newColumns ct rel) st ks ∧ ∃ n u,
      Table.fill ((rel.map (·.rows)).getD []) w.db.nextRowId ⟨ct.name, newColumns ct rel, ks, ∅⟩ =
        (.ok (), n, u) ∧ w'.db.state = (st.cat.setTable ct.name u).bump := by
  unfold createTableFrom at created
  simp only at created
  split at created
  · cases created
  · next free =>
      split at created
      · cases created
      · next named =>
          split at created
          · cases created
          · next st equal =>
              have success : addConstraints ev w.db.state ct.name (w.declared ct)
                  (w.createStart ct (newColumns ct rel)) = .ok () st := equal
              obtain ⟨ks, found, unfiled, become⟩ := addConstraints_become
                (Catalog.table_setTable_self _ _ _) rfl (fun c member => by cases member) success
              simp only [found] at created
              split at created
              · cases created
              · next n u filled =>
                  cases created
                  exact ⟨st, ks, ⟨(Bool.not_eq_true _).mp free, not_not.mp named, success, found,
                    unfiled, become⟩, n, u, filled, rfl⟩

/-- Whatever table is created from a query's result satisfies its enabled constraints. -/
def Enforces (ev : Evaluator) (ct : CreateTable) (truth : Expr → Row → Option Bool) (w : World)
    (rel : Relation) : Prop :=
  ∀ w' t, w.createTableFrom ev ct (some rel) = (.ok (), w') → w'.db.state.table ct.name = some t →
    ∀ k ∈ t.constraints, k.enabled = true → k.Satisfied truth w'.db.state t

section Filled

variable {st : DdlState} {ks : List Constraint} {rel : Relation} {n : Nat} {t : Table}

/-- The table of a query's result satisfies a constraint exactly if the rows suit it. -/
theorem Prepared.satisfied_iff (prepared : w.Prepared ev ct columns st ks)
    (filled : Table.fill rel.rows w.db.nextRowId ⟨ct.name, columns, ks, ∅⟩ = (.ok (), n, t))
    (truth : Expr → Row → Option Bool) {k : Constraint} (member : k ∈ t.constraints)
    (enabled : k.enabled = true) :
    k.Satisfied truth (st.cat.setTable ct.name t).bump t ↔
      k.Suits truth w.db.state ct.name rel.rows := by
  obtain ⟨-, keeps, -⟩ := Table.fill_ok filled
  have covers : t.Covers := keeps fun c member => by
    intro id row key stored
    simp at stored
  exact Constraint.satisfied_iff_suits (covers.distinct member enabled)
    (fun row => Table.row_fill_iff filled rfl) fun other => prepared.tables other

/-- The rows of any query with these columns satisfy the constraints exactly if no row can break
one of them. -/
theorem Prepared.enforces_iff
    (prepared : w.Prepared ev ct (newColumns ct (some rel)) st ks)
    (truth : Expr → Row → Option Bool) :
    (∀ rows, (∀ row ∈ rows, TypedRow rel.cols row) → w.Enforces ev ct truth { rel with rows }) ↔
      ∀ k ∈ ks, k.enabled = true → k.Unbreakable truth w.db.state ct.name rel.cols := by
  constructor
  · intro enforces k member enabled
    refine Constraint.unbreakable_of_suits fun row typed => ?_
    -- The statement with this row alone succeeds, as no index knows a key yet.
    obtain ⟨u, filled⟩ := prepared.fill_singleton row
    obtain ⟨w', created, state⟩ :=
      @Prepared.created ev ct w (some { rel with rows := [row] }) st ks _ u prepared filled
    obtain ⟨schema, -, -⟩ := Table.fill_ok filled
    have shapes : u.constraints.map Constraint.shape = ks.map Constraint.shape :=
      Table.shapes_of_schema schema
    have among : k.shape ∈ u.constraints.map Constraint.shape := by
      rw [shapes]
      exact List.mem_map_of_mem member
    obtain ⟨k', member', same⟩ := List.mem_map.mp among
    have enabled' : k'.enabled = true := by
      rw [← Constraint.enabled_shape, same, Constraint.enabled_shape, enabled]
    have table : w'.db.state.table ct.name = some u := by
      rw [state, prepared.tables, if_pos rfl]
    have satisfied := enforces [row] (fun r here => List.mem_singleton.mp here ▸ typed) w' u
      created table k' member' enabled'
    rw [state] at satisfied
    have suits := (@Prepared.satisfied_iff ev ct w _ st ks { rel with rows := [row] } _ u prepared
      filled truth k' member' enabled').mp satisfied
    rw [← Constraint.suits_shape, ← same, Constraint.suits_shape]
    exact suits
  · intro unbreakable rows typed w' u created table k member enabled
    obtain ⟨st', ks', prepared', n, u', filled, state⟩ := createTableFrom_ok created
    have same : st' = st := by
      have added := prepared'.added.symm.trans prepared.added
      cases added
      rfl
    subst same
    obtain rfl : ks' = ks := by
      have stands := Option.some.inj (prepared'.found.symm.trans prepared.found)
      exact congrArg Table.constraints stands
    obtain rfl : u' = u := by
      rw [state, prepared'.tables, if_pos rfl] at table
      exact Option.some.inj table
    obtain ⟨schema, -, -⟩ := Table.fill_ok filled
    have shapes : u'.constraints.map Constraint.shape = ks'.map Constraint.shape :=
      Table.shapes_of_schema schema
    have among : k.shape ∈ ks'.map Constraint.shape := by
      rw [← shapes]
      exact List.mem_map_of_mem member
    obtain ⟨k', member', shape⟩ := List.mem_map.mp among
    have enabled' : k'.enabled = true := by
      rw [← Constraint.enabled_shape, shape, Constraint.enabled_shape, enabled]
    have kept : k.Unbreakable truth w.db.state ct.name rel.cols := by
      rw [← Constraint.unbreakable_shape, ← shape, Constraint.unbreakable_shape]
      exact unbreakable k' member' enabled'
    rw [state]
    exact (@Prepared.satisfied_iff ev ct w _ st' ks' { rel with rows } n u' prepared' filled truth k
      member enabled).mpr (kept.suits typed)

end Filled

/-- A CREATE TABLE AS SELECT that fails leaves the committed catalog as it was. One that succeeds
has copied the query's rows and declared the constraints. Its table and constraints, over
whatever rows a query gives for its columns, enforce the constraints exactly if each enabled one
is one that no row can break; and they are satisfied when the query returns no row. -/
theorem create_as_enforces_iff {q : Query} (asQuery : ct.asQuery = some q)
    (truth : Expr → Row → Option Bool) :
    (∀ e w', w.createTable ev binds ct = (.error e, w') → w'.db.state = w.db.state) ∧
      ∀ w', w.createTable ev binds ct = (.ok (), w') →
        ∃ rel eval t, ev.query ⟨w.db.state, binds, w.db.state, none⟩ q none w.evalState =
            .ok rel eval ∧
          w.db.state.table ct.name = none ∧ w'.db.state.table ct.name = some t ∧
          (∀ id : Nat, t.rows[id]? =
            if w.db.nextRowId ≤ id then rel.rows[id - w.db.nextRowId]? else none) ∧
          List.Forall₂ TableConstraint.Becomes (w.declared ct) t.constraints ∧
          ((∀ rows, (∀ row ∈ rows, TypedRow rel.cols row) →
              (w.setEval eval).Enforces ev ct truth { rel with rows }) ↔
            ∀ k ∈ t.constraints, k.enabled = true →
              k.Unbreakable truth w.db.state ct.name rel.cols) ∧
          (rel.rows = [] → ∀ k ∈ t.constraints, k.enabled = true →
            k.Satisfied truth w'.db.state t) := by
  unfold createTable createQuery
  rw [asQuery]
  simp only
  cases evaluated : ev.query ⟨w.db.state, binds, w.db.state, none⟩ q none w.evalState with
  | error e eval =>
      refine ⟨fun e' w' failed => ?_, fun w' created => ?_⟩
      · cases failed
        rfl
      · cases created
  | ok rel eval =>
      refine ⟨fun e w' failed => ?_, fun w' created => ?_⟩
      · have result : (w.setEval eval).createTableFrom ev ct (some rel) = (.error e, w') := failed
        have same := @createTableFrom_error ev ct (w.setEval eval) (some rel) e (by rw [result])
        rw [result] at same
        exact same
      · obtain ⟨st, ks, prepared, n, u, filled, state⟩ := createTableFrom_ok created
        obtain ⟨schema, -, -⟩ := Table.fill_ok filled
        have shapes : u.constraints.map Constraint.shape = ks.map Constraint.shape :=
          Table.shapes_of_schema schema
        refine ⟨rel, eval, u, rfl, Catalog.table_of_not_nameInUse prepared.free, ?_,
          Table.getElem?_fill filled rfl, becomes_of_shapes prepared.become shapes, ?_,
          fun none_ k member enabled => ?_⟩
        · rw [state, prepared.tables, if_pos rfl]
        · rw [prepared.enforces_iff]
          have through : ∀ ls : List Constraint, (∀ k ∈ ls, k.enabled = true →
              k.Unbreakable truth w.db.state ct.name rel.cols) ↔
              ∀ k ∈ ls.map Constraint.shape, k.enabled = true →
                k.Unbreakable truth w.db.state ct.name rel.cols := by
            intro ls
            rw [List.forall_mem_map]
            simp only [Constraint.enabled_shape, Constraint.unbreakable_shape]
          exact (through ks).trans (shapes ▸ (through u.constraints).symm)
        · rw [state]
          refine (@Prepared.satisfied_iff ev ct (w.setEval eval) _ st ks rel n u prepared filled
            truth k member enabled).mpr ?_
          rw [none_]
          obtain ⟨label, kind, isIndex, on⟩ := k
          cases kind <;> simp [Constraint.Suits]

end World

namespace CreateAs

/-- The engine with no other functions. -/
def evaluator : Evaluator := Engine.plain.evaluator (fun env _ _ => .ok env) 8

/-- A session of a new database. -/
def start : World := (System.new fun _ => Literal.env "SCOTT").world 0

/-- `CREATE TABLE t (c) AS SELECT e x FROM dual`. -/
def constrained (c : TableConstraint) (e : Expr) : CreateTable where
  name := "T"
  columns := []
  constraints := [c]
  asQuery := some (.mk (.select
    (.mk false [.expr e "X"] [.mk (.table "DUAL" none) []] none [] none)) [] none none)

/-- `CREATE TABLE t (CONSTRAINT t_pk PRIMARY KEY (x)) AS SELECT e x FROM dual`. -/
def keyed (e : Expr) : CreateTable := constrained (Literal.primaryKey "T_PK" "X") e

/-- `CREATE TABLE t (CONSTRAINT t_uk UNIQUE (x)) AS SELECT dummy x FROM dual`. -/
def unique : CreateTable :=
  constrained ⟨some "T_UK", .unique ["X"], true, true⟩ (.column none "DUMMY")

/-- Whether a constraint is a primary key and a row has a NULL in it. -/
def hasNullInKey (t : Table) (k : Constraint) : Bool :=
  match k.kind with
  | .unique columns true _ => t.hasNull columns
  | _ => false

end CreateAs

open CreateAs in
/-- The new table has a NULL in its primary key. -/
theorem create_as_null_key : ∃ w' t k, start.createTable evaluator [] (keyed (.literal .null)) =
      (.ok (), w') ∧ w'.db.state.table "T" = some t ∧ k ∈ t.constraints ∧ k.enabled = true ∧
      ∀ truth, ¬ k.Satisfied truth w'.db.state t := by
  have result : (match start.createTable evaluator [] (keyed (.literal .null)) with
      | (.ok _, w') => (w'.db.state.table "T").any fun t => t.constraints.any fun k =>
          k.enabled && hasNullInKey t k
      | (.error _, _) => false) = true := by decide +kernel
  split at result
  · next w' created =>
      obtain ⟨t, found, result⟩ := (Option.any_eq_true _ _).mp result
      obtain ⟨k, member, result⟩ := List.any_eq_true.mp result
      obtain ⟨enabled, null⟩ := (Bool.and_eq_true _ _).mp result
      refine ⟨w', t, k, created, found, member, enabled, fun truth satisfied => ?_⟩
      obtain ⟨name, kind, isIndex, on⟩ := k
      unfold hasNullInKey at null
      split at null
      · next columns index equal =>
          cases equal
          rw [Table.hasNull_eq_false.mpr (satisfied.2 rfl)] at null
          cases null
      · cases null
  · cases result

open CreateAs in
/-- The UNIQUE key of the new table holds whatever rows the query might return. -/
theorem create_as_enforces_unique : ∃ (w' : World) (rel : Relation) (eval : EvalState),
      start.createTable evaluator [] unique = (.ok (), w') ∧ ∀ rows, (∀ row ∈ rows, TypedRow rel.cols row) →
        (start.setEval eval).Enforces evaluator unique (fun _ _ => none) { rel with rows } := by
  have result : (match start.createTable evaluator [] unique with
      | (.ok _, w') => (w'.db.state.table "T").map fun t =>
          t.constraints.map fun k => (k.uniqueColumns, k.isPrimary)
      | (.error _, _) => none) = some [(some [0], false)] := by decide +kernel
  split at result
  · next w' created =>
      obtain ⟨t, found, columns⟩ := Option.map_eq_some_iff.mp result
      obtain ⟨rel, eval, t', -, -, found', -, -, enforces, -⟩ :=
        (@World.create_as_enforces_iff evaluator [] unique start _ rfl fun _ _ => none).2 w' created
      obtain rfl : t = t' := Option.some.inj (found.symm.trans found')
      refine ⟨w', rel, eval, created, enforces.mpr fun k member enabled => ?_⟩
      have own : (k.uniqueColumns, k.isPrimary) ∈
          t.constraints.map fun k => (k.uniqueColumns, k.isPrimary) := List.mem_map_of_mem member
      rw [columns, List.mem_singleton] at own
      obtain ⟨name, kind, isIndex, on⟩ := k
      cases kind with
      | unique positions primary index =>
          intro isPrimary
          have plain : primary = false := (Prod.mk.inj own).2
          rw [isPrimary] at plain
          cases plain
      | check condition => cases own
      | foreignKey positions parent parentColumns onDelete => cases own
      | index => cases own
  · cases result

end MockOracle
