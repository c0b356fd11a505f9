import MockOracle.System.WellFormed

/-!
# Dropping a constraint

DROP CONSTRAINT finds the constraint by its position in the table, then drops the foreign keys
that reference its key, and then drops what stands at that position. A self-referencing
foreign key that stands before the constraint moves it, so that another constraint is dropped
in its place or the position is past the end.
-/

namespace MockOracle

open Std Semantics

/-! ## Catalogs without some constraints -/

/-- A catalog with the constraints of each table that `keep` holds of, and unchanged otherwise. -/
structure Catalog.Retains (keep : String → Constraint → Bool) (cat cat' : Catalog) : Prop where
  tables : ∀ owner, cat'.table owner = (cat.table owner).map fun u =>
    { u with constraints := u.constraints.filter (keep owner) }
  sequences : cat'.sequences = cat.sequences
  routines : cat'.routines = cat.routines
  version : cat'.version = cat.version

namespace Catalog.Retains

variable {keep keep' : String → Constraint → Bool} {cat cat' cat'' : Catalog}

/-- Every catalog retains itself. -/
theorem refl (cat : Catalog) : cat.Retains (fun _ _ => true) cat where
  tables owner := by
    cases cat.table owner with
    | none => rfl
    | some u => rw [Option.map_some, List.filter_true]
  sequences := rfl
  routines := rfl
  version := rfl

/-- What is retained twice is retained. -/
theorem trans (first : cat.Retains keep cat') (second : cat'.Retains keep' cat'') :
    cat.Retains (fun owner k => keep owner k && keep' owner k) cat'' where
  tables owner := by
    rw [second.tables, first.tables, Option.map_map]
    congr 1
    funext u
    simp only [Function.comp_apply, List.filter_filter, Bool.and_comm]
  sequences := second.sequences.trans first.sequences
  routines := second.routines.trans first.routines
  version := second.version.trans first.version

/-- Only what is kept of the constraints that are there matters. -/
theorem congr (retains : cat.Retains keep cat')
    (agree : ∀ owner u, cat.table owner = some u → ∀ k ∈ u.constraints,
      keep owner k = keep' owner k) : cat.Retains keep' cat' where
  tables owner := by
    rw [retains.tables]
    cases found : cat.table owner with
    | none => rfl
    | some u =>
        simp only [Option.map_some]
        rw [List.filter_congr (agree owner u found)]
  sequences := retains.sequences
  routines := retains.routines
  version := retains.version

/-- Dropping a constraint retains all the others. -/
theorem dropConstraint (cat : Catalog) (table name : String) :
    cat.Retains (fun owner k => owner != table || (k.isIndex || k.name != name))
      (cat.modifyTable table (·.dropConstraint name)) := by
  cases found : cat.table table with
  | none =>
      rw [Catalog.modifyTable, found]
      refine (refl cat).congr fun owner u there k _ => ?_
      have other : owner ≠ table := by
        rintro rfl
        rw [found] at there
        cases there
      simp [other]
  | some t =>
      rw [modifyTable_of_found _ found]
      refine ⟨fun owner => ?_, rfl, rfl, rfl⟩
      rw [table_setTable]
      split
      · next same =>
          subst same
          rw [found, Option.map_some]
          simp [Table.dropConstraint]
      · next other =>
          have different : (owner != table) = true := by simpa using Ne.symm other
          simp only [different, Bool.true_or, List.filter_true]
          cases cat.table owner <;> rfl

/-- Dropping foreign keys retains all other constraints. -/
theorem dropForeignKeys (refs : List ForeignKeyRef) (cat : Catalog) :
    cat.Retains (fun owner k => refs.all fun f => owner != f.child || (k.isIndex || k.name != f.name))
      (dropForeignKeys refs cat) := by
  induction refs generalizing cat with
  | nil => exact refl cat
  | cons f rest ih =>
      refine ((dropConstraint cat f.child f.name).trans (ih _)).congr fun owner u found k member => ?_
      rw [List.all_cons]

end Catalog.Retains

/-! ## What goes with a constraint -/

namespace Constraint

/-- Whether a constraint is a foreign key on the key that `c` provides in `table`. -/
def refersTo (k : Constraint) (table : String) (c : Constraint) : Bool :=
  match c.uniqueColumns with
  | some columns => k.reference == some (table, columns)
  | none => false

/-- Whether a constraint of table `owner` goes when constraint `c` of `table` is dropped: it is
that one, or a foreign key on its key. -/
def goesWith (k : Constraint) (table : String) (c : Constraint) (owner : String) : Bool :=
  !k.isIndex && (owner == table && k.name == c.name || k.refersTo table c)

end Constraint

/-- A catalog is another one without a constraint and the foreign keys on its key. -/
def Catalog.DropsExactly (cat : Catalog) (table : String) (c : Constraint) (cat' : Catalog) : Prop :=
  cat.Retains (fun owner k => !k.goesWith table c owner) cat'

/-- A foreign key refers to what its reference says. -/
theorem Constraint.reference_of_ref {child : String} {k : Constraint} {f : ForeignKeyRef}
    (refers : Catalog.foreignKeyRef child k = some f) :
    k.reference = some (f.parent, f.parentColumns) ∧ f.child = child ∧ f.name = k.name := by
  obtain ⟨name, kind, isIndex, enabled⟩ := k
  cases kind with
  | foreignKey columns parent parentColumns onDelete =>
      cases refers
      exact ⟨rfl, rfl, rfl⟩
  | unique columns primary index => cases refers
  | check condition => cases refers
  | index => cases refers

namespace Catalog.Formed

variable {cat : Catalog} (formed : cat.Formed)

include formed

/-- Constraints of a table that are not indexes and have one name are one. -/
theorem eq_of_name {owner : String} {u : Table} (found : cat.table owner = some u)
    {k k' : Constraint} (member : k ∈ u.constraints) (member' : k' ∈ u.constraints)
    (declared : k.isIndex = false) (declared' : k'.isIndex = false) (same : k.name = k'.name) :
    k = k' := by
  refine List.inj_on_of_nodup_map (formed.ownNames found) ?_ ?_ same
  · exact List.mem_filter.mpr ⟨member, by simp [declared]⟩
  · exact List.mem_filter.mpr ⟨member', by simp [declared']⟩

omit formed in
/-- The foreign keys that go with the constraint at a position. -/
theorem dependents_of_getElem? {table : String} {t : Table} {c : Constraint} {i : Nat}
    (here : t.constraints[i]? = some c) : dependents cat table t i =
      match c.uniqueColumns with
      | none => []
      | some columns => cat.referencing table columns := by
  rw [dependents, here]
  rfl

/-- The foreign keys that go with a constraint are the ones dropped by name. -/
theorem dependents_iff {table owner : String} {t u : Table} {c k : Constraint} {i : Nat}
    (here : t.constraints[i]? = some c) (found : cat.table owner = some u)
    (member : k ∈ u.constraints) (declared : k.isIndex = false) :
    (∃ f ∈ dependents cat table t i, f.child = owner ∧ f.name = k.name) ↔
      k.refersTo table c = true := by
  rw [dependents_of_getElem? here, Constraint.refersTo]
  cases c.uniqueColumns with
  | none => simp
  | some columns =>
      simp only [Catalog.referencing, List.mem_filter, Catalog.mem_foreignKeys, Bool.and_eq_true,
        beq_iff_eq]
      constructor
      · rintro ⟨f, ⟨⟨owner', u', found', k', member', refers⟩, parent, positions⟩, child, name⟩
        obtain ⟨reference, child', name'⟩ := Constraint.reference_of_ref refers
        have same : owner' = owner := by
          rw [← formed.named found', ← child', child]
        subst same
        rw [found] at found'
        cases found'
        have declared' := (formed.constraints found k' member').declared (by rw [reference]; simp)
        have equal := formed.eq_of_name found member' member declared' declared
          (name'.symm.trans name)
        rw [← equal, reference, parent, positions]
      · intro reference
        obtain ⟨f, refers, child, name, parent, positions⟩ :=
          foreignKeyRef_of_reference reference u.name
        exact ⟨f, ⟨⟨owner, u, found, k, member, refers⟩, parent, positions⟩,
          child.trans (formed.named found), name⟩

/-- Dropping the dependents of a constraint drops the foreign keys on its key. -/
theorem dropsDependents (table : String) {t : Table} {c : Constraint} {i : Nat}
    (here : t.constraints[i]? = some c) :
    cat.Retains (fun _ k => k.isIndex || !k.refersTo table c)
      (dropForeignKeys (dependents cat table t i) cat) := by
  refine (Retains.dropForeignKeys (dependents cat table t i) cat).congr
    fun owner u found k member => ?_
  cases declared : k.isIndex with
  | true => simp
  | false =>
      have iff : (∃ f ∈ dependents cat table t i, f.child = owner ∧ f.name = k.name) ↔
          k.refersTo table c = true := formed.dependents_iff here found member declared
      rw [Bool.eq_iff_iff, List.all_eq_true, Bool.false_or, Bool.not_eq_true',
        ← Bool.not_eq_true, ← iff]
      simp only [Bool.false_or, Bool.or_eq_true, bne_iff_ne, ne_eq, not_exists, not_and]
      constructor
      · intro all f among child same
        rcases all f among with other | other
        · exact other child.symm
        · exact other same.symm
      · intro none f among
        by_cases child : f.child = owner
        · exact Or.inr fun same => none f among child same.symm
        · exact Or.inl fun same => child same.symm

end Catalog.Formed

/-! ## The position of the constraint -/

/-- A constraint found by its name stands at the position found and is no index. -/
theorem findConstraint_some {t : Table} {name : Option String} {i : Nat}
    (position : findConstraint t name = some i) :
    ∃ c, t.constraints[i]? = some c ∧ c.isIndex = false := by
  obtain ⟨inside, holds, -⟩ := List.findIdx?_eq_some_iff_getElem.mp position
  refine ⟨t.constraints[i], List.getElem?_eq_getElem inside, ?_⟩
  simp only [Bool.and_eq_true, Bool.not_eq_true'] at holds
  exact holds.1

/-- The constraints of a table that are left when the foreign keys on the key of `c` are gone. -/
def Table.remaining (t : Table) (table : String) (c : Constraint) : List Constraint :=
  t.constraints.filter fun k => k.isIndex || !k.refersTo table c

/-- No foreign key on the key of the constraint at position `i` stands before it. If one does,
an index of the same name would have to take its place. -/
def Table.Stays (t : Table) (table : String) (c : Constraint) (i : Nat) : Prop :=
  (∀ k ∈ t.constraints.take i, (k.isIndex || !k.refersTo table c) = true) ∨
    ∃ k, (t.remaining table c)[i]? = some k ∧ k.isIndex = true ∧ k.name = c.name

section Position

variable {table : String} {t : Table} {c : Constraint} {i : Nat}

/-- A constraint does not refer to itself. -/
theorem Constraint.refersTo_self (c : Constraint) (table : String) : c.refersTo table c = false := by
  obtain ⟨name, kind, isIndex, enabled⟩ := c
  cases kind with
  | unique columns primary index => rfl
  | check condition => rfl
  | foreignKey columns parent parentColumns onDelete => rfl
  | index => rfl

/-- The constraints before, the constraint itself, and those after it. -/
theorem constraints_split (here : t.constraints[i]? = some c) :
    t.constraints = t.constraints.take i ++ c :: t.constraints.drop (i + 1) := by
  obtain ⟨inside, rfl⟩ := List.getElem?_eq_some_iff.mp here
  rw [List.cons_getElem_drop_succ, List.take_append_drop]

/-- The constraints that remain are those around it that do not refer to it, and itself. -/
theorem remaining_split (here : t.constraints[i]? = some c) : t.remaining table c =
    (t.constraints.take i).filter (fun k => k.isIndex || !k.refersTo table c) ++
      c :: (t.constraints.drop (i + 1)).filter fun k => k.isIndex || !k.refersTo table c := by
  have kept : (c.isIndex || !c.refersTo table c) = true := by
    rw [c.refersTo_self table]
    simp
  rw [Table.remaining]
  conv => lhs; rw [constraints_split here]
  rw [List.filter_append, List.filter_cons, if_pos kept]

/-- Where nothing before the constraint goes, it keeps its position. -/
theorem remaining_of_stays (here : t.constraints[i]? = some c)
    (stays : ∀ k ∈ t.constraints.take i, (k.isIndex || !k.refersTo table c) = true) :
    (t.remaining table c)[i]? = some c := by
  have inside : i < t.constraints.length := (List.getElem?_eq_some_iff.mp here).1
  rw [remaining_split here, List.filter_eq_self.mpr stays,
    List.getElem?_append_right (by simp)]
  simp [Nat.min_eq_left inside.le]

/-- Where something before the constraint goes, what comes to its position stood after it. -/
theorem mem_drop_of_moved (here : t.constraints[i]? = some c) {k : Constraint}
    (moves : ¬ ∀ k ∈ t.constraints.take i, (k.isIndex || !k.refersTo table c) = true)
    (there : (t.remaining table c)[i]? = some k) : k ∈ t.constraints.drop (i + 1) := by
  have shorter : ((t.constraints.take i).filter fun k => k.isIndex || !k.refersTo table c).length <
      i := by
    have fewer : ((t.constraints.take i).filter fun k => k.isIndex || !k.refersTo table c).length <
        (t.constraints.take i).length := by
      refine List.length_filter_lt_length_iff_exists.mpr ?_
      simpa using moves
    exact fewer.trans_le (List.length_take_le _ _)
  rw [remaining_split here, List.getElem?_append_right shorter.le] at there
  obtain ⟨n, position⟩ : ∃ n, i - ((t.constraints.take i).filter fun k =>
      k.isIndex || !k.refersTo table c).length = n + 1 := ⟨_, (Nat.succ_pred_eq_of_pos (by omega)).symm⟩
  rw [position, List.getElem?_cons_succ] at there
  exact (List.mem_filter.mp (List.mem_of_getElem? there)).1

end Position

/-! ## ALTER TABLE DROP CONSTRAINT -/

section DropConstraint

variable {ev : Evaluator} {committed : Catalog} {table : String} {t : Table} {c : Constraint}
  {i : Nat} {name : Option String} {cascade : Bool} {st st' : DdlState}

/-- What is dropped is the constraint of the name found at the position after the foreign keys
are gone. -/
theorem dropTableConstraint_ok (formed : st.cat.Formed) (found : st.cat.table table = some t)
    (position : findConstraint t name = some i) (here : t.constraints[i]? = some c)
    (success : alterTable ev committed table (.dropConstraint name cascade) st = .ok () st') :
    st.cat.Retains (fun owner k => (k.isIndex || !k.refersTo table c) && (owner != table ||
      (k.isIndex || k.name != (((t.remaining table c)[i]?).map (·.name)).getD ""))) st'.cat := by
  have gone := formed.dropsDependents table here
  have there : (dropForeignKeys (dependents st.cat table t i) st.cat).table table =
      some { t with constraints := t.remaining table c } := by
    rw [gone.tables, found]
    rfl
  simp only [alterTable, found, dropTableConstraint, position] at success
  split at success
  · cases success
  · cases success
    have dropped := gone.trans (.dropConstraint _ table
      ((((t.remaining table c)[i]?).map (·.name)).getD ""))
    rw [Catalog.modifyTable_of_found _ there] at dropped ⊢
    exact dropped

/-- What the positions in the source refer to: the constraint's position is still one in the table
once the foreign keys are gone. -/
def PositionInRange (cat : Catalog) (table : String) (t : Table) (i : Nat) : Prop :=
  ∃ u, (dropForeignKeys (dependents cat table t i) cat).table table = some u ∧
    i < u.constraints.length

/-- The position is in range if and only if a constraint remains at it. -/
theorem positionInRange_iff (formed : st.cat.Formed) (found : st.cat.table table = some t)
    (here : t.constraints[i]? = some c) :
    PositionInRange st.cat table t i ↔ ∃ k, (t.remaining table c)[i]? = some k := by
  have there : (dropForeignKeys (dependents st.cat table t i) st.cat).table table =
      some { t with constraints := t.remaining table c } := by
    rw [(formed.dropsDependents table here).tables, found]
    rfl
  unfold PositionInRange
  rw [there]
  constructor
  · rintro ⟨u, same, inside⟩
    cases same
    exact ⟨_, List.getElem?_eq_getElem inside⟩
  · rintro ⟨k, position⟩
    exact ⟨_, rfl, (List.getElem?_eq_some_iff.mp position).1⟩

/-- DROP CONSTRAINT or DROP PRIMARY KEY that succeeds stays within the table and leaves the
catalog without the constraint and the foreign keys on its key, and otherwise as it was, exactly
when none of these foreign keys stands before it in its table. -/
theorem drop_constraint_exact_iff (formed : st.cat.Formed) (found : st.cat.table table = some t)
    (position : findConstraint t name = some i) (here : t.constraints[i]? = some c)
    (success : alterTable ev committed table (.dropConstraint name cascade) st = .ok () st') :
    PositionInRange st.cat table t i ∧ st.cat.DropsExactly table c st'.cat ↔
      t.Stays table c i := by
  have declared : c.isIndex = false := by
    obtain ⟨c', here', declared⟩ := findConstraint_some position
    rw [here] at here'
    cases here'
    exact declared
  have member : c ∈ t.constraints := List.mem_of_getElem? here
  have retains := dropTableConstraint_ok formed found position here success
  rw [positionInRange_iff formed found here]
  -- Only the name of what stands at the position matters.
  have exactly : ∀ k, (t.remaining table c)[i]? = some k →
      (st.cat.DropsExactly table c st'.cat ↔ k.name = c.name) := by
    intro k there
    rw [there, Option.map_some, Option.getD_some] at retains
    constructor
    · intro drops
      by_contra other
      have both := (drops.tables table).symm.trans (retains.tables table)
      rw [found, Option.map_some, Option.map_some, Option.some_inj, Table.mk.injEq] at both
      have left : c ∉ t.constraints.filter fun k => !k.goesWith table c table := by
        simp [List.mem_filter, Constraint.goesWith, declared]
      rw [both.2.2.1] at left
      refine left (List.mem_filter.mpr ⟨member, ?_⟩)
      simp [declared, c.refersTo_self table, Ne.symm other]
    · intro same
      refine retains.congr fun owner u _ d _ => ?_
      simp only [same, Constraint.goesWith, bne]
      cases d.isIndex <;> cases d.refersTo table c <;> cases owner == table <;>
        cases d.name == c.name <;> rfl
  constructor
  · rintro ⟨⟨k, there⟩, drops⟩
    by_cases stays : ∀ k ∈ t.constraints.take i, (k.isIndex || !k.refersTo table c) = true
    · exact Or.inl stays
    · have same := (exactly k there).mp drops
      refine Or.inr ⟨k, there, ?_, same⟩
      by_contra index
      have moved := mem_drop_of_moved here stays there
      have distinct := formed.ownNames found
      rw [Table.constraintNames, constraints_split here, List.filter_append, List.map_append,
        List.nodup_append] at distinct
      have once := distinct.2.1
      rw [List.filter_cons, if_pos (by simp [declared]), List.map_cons, List.nodup_cons] at once
      refine once.1 (List.mem_map.mpr ⟨k, List.mem_filter.mpr ⟨moved, ?_⟩, same⟩)
      simpa using index
  · rintro (stays | ⟨k, there, -, same⟩)
    · have there := remaining_of_stays here stays
      exact ⟨⟨c, there⟩, (exactly c there).mpr rfl⟩
    · exact ⟨⟨k, there⟩, (exactly k there).mpr same⟩

end DropConstraint

namespace System

/-- A table with a primary key, a foreign key on it, a second unique constraint over the same
column, and a CHECK, in this order. -/
def selfReferring : System :=
  (new fun _ => Literal.env "SCOTT").runAll literalEvaluator
    [.sql 0 (Literal.createTable "T" ["ID", "P"] [Literal.primaryKey "T_PK" "ID"]),
      .sql 0 (.alterTable "T" (.addConstraints [Literal.references "T_FK" "P" "T" .restrict])),
      .sql 0 (.alterTable "T" (.addConstraints [⟨some "T_UQ", .unique ["ID"], true, true⟩])),
      .sql 0 (.alterTable "T" (.addConstraints
        [⟨some "T_CK", .check (.isNull (.column none "P") false), true, true⟩]))]

/-- The sample catalog is well formed. -/
theorem selfReferring_formed : selfReferring.db.state.Formed :=
  (reachable_runAll literalEvaluator _ _ : Reachable _ selfReferring).formed.state

/-- ALTER TABLE starts from the committed catalog. -/
def selfReferringStart : DdlState :=
  ⟨(selfReferring.world 0).evalState, selfReferring.db.nextConstraint, selfReferring.db.state⟩

/-- The constraints of T, in order. -/
theorem selfReferring_table : ∃ t, selfReferring.db.state.table "T" = some t ∧
    t.constraints.map (fun c => (c.name, c.isIndex)) =
      [("T_PK", false), ("T_FK", false), ("T_UQ", false), ("T_CK", false)] := by
  have names : (selfReferring.db.state.table "T").map (fun t =>
      t.constraints.map fun c => (c.name, c.isIndex)) =
      some [("T_PK", false), ("T_FK", false), ("T_UQ", false), ("T_CK", false)] := by
    decide +kernel
  obtain ⟨t, found, equal⟩ := Option.map_eq_some_iff.mp names
  exact ⟨t, found, equal⟩

/-- Dropping T_UQ with CASCADE leaves T_PK and T_UQ. -/
theorem selfReferring_dropUnique :
    (selfReferring.db.state.table "T").map (fun t => findConstraint t (some "T_UQ")) =
      some (some 2) ∧
    (match alterTable literalEvaluator selfReferring.db.state "T"
      (.dropConstraint (some "T_UQ") true) selfReferringStart with
    | .ok _ st => (st.cat.table "T").map fun u => u.constraints.map fun c => (c.name, c.isIndex)
    | .error _ _ => none) = some [("T_PK", false), ("T_UQ", false)] := by
  decide +kernel

/-- DROP CONSTRAINT T_UQ CASCADE drops T_CK and leaves T_UQ. -/
theorem drop_constraint_wrong :
    ∃ t c st', selfReferring.db.state.table "T" = some t ∧
      findConstraint t (some "T_UQ") = some 2 ∧ t.constraints[2]? = some c ∧
      alterTable literalEvaluator selfReferring.db.state "T" (.dropConstraint (some "T_UQ") true)
        selfReferringStart = .ok () st' ∧
      (st'.cat.table "T").map (fun u => u.constraints.map (·.name)) = some ["T_PK", "T_UQ"] ∧
      ¬ selfReferring.db.state.DropsExactly "T" c st'.cat := by
  obtain ⟨t, found, names⟩ := selfReferring_table
  obtain ⟨position, result⟩ := selfReferring_dropUnique
  rw [found] at position
  split at result
  · next st' success =>
      obtain ⟨u, foundU, left⟩ := Option.map_eq_some_iff.mp result
      obtain ⟨c, here, -⟩ := findConstraint_some (Option.some.inj position)
      have name : c.name = "T_UQ" := by
        have third := congrArg (fun l => l[2]?) names
        simp only [List.getElem?_map, here, Option.map_some] at third
        exact congrArg Prod.fst (Option.some.inj third)
      refine ⟨t, c, st', found, Option.some.inj position, here, success, ?_, fun drops => ?_⟩
      · rw [foundU, Option.map_some, show u.constraints.map (·.name) =
          (u.constraints.map fun c => (c.name, c.isIndex)).map Prod.fst by simp, left]
        rfl
      · have remains : ("T_UQ", false) ∈ u.constraints.map fun c => (c.name, c.isIndex) := by
          rw [left]
          simp
        obtain ⟨k, member, equal⟩ := List.mem_map.mp remains
        obtain ⟨sameName, declared⟩ := Prod.mk.inj equal
        have tables := drops.tables "T"
        rw [foundU, found, Option.map_some, Option.some_inj] at tables
        rw [tables] at member
        have kept := (List.mem_filter.mp member).2
        simp [Constraint.goesWith, declared, sameName, name] at kept
  · cases result

/-- Dropping the primary key with CASCADE goes through. -/
theorem selfReferring_dropPrimary :
    (selfReferring.db.state.table "T").map (fun t => findConstraint t none) = some (some 0) ∧
    (match alterTable literalEvaluator selfReferring.db.state "T"
      (.dropConstraint none true) selfReferringStart with
    | .ok _ _ => true
    | .error _ _ => false) = true := by
  decide +kernel

/-- DROP PRIMARY KEY CASCADE drops the primary key, which nothing stands before, and the foreign
key on it. -/
theorem drop_constraint_exact_primary :
    ∃ c st', alterTable literalEvaluator selfReferring.db.state "T" (.dropConstraint none true)
        selfReferringStart = .ok () st' ∧ c.name = "T_PK" ∧
      selfReferring.db.state.DropsExactly "T" c st'.cat := by
  obtain ⟨t, found, names⟩ := selfReferring_table
  obtain ⟨position, result⟩ := selfReferring_dropPrimary
  rw [found] at position
  split at result
  · next st' success =>
      obtain ⟨c, here, -⟩ := findConstraint_some (Option.some.inj position)
      have name : c.name = "T_PK" := by
        have first := congrArg (fun l => l[0]?) names
        simp only [List.getElem?_map, here, Option.map_some] at first
        exact congrArg Prod.fst (Option.some.inj first)
      have exactly := @drop_constraint_exact_iff literalEvaluator selfReferring.db.state "T" t c 0 none
        true selfReferringStart st' selfReferring_formed found (Option.some.inj position) here success
      exact ⟨c, st', success, name, (exactly.mpr (Or.inl (by simp))).2⟩
  · cases result

end System

end MockOracle
