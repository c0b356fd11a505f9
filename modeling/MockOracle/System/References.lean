import MockOracle.Session.References
import MockOracle.System.RowConstraints

/-!
# Referential integrity

A successful statement leaves every enabled foreign key satisfied if it found them so: every child
row whose key has no NULL has a parent row with these values. The one exception are keys that are
told apart by their values but not by their strings, where such a key is looked up.
-/

namespace MockOracle

open Std Semantics

section Statements

variable {ctx : Dml} {st st' : DmlState} {stmt : DmlStatement}

/-- A successful statement leaves every enabled foreign key satisfied exactly when the lookups of
its enforcement have been right. -/
theorem references_hold_iff (sound : st.txn.work.Sound st.nextRowId) (exact_ : st.txn.work.Exact)
    (satisfied : ∀ f ∈ st.txn.work.foreignKeys.filter (·.enabled), f.Satisfied st.txn.work)
    {r : Nat × List Row} (success : ctx.run stmt st = .ok r st') :
    (∀ f ∈ st'.txn.work.foreignKeys.filter (·.enabled), f.Satisfied st'.txn.work) ↔
      LooksUpRight (st.txn.work.foreignKeys.filter (·.enabled)) (ctx.turns stmt st) := by
  obtain ⟨after, outcome, enforced⟩ := run_ok success
  obtain ⟨edits, extends_, landed⟩ := statement_landed ctx sound stmt
  rw [outcome] at extends_ landed
  have logged : after.txn.log = st.txn.log ++ Edit.log edits := extends_.grows.logged
  have exactAfter : after.txn.work.Exact := extends_.grows.run.exact exact_
  have turns : ctx.turns stmt st =
      enforcementTurns after.eval.env.user st.txn.log.length after.txn := by
    rw [Dml.turns, outcome]
  have run := enforceForeignKeys_run after.eval.env.user st.txn.log.length
    (fun name t found => (exactAfter name t found).covers)
  rw [enforced] at run
  have fks : after.txn.work.foreignKeys = st.txn.work.foreignKeys :=
    Catalog.foreignKeys_of_schema extends_.grows.schema
  have fks' : st'.txn.work.foreignKeys = st.txn.work.foreignKeys :=
    (Catalog.foreignKeys_of_schema run.grows.schema).trans fks
  rw [fks', turns, ← fks]
  constructor
  · exact run.looksUpRight
  · intro right
    have dropped : after.txn.log.drop st.txn.log.length = Edit.log edits := by
      rw [logged, List.drop_left]
    obtain ⟨cascaded, grows⟩ : ∃ cascaded, after.txn.Grows cascaded st'.txn := ⟨_, run.grows⟩
    have whole := extends_.grows.trans grows
    have finalLog : st'.txn.log.drop st.txn.log.length = Edit.log (edits ++ cascaded) := by
      rw [whole.logged, List.drop_left]
    refine enforceForeignKeys_satisfied exactAfter right enforced (fun f member => ?_)
      whole.run finalLog.symm
    -- Before the statement, every child row has its parent.
    have start : f.Accounted (Spared (enforcementTurns after.eval.env.user st.txn.log.length
        after.txn) f) st.txn.work (st'.txn.log.drop st.txn.log.length) [] :=
      fun id row key _ found filed => Or.inr (Or.inl
        (satisfied f (fks ▸ member) id row found (foreignKey_isSome.mp ⟨key, filed⟩)))
    rw [dropped, ← List.nil_append (Edit.log edits)]
    refine start.grows extends_.grows.run ?_ landed exactAfter fun some_ => ?_
    · rw [finalLog, Edit.log_append]
      exact List.subset_append_left _ _
    · obtain ⟨turn, first, found⟩ := exists_first_turn_of_entries enforced member (dropped ▸ some_)
      have here := right turn first f member
      rwa [found] at here

/-- The enforcement finds exact indexes at each of its turns. -/
theorem Dml.exact_at_turn (sound : st.txn.work.Sound st.nextRowId) (exact_ : st.txn.work.Exact)
    {turn : Turn} (member : turn ∈ ctx.turns stmt st) : turn.txn.work.Exact := by
  obtain ⟨edits, extends_⟩ := statement_extends ctx sound stmt
  unfold Dml.turns at member
  cases outcome : ctx.statement stmt st with
  | error e after =>
      rw [outcome] at member
      cases member
  | ok r after =>
      rw [outcome] at member extends_
      have exactAfter : after.txn.work.Exact := extends_.grows.run.exact exact_
      have run := enforceForeignKeys_run after.eval.env.user st.txn.log.length
        (fun name t found => (exactAfter name t found).covers)
      obtain ⟨before, later, split⟩ := List.append_of_mem member
      simp only at split
      rw [split] at run
      obtain ⟨_, first, -, -⟩ := run.at_turn
      exact first.grows.run.exact exactAfter

end Statements

/-! ## Concrete catalogs -/

/-- Every entry of every index is the key of its row, and every key has its entry. -/
def Catalog.indexed (cat : Catalog) : Bool :=
  cat.tables.toList.all fun table => table.2.constraints.all fun c =>
    (c.index.toList.all fun entry => (table.2.rows[entry.2]?).any fun row => c.key row == some entry.1) &&
      table.2.rows.toList.all fun row => (c.key row.2).all fun key => c.index[key]? == some row.1

theorem Catalog.exact_of_indexed {cat : Catalog} (indexed : cat.indexed = true) : cat.Exact := by
  intro name t found c member
  have here := List.all_eq_true.mp indexed (name, t)
    (ExtTreeMap.mem_toList_iff_getElem?_eq_some.mpr found)
  obtain ⟨entries, keys⟩ := (Bool.and_eq_true _ _).mp (List.all_eq_true.mp here c member)
  rw [Constraint.exact_iff]
  intro key id
  constructor
  · intro entry
    have checked := List.all_eq_true.mp entries (key, id)
      (ExtTreeMap.mem_toList_iff_getElem?_eq_some.mpr entry)
    obtain ⟨row, stored, filed⟩ := (Option.any_eq_true _ _).mp checked
    exact ⟨row, stored, eq_of_beq filed⟩
  · rintro ⟨row, stored, filed⟩
    have checked := List.all_eq_true.mp keys (id, row)
      (ExtTreeMap.mem_toList_iff_getElem?_eq_some.mpr stored)
    rw [filed] at checked
    exact eq_of_beq checked

namespace ForeignKeyRef

/-- Without child rows there is nothing to satisfy. -/
theorem satisfied_of_childless {fks : List ForeignKeyRef} {cat : Catalog}
    (childless : (fks.all fun f => (f.childRows cat).isEmpty) = true) :
    ∀ f ∈ fks, f.Satisfied cat := by
  intro f member id row found
  have none_ := List.isEmpty_iff.mp (List.all_eq_true.mp childless f member)
  obtain ⟨t, isChild, stored⟩ := Option.bind_eq_some_iff.mp found
  have among := (@mem_childRows f cat t isChild (id, row)).mpr stored
  rw [none_] at among
  cases among

/-- Keys of one column are looked up right. -/
theorem lookupRight_of_single {f : ForeignKeyRef} {cat : Catalog} {i j : Nat} (exact_ : cat.Exact)
    (columns : f.columns = [i]) (parentColumns : f.parentColumns = [j]) (row : Row) :
    f.LookupRight cat row := by
  intro key filed holds
  obtain ⟨t, isParent, found⟩ := (Option.any_eq_true _ _).mp holds
  rw [Table.hasKey_eq_scanKey (exact_ _ _ isParent)] at found
  obtain ⟨id, p, stored, filedP⟩ := Table.scanKey_iff.mp found
  refine ⟨id, p, (Edit.rowAt_of_found isParent id).trans stored, ?_⟩
  have texts : keyString [cell row i] = keyString [cell p j] := by
    rw [columns] at filed
    rw [parentColumns] at filedP
    unfold foreignKey at filed
    unfold uniqueKey at filedP
    split at filed
    · cases filed
    · split at filedP
      · cases filedP
      · exact Option.some.inj (filed.trans filedP.symm)
  rw [SameKey, columns, parentColumns]
  exact .cons (keyString_single_eq_iff.mp texts) .nil

end ForeignKeyRef

/-- Where every foreign key has one column, all lookups of an enforcement are right. -/
theorem Dml.looksUpRight_of_single {ctx : Dml} {stmt : DmlStatement} {st : DmlState}
    (sound : st.txn.work.Sound st.nextRowId) (exact_ : st.txn.work.Exact) {fks : List ForeignKeyRef}
    (single : ∀ f ∈ fks, (∃ i, f.columns = [i]) ∧ ∃ j, f.parentColumns = [j]) :
    LooksUpRight fks (ctx.turns stmt st) := by
  intro turn among f member id row _ _
  obtain ⟨⟨i, columns⟩, j, parentColumns⟩ := single f member
  exact ForeignKeyRef.lookupRight_of_single (Dml.exact_at_turn sound exact_ among) columns
    parentColumns row

namespace System

/-- A table of two VARCHAR2 columns. -/
def pairTable (name : String) (constraint : TableConstraint) : Statement :=
  .createTable ⟨name, ["A", "B"].map fun c => ⟨c, .varchar2 9, none, false, false⟩, [constraint], none⟩

/-- A parent whose key reads as another pair of strings. -/
def ambiguousParent : System :=
  (new fun _ => Literal.env "SCOTT").runAll literalEvaluator
    [.sql 0 (pairTable "P" ⟨some "P_PK", .primaryKey ["A", "B"], true, true⟩),
      .sql 0 (pairTable "C" ⟨some "C_FK", .foreignKey ["A", "B"] "P" [] .restrict, true, true⟩),
      .sql 0 (Literal.insert "P" [.varchar2 "a\x01sb", .varchar2 "c"])]

/-- The pair that the parent's key reads as. -/
def insertOrphan : DmlStatement :=
  .insert ⟨"C", none, .values [.literal (.varchar2 "a"), .literal (.varchar2 "b\x01sc")], none⟩

/-- Some child row without a NULL in an enabled foreign key has a key whose texts no parent row
has. -/
def orphaned (cat : Catalog) : Bool :=
  (cat.foreignKeys.filter (·.enabled)).any fun f => (f.childRows cat).any fun row =>
    !(keyValues f.columns row.2).any Value.isNull &&
      ((cat.table f.parent).map fun t => t.rows.toList).all fun rows => rows.all fun p =>
        (keyValues f.columns row.2).map keyTokens.text !=
          (keyValues f.parentColumns p.2).map keyTokens.text

theorem not_satisfied_of_orphaned {cat : Catalog} (isOrphaned : orphaned cat = true) :
    ∃ f ∈ cat.foreignKeys.filter (·.enabled), ¬ f.Satisfied cat := by
  obtain ⟨f, member, isOrphaned⟩ := List.any_eq_true.mp isOrphaned
  refine ⟨f, member, fun satisfied => ?_⟩
  obtain ⟨⟨id, row⟩, among, isOrphaned⟩ := List.any_eq_true.mp isOrphaned
  obtain ⟨filled, lost⟩ := (Bool.and_eq_true _ _).mp isOrphaned
  have complete : Complete f.columns row := by simpa [Complete] using filled
  obtain ⟨t, isChild⟩ : ∃ t, cat.table f.child = some t := by
    cases isChild : cat.table f.child with
    | some t => exact ⟨t, rfl⟩
    | none =>
        rw [ForeignKeyRef.childRows_of_missing isChild] at among
        cases among
  have stored := (ForeignKeyRef.mem_childRows isChild).mp among
  obtain ⟨parentId, p, storedP, same⟩ :=
    satisfied id row ((Edit.rowAt_of_found isChild id).trans stored) complete
  obtain ⟨u, isParent, storedU⟩ := Option.bind_eq_some_iff.mp storedP
  rw [isParent] at lost
  have differs := List.all_eq_true.mp lost (parentId, p)
    (ExtTreeMap.mem_toList_iff_getElem?_eq_some.mpr storedU)
  simp only [bne_iff_ne, ne_eq] at differs
  exact differs (forall_same_iff.mp same)

theorem ambiguousParent_insertOrphan :
    (ambiguousParent.world 0).dmlState.txn.work.indexed = true ∧
    (((ambiguousParent.world 0).dmlState.txn.work.foreignKeys.filter (·.enabled)).all fun f =>
      (f.childRows (ambiguousParent.world 0).dmlState.txn.work).isEmpty) = true ∧
    (match ambiguousParent.dmlContext.run insertOrphan
      (ambiguousParent.world 0).dmlState with
    | .ok _ st' => orphaned st'.txn.work
    | .error _ _ => false) = true := by
  decide +kernel

/-- The INSERT succeeds, and its row references a key that the parent table does not have. -/
theorem reference_dangles :
    (ambiguousParent.world 0).dmlState.txn.work.Exact ∧
      (∀ f ∈ (ambiguousParent.world 0).dmlState.txn.work.foreignKeys.filter (·.enabled),
        f.Satisfied (ambiguousParent.world 0).dmlState.txn.work) ∧
      ∃ r st', ambiguousParent.dmlContext.run insertOrphan (ambiguousParent.world 0).dmlState =
          .ok r st' ∧
        ∃ f ∈ st'.txn.work.foreignKeys.filter (·.enabled), ¬ f.Satisfied st'.txn.work := by
  obtain ⟨indexed, childless, result⟩ := ambiguousParent_insertOrphan
  refine ⟨Catalog.exact_of_indexed indexed, ForeignKeyRef.satisfied_of_childless childless, ?_⟩
  split at result
  · next r st' success => exact ⟨r, st', success, not_satisfied_of_orphaned result⟩
  · cases result

/-- A row that references itself by the ambiguous key. -/
def selfReference : System :=
  (new fun _ => Literal.env "SCOTT").runAll literalEvaluator
    [.sql 0 (.createTable ⟨"T", ["A", "B", "C", "D"].map fun c => ⟨c, .varchar2 9, none, false, false⟩,
      [⟨some "T_PK", .primaryKey ["A", "B"], true, true⟩,
        ⟨some "T_FK", .foreignKey ["C", "D"] "T" [] .restrict, true, true⟩], none⟩),
      .sql 0 (Literal.insert "T" [.varchar2 "a\x01sb", .varchar2 "c", .varchar2 "a\x01sb",
        .varchar2 "c"])]

/-- The UPDATE of the key and of the reference to the pair that the key reads as. -/
def updateBoth : DmlStatement :=
  .update ⟨"T", none, [("A", .literal (.varchar2 "a")), ("B", .literal (.varchar2 "b\x01sc")),
    ("C", .literal (.varchar2 "a")), ("D", .literal (.varchar2 "b\x01sc"))], none, none⟩

/-- Every child row without a NULL has a parent row with the texts of its key. -/
def referenced (fks : List ForeignKeyRef) (cat : Catalog) : Bool :=
  fks.all fun f => (f.childRows cat).all fun row =>
    (cat.table f.parent).any fun t => t.rows.toList.any fun p =>
      (keyValues f.columns row.2).map keyTokens.text ==
        (keyValues f.parentColumns p.2).map keyTokens.text

theorem heldFor_of_referenced {fks : List ForeignKeyRef} {cat : Catalog}
    (held : referenced fks cat = true) {f : ForeignKeyRef} (member : f ∈ fks) {id : Nat} {row : Row}
    (found : cat.rowAt (f.child, id) = some row) : f.HeldFor cat row := by
  obtain ⟨t, isChild, stored⟩ := Option.bind_eq_some_iff.mp found
  have here := List.all_eq_true.mp (List.all_eq_true.mp held f member) (id, row)
    ((ForeignKeyRef.mem_childRows isChild).mpr stored)
  obtain ⟨parent, isParent, here⟩ := (Option.any_eq_true _ _).mp here
  obtain ⟨⟨parentId, p⟩, among, texts⟩ := List.any_eq_true.mp here
  exact ⟨parentId, p, (Edit.rowAt_of_found isParent parentId).trans
    (ExtTreeMap.mem_toList_iff_getElem?_eq_some.mp among), forall_same_iff.mpr (eq_of_beq texts)⟩

theorem selfReference_updateBoth :
    let start := (selfReference.world 0).dmlState
    let fks := start.txn.work.foreignKeys.filter (·.enabled)
    start.txn.work.indexed = true ∧ referenced fks start.txn.work = true ∧
    ((selfReference.dmlContext.turns updateBoth start).all fun turn =>
      referenced fks turn.txn.work) = true ∧
    (match selfReference.dmlContext.run updateBoth start with
    | .ok _ _ => true
    | .error _ _ => false) = true := by
  decide +kernel

/-- The row references itself after the UPDATE, by a key that has the same string as the one
before. -/
theorem references_hold_update : ∃ r st',
    selfReference.dmlContext.run updateBoth (selfReference.world 0).dmlState = .ok r st' ∧
      ∀ f ∈ st'.txn.work.foreignKeys.filter (·.enabled), f.Satisfied st'.txn.work := by
  have reachable : Reachable literalEvaluator selfReference := reachable_runAll _ _ _
  obtain ⟨indexed, before, turns, result⟩ := selfReference_updateBoth
  split at result
  · next r st' success =>
      refine ⟨r, st', success, (references_hold_iff (reachable.valid.world 0).dmlTxn.work_sound
        (Catalog.exact_of_indexed indexed) (fun f member id row found _ =>
          heldFor_of_referenced before member found) success).mpr ?_⟩
      intro turn among f member id row _ found _ _ _
      exact heldFor_of_referenced (List.all_eq_true.mp turns turn among) member found
  · cases result

end System

end MockOracle
