import MockOracle.Session.Consistent
import MockOracle.System.LostUpdate
import MockOracle.System.References

/-!
# COMMIT and consistency

Of a committed catalog and a transaction that each satisfy their constraints, COMMIT can make a
committed catalog that does not: statements are checked against the transaction's own copy, and
replay checks unique keys only. The rows that go wrong are those that `Merges` rules out.
-/

namespace MockOracle

open Std Semantics

/-- COMMIT takes over the private catalog if nobody has published meanwhile. -/
theorem World.commit_fast {w : World} {txn : Txn} (open_ : w.session.txn = some txn)
    (some_ : txn.log ≠ []) (same : w.db.state.version = txn.baseVersion) :
    w.commit.2.db.state = { txn.work with version := txn.baseVersion + 1 } := by
  have notEmpty : txn.log.isEmpty = false := by simpa using some_
  have published : txn.publish w.session.env.user w.db.state =
      .ok { txn.work with version := txn.baseVersion + 1 } := if_pos same
  simp only [World.commit, open_, notEmpty, published]
  rfl

namespace System

variable {ev : Evaluator} {sys sys' : System}

theorem deletesLast_put {i : Nat} {w : World} (holds : ∀ j, (sys.world j).DeletesLast)
    (here : w.DeletesLast) : ∀ j, ((sys.put i w).world j).DeletesLast := by
  intro j txn open_
  by_cases same : j = i
  · subst same
    rw [show ((sys.put j w).world j).session = w.session from Function.update_self ..] at open_
    exact here txn open_
  · rw [show ((sys.put i w).world j).session = sys.sessions j from
      Function.update_of_ne same ..] at open_
    exact holds j txn open_

theorem Valid.deletesLast_act (valid : sys.Valid) (ev : Evaluator) (request : Request)
    (holds : ∀ i, (sys.world i).DeletesLast) :
    ∀ i, ((sys.act ev request).2.world i).DeletesLast := by
  have steps := World.stepwise_deletesLast ev
  cases request with
  | execute i utc localTime command =>
      exact deletesLast_put holds (valid.stepwise steps i utc localTime command (holds i))
  | commit i => exact deletesLast_put holds (steps.commit (valid.world i) (holds i))
  | rollback i => exact deletesLast_put holds (steps.closed _ (holds i))
  | rollbackTo i savepoint =>
      exact deletesLast_put holds (steps.rollbackTo (valid.world i) savepoint (holds i))
  | connect i env => exact deletesLast_put holds (World.deletesLast_closed rfl)
  | snapshot => exact holds
  | restore position =>
      simp only [System.act]
      split
      · exact holds
      · exact holds
  | reset => exact holds

/-- No open transaction has touched a row again that it has deleted. -/
theorem Reachable.deletesLast (reachable : Reachable ev sys) : ∀ i, (sys.world i).DeletesLast := by
  obtain ⟨envs, events, run⟩ := reachable
  have both : sys.Valid ∧ ∀ i, (sys.world i).DeletesLast := by
    apply run.preserves
    · intro sys event sys' holds step
      have after := holds.1.deletesLast_act ev event.1 holds.2
      rw [step] at after
      exact ⟨Step.valid step holds.1, after⟩
    · exact ⟨valid_new envs, fun i => World.deletesLast_closed rfl⟩
  exact both.2

/-- In every reachable state, a successful COMMIT of a consistent transaction onto a consistent
catalog leaves a consistent catalog if and only if nobody has published since the transaction
began or its log merges with what was published. -/
theorem commit_consistent_iff {truth : Truth} (reachable : Reachable ev sys) {i : Nat}
    (committed : sys.db.state.Consistent truth)
    (work : ∀ txn, (sys.sessions i).txn = some txn → txn.work.Consistent truth)
    (success : Step ev sys (.commit i, .ok ()) sys') :
    sys'.db.state.Consistent truth ↔
      ∀ txn, (sys.sessions i).txn = some txn → sys.db.state.version = txn.baseVersion ∨
        Merges truth sys.db.state txn.log := by
  have valid := reachable.valid
  have state : sys'.db.state = (sys.world i).commit.2.db.state :=
    (congrArg (fun result : Except OraError Unit × System => result.2.db.state) success).symm
  have ok : (sys.world i).commit.1 = .ok () := congrArg Prod.fst success
  rw [state]
  cases open_ : (sys.sessions i).txn with
  | none =>
      have same : (sys.world i).commit.2.db.state = sys.db.state := by
        simp only [World.commit, System.world, open_]
        rfl
      simp [same, committed]
  | some txn =>
      obtain ⟨holds, some_⟩ := valid.txn i txn open_
      simp only [Option.some.injEq, forall_eq']
      by_cases fast : sys.db.state.version = txn.baseVersion
      · rw [World.commit_fast (w := sys.world i) open_ some_ fast]
        exact ⟨fun _ => Or.inl fast, fun _ => work txn open_⟩
      · obtain ⟨next, replayed, published⟩ :=
          World.commit_replay (w := sys.world i) open_ some_ fast ok
        have widths : ∀ a, ∃ columns, WidthAt txn.log a columns := by
          intro a
          refine ⟨(txn.work.width a.1).getD 0, fun change member here values image => ?_⟩
          obtain ⟨_, t, found, carried⟩ := holds.fits change member
          rw [show change.table = a.1 from congrArg Prod.fst here] at found
          rw [Catalog.width, found]
          refine carried values ?_
          cases change with
          | insert table id given =>
              cases image
              exact List.mem_cons_self
          | update table id given old =>
              cases image
              exact List.mem_cons_self
          | delete table id old => cases image
        have tables : (sys.world i).commit.2.db.state.Consistent truth ↔ next.Consistent truth := by
          rw [published]
          exact Iff.rfl
        rw [tables, or_iff_right fast]
        exact replay_consistent_iff valid.sound committed
          (fun change member => (holds.fits change member).1) widths
          (reachable.deletesLast i txn open_).last replayed

end System

/-! ## Concrete catalogs -/

/-- A row without a NULL where none may be, in a table without CHECKs. -/
def Table.admitsRow (t : Table) (row : Row) : Bool :=
  (t.columns.zipIdx.all fun c => !c.1.notNull || !(cell row c.2).isNull) &&
    t.constraints.all fun k => match k.kind with
      | .unique columns _ _ => columns.all fun i => !(cell row i).isNull
      | .check _ => false
      | _ => true

/-- Every row is admitted, and every child row has a parent with the texts of its key. -/
def Catalog.obeyed (cat : Catalog) : Bool :=
  (cat.tables.toList.all fun table => table.2.rows.toList.all fun row => table.2.admitsRow row.2) &&
    (cat.foreignKeys.filter (·.enabled)).all fun f => (f.childRows cat).all fun row =>
      (cat.table f.parent).any fun t => t.rows.toList.any fun p =>
        (keyValues f.columns row.2).map keyTokens.text ==
          (keyValues f.parentColumns p.2).map keyTokens.text

theorem Table.admits_of_admitsRow (truth : Truth) {t : Table} {row : Row}
    (admitted : t.admitsRow row = true) : t.Admits truth row := by
  obtain ⟨columns, constraints⟩ := (Bool.and_eq_true _ _).mp admitted
  constructor
  · intro i column found notNull
    have filled := List.all_eq_true.mp columns (column, i) (List.mem_zipIdx_iff_getElem?.mpr found)
    simpa [notNull] using filled
  · intro k member _
    have filled := List.all_eq_true.mp constraints k member
    obtain ⟨name, kind, isIndex, enabled⟩ := k
    cases kind with
    | unique columns primary index =>
        cases primary with
        | true =>
            intro i among
            simpa using List.all_eq_true.mp filled i among
        | false => trivial
    | check condition => cases filled
    | foreignKey columns parent parentColumns onDelete => trivial
    | index => trivial

theorem Catalog.Sound.consistent_of_obeyed (truth : Truth) {cat : Catalog} {bound : Nat}
    (sound : cat.Sound bound) (obeyed : cat.obeyed = true) : cat.Consistent truth := by
  obtain ⟨rows, keys⟩ := (Bool.and_eq_true _ _).mp obeyed
  refine sound.consistent_iff.mpr ⟨fun a row t found stored => ?_, fun f member id row stored _ => ?_⟩
  · have table := List.all_eq_true.mp rows (a.1, t)
      (ExtTreeMap.mem_toList_iff_getElem?_eq_some.mpr found)
    rw [show a = (a.1, a.2) from rfl, Edit.rowAt_of_found found] at stored
    exact Table.admits_of_admitsRow truth (List.all_eq_true.mp table (a.2, row)
      (ExtTreeMap.mem_toList_iff_getElem?_eq_some.mpr stored))
  · have children := List.all_eq_true.mp keys f member
    obtain ⟨child, isChild, storedT⟩ := Option.bind_eq_some_iff.mp stored
    have parents := List.all_eq_true.mp children (id, row)
      ((ForeignKeyRef.mem_childRows isChild).mpr storedT)
    obtain ⟨t, isParent, some_⟩ := (Option.any_eq_true _ _).mp parents
    obtain ⟨⟨parentId, p⟩, among, texts⟩ := List.any_eq_true.mp some_
    refine ⟨parentId, p, ?_, forall_same_iff.mpr (eq_of_beq texts)⟩
    rw [Edit.rowAt_of_found isParent]
    exact ExtTreeMap.mem_toList_iff_getElem?_eq_some.mp among

namespace System

/-- A committed parent row; session 1 has made the request given, and session 2 has published a
child of the row. -/
def besideChild (request : Request) : System :=
  (new fun _ => Literal.env "SCOTT").runAll literalEvaluator
    [.sql 0 (Literal.createTable "P" ["ID"] [Literal.primaryKey "P_PK" "ID"]),
      .sql 0 (Literal.createTable "C" ["A"] [Literal.references "C_A" "A" "P" .restrict]),
      .sql 0 (Literal.insert "P" [.ofInt 1]), .commit 0, request,
      .sql 2 (Literal.insert "C" [.ofInt 1]), .commit 2]

/-- Every open transaction of a session has the property. -/
theorem forall_txn_of_all {s : Session} {P : Txn → Bool} (all : s.txn.all P = true) :
    ∀ txn, s.txn = some txn → P txn = true := by
  intro txn open_
  rw [open_] at all
  exact all

/-- Session 1 has deleted the parent, which had no child then. Its COMMIT succeeds and leaves the
child of session 2 without its parent. -/
theorem commit_inconsistent :
    let sys := besideChild (.sql 1 (Literal.delete "P" none))
    let sys' := (sys.act literalEvaluator (.commit 1)).2
    Reachable literalEvaluator sys ∧ sys.db.state.Consistent Literal.truth ∧
      (∀ txn, (sys.sessions 1).txn = some txn → txn.work.Consistent Literal.truth) ∧
      Step literalEvaluator sys (.commit 1, .ok ()) sys' ∧
      ¬ sys'.db.state.Consistent Literal.truth := by
  intro sys sys'
  have reachable : Reachable literalEvaluator sys := reachable_runAll _ _ _
  have step : Step literalEvaluator sys (.commit 1, .ok ()) sys' :=
    Prod.ext (by decide +kernel) rfl
  have valid := reachable.valid
  have work : (sys.sessions 1).txn.all (fun txn => txn.work.obeyed) = true := by decide +kernel
  refine ⟨reachable, valid.sound.consistent_of_obeyed _ (by decide +kernel), fun txn open_ => ?_,
    step, fun consistent => ?_⟩
  · exact (valid.txn 1 txn open_).1.work_sound.consistent_of_obeyed _
      (forall_txn_of_all work txn open_)
  · obtain ⟨f, member, dangles⟩ := @not_satisfied_of_orphaned sys'.db.state (by decide +kernel)
    exact dangles (((Step.valid step valid).sound.consistent_iff.mp consistent).2 f member)

/-- Session 1 has inserted another parent, which merges with the child of session 2. -/
theorem commit_consistent_insert :
    let sys := besideChild (.sql 1 (Literal.insert "P" [.ofInt 2]))
    let sys' := (sys.act literalEvaluator (.commit 1)).2
    ∃ txn, (sys.sessions 1).txn = some txn ∧ sys.db.state.version ≠ txn.baseVersion ∧
      Step literalEvaluator sys (.commit 1, .ok ()) sys' ∧
      sys'.db.state.Consistent Literal.truth ∧ Merges Literal.truth sys.db.state txn.log := by
  intro sys sys'
  have reachable : Reachable literalEvaluator sys := reachable_runAll _ _ _
  have step : Step literalEvaluator sys (.commit 1, .ok ()) sys' :=
    Prod.ext (by decide +kernel) rfl
  have valid := reachable.valid
  have work : (sys.sessions 1).txn.all (fun txn => txn.work.obeyed) = true := by decide +kernel
  have opened : (sys.sessions 1).txn.map (fun txn =>
      decide (sys.db.state.version ≠ txn.baseVersion)) = some true := by decide +kernel
  obtain ⟨txn, open_, newer⟩ := Option.map_eq_some_iff.mp opened
  have after : sys'.db.state.Consistent Literal.truth :=
    (Step.valid step valid).sound.consistent_of_obeyed _ (by decide +kernel)
  have merged := (commit_consistent_iff reachable
    (valid.sound.consistent_of_obeyed _ (by decide +kernel))
    (fun txn open_ => (valid.txn 1 txn open_).1.work_sound.consistent_of_obeyed _
      (forall_txn_of_all work txn open_)) step).mp after
  have newer' : sys.db.state.version ≠ txn.baseVersion := of_decide_eq_true newer
  exact ⟨txn, open_, newer', step, after, (merged txn open_).resolve_left newer'⟩

end System

end MockOracle
