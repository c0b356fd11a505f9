import MockOracle.Session.Replay
import MockOracle.System.Rollback

/-!
# Transactions on disjoint rows

Two transactions that started from one committed catalog and changed different rows can be
committed in either order. Each COMMIT writes the log of its transaction over the committed
rows, by the fast path because the private catalog is the origin with the log written over
it, and by replay because the rows it changes are as they were in the origin.
-/

namespace MockOracle

open Std Semantics

namespace Session

/-- The changes of the open transaction. -/
def pending (s : Session) : List Change := (s.txn.map fun txn => txn.log).getD []

/-- The addresses of the rows that the open transaction has inserted, updated or deleted. -/
def changed (s : Session) : List Address := s.pending.map Change.address

/-- The open transaction started from `base` and consists of logged edits. -/
def OpenedFrom (base : Catalog) (s : Session) : Prop :=
  ∀ txn, s.txn = some txn → ∃ edits, (Txn.start base).Grows edits txn

end Session

namespace World

variable {w : World} {base : Catalog}

/-- What a session sees is the base with its changes written over it. -/
theorem catalog_rowAt (opened : w.session.OpenedFrom base) (state : w.db.state = base) :
    w.catalog.rowAt = overlay (w.session.pending.map Change.write) base.rowAt := by
  unfold World.catalog Session.pending
  cases open_ : w.session.txn with
  | none => rw [state]; rfl
  | some txn =>
      obtain ⟨edits, grows⟩ := opened txn open_
      have logged : txn.log = Edit.log edits := grows.logged
      rw [Option.map_some, Option.getD_some, logged]
      exact Edit.Run.rowAt grows.run

/-- COMMIT writes the changes over a committed catalog that agrees with the origin at them. -/
theorem commit_rowAt (valid : w.Valid) (opened : w.session.OpenedFrom base)
    (schema : w.db.state.schema = base.schema)
    (agree : ∀ a ∈ w.session.changed, w.db.state.rowAt a = base.rowAt a)
    (success : w.commit.1 = .ok ()) :
    w.commit.2.db.state.rowAt =
        overlay (w.session.pending.map Change.write) w.db.state.rowAt ∧
      w.commit.2.db.state.schema = base.schema := by
  unfold World.commit at success ⊢
  unfold Session.changed Session.pending at agree
  unfold Session.pending
  cases open_ : w.session.txn with
  | none => exact ⟨rfl, schema⟩
  | some txn =>
      obtain ⟨edits, grows⟩ := opened txn open_
      obtain ⟨holds, some_⟩ := valid.txn txn open_
      have logged : txn.log = Edit.log edits := grows.logged
      have sameSchema : txn.work.schema = base.schema := grows.schema
      have notEmpty : txn.log.isEmpty = false := by simpa using some_
      rw [open_, Option.map_some, Option.getD_some] at agree
      simp only [open_, notEmpty] at success ⊢
      cases published : txn.publish w.session.env.user w.db.state with
      | error e =>
          rw [published] at success
          cases success
      | ok state =>
          simp only [Option.map_some, Option.getD_some]
          unfold Txn.publish at published
          split at published
          · next same =>
              -- The fast path: the committed catalog is still the base.
              cases published
              have unchanged : w.db.state = base :=
                (holds.unchanged same.symm).trans grows.origin
              refine ⟨?_, sameSchema⟩
              have rows : txn.work.rowAt = overlay ((Edit.log edits).map Change.write) base.rowAt :=
                Edit.Run.rowAt grows.run
              rw [unchanged, logged]
              exact rows
          · split at published
            · next next_ replayed =>
                cases published
                have fits : ∀ change ∈ txn.log, change.Fits w.db.nextRowId w.db.state :=
                  fun change member => (holds.fits change member).transfer (Nat.le_refl _)
                    (schema.trans sameSchema.symm)
                have replayable : Replayable w.db.state.rowAt txn.log := by
                  rw [logged] at agree ⊢
                  refine (Edit.Run.replayable grows.run).congr fun change member => ?_
                  exact agree change.address (List.mem_map_of_mem member)
                have keeps := replay_keeps (fun change member => (fits change member).1) replayed
                have rows := replay_rowAt fits replayable replayed
                exact ⟨rows, keeps.schema.trans schema⟩
            · cases published

/-- A session that runs DML successfully has opened its transaction from the committed
catalog. -/
theorem dml_openedFrom {ev : Evaluator} {binds : List Value} {vars : Option VarLookup}
    {stmt : DmlStatement} {r : Nat × List Row} (valid : w.Valid) (state : w.db.state = base)
    (opened : w.session.OpenedFrom base) (success : (w.dml ev binds vars stmt).1 = .ok r) :
    (w.dml ev binds vars stmt).2.session.OpenedFrom base := by
  obtain ⟨more, extends_⟩ :=
    run_extends ⟨ev, binds, w.db.state, vars⟩ valid.dmlTxn.work_sound stmt
  intro txn open_
  unfold World.dml at success open_
  split at success
  · next st equal =>
      rw [equal] at extends_ open_
      obtain ⟨rfl, _⟩ := Txn.unlessEmpty_eq_some.mp open_
      have grows : w.dmlState.txn.Grows more st.txn := extends_.grows
      unfold World.dmlState at grows
      cases before : w.session.txn with
      | none =>
          rw [before, Option.getD_none, state] at grows
          exact ⟨more, grows⟩
      | some txn =>
          rw [before, Option.getD_some] at grows
          obtain ⟨edits, first⟩ := opened txn before
          exact ⟨edits ++ more, first.trans grows⟩
  · cases success

end World

namespace System

variable {ev : Evaluator} {sys sys' : System} {a b : Nat} {base : Catalog}

/-! ## A run of DML statements -/

/-- DML statements leave the committed catalog alone, and the transactions they open start
from it. -/
theorem Step.openedFrom {event : Event} (step : Step ev sys event sys') (valid : sys.Valid)
    (dml : event.1.IsDml ∧ event.2 = .ok ()) (state : sys.db.state = base) :
    sys'.db.state = base ∧
      ∀ i, (sys.sessions i).OpenedFrom base → (sys'.sessions i).OpenedFrom base := by
  obtain ⟨j, utc, localTime, stmt, binds, vars, r, _, ok, rfl⟩ := step.dml_ok dml.1 dml.2
  refine ⟨(World.dml_state ev binds vars stmt _).trans state, fun i opened => ?_⟩
  by_cases own : j = i
  · subst own
    rw [sessions_put_self]
    exact World.dml_openedFrom (valid.started j utc localTime) state opened ok
  · rw [sessions_put_ne own]
    exact opened

theorem Run.openedFrom {events : List Event} (run : Run ev sys events sys') (valid : sys.Valid)
    (dml : ∀ event ∈ events, event.1.IsDml ∧ event.2 = .ok ()) (state : sys.db.state = base) :
    sys'.db.state = base ∧
      ∀ i, (sys.sessions i).OpenedFrom base → (sys'.sessions i).OpenedFrom base := by
  induction run with
  | nil => exact ⟨state, fun _ opened => opened⟩
  | cons head _ ih =>
      have first := Step.openedFrom head valid (dml _ List.mem_cons_self) state
      have rest := ih (Step.valid head valid)
        (fun event member => dml event (List.mem_cons_of_mem _ member)) first.1
      exact ⟨rest.1, fun i opened => rest.2 i (first.2 i opened)⟩

/-! ## Two commits -/

/-- The committed catalog after two sessions have committed, one after the other. -/
def commitBoth (ev : Evaluator) (sys : System) (a b : Nat) : Catalog :=
  ((sys.act ev (.commit a)).2.act ev (.commit b)).2.db.state

/-- Two COMMITs of transactions from the committed catalog that succeed write the changes of
both over it. -/
theorem commitBoth_rowAt (valid : sys.Valid) (different : a ≠ b) (state : sys.db.state = base)
    (openedA : (sys.sessions a).OpenedFrom base) (openedB : (sys.sessions b).OpenedFrom base)
    (disjoint : ∀ x ∈ (sys.sessions a).changed, x ∉ (sys.sessions b).changed)
    (first : (sys.act ev (.commit a)).1 = .ok ())
    (second : ((sys.act ev (.commit a)).2.act ev (.commit b)).1 = .ok ()) :
    (sys.commitBoth ev a b).rowAt =
        overlay ((sys.sessions b).pending.map Change.write)
          (overlay ((sys.sessions a).pending.map Change.write) base.rowAt) ∧
      (sys.commitBoth ev a b).schema = base.schema := by
  obtain ⟨rowsA, schemaA⟩ := World.commit_rowAt (valid.world a) openedA
    (congrArg Catalog.schema state) (fun x _ => congrArg (fun cat => Catalog.rowAt cat x) state) first
  have other : ((sys.act ev (.commit a)).2.sessions b) = sys.sessions b := sessions_put_ne different
  have opened : ((sys.act ev (.commit a)).2.sessions b).OpenedFrom base := by
    rw [other]
    exact openedB
  have stateA : (sys.act ev (.commit a)).2.db.state.rowAt =
      overlay ((sys.sessions a).pending.map Change.write) base.rowAt := by
    rw [← state]
    exact rowsA
  have agree : ∀ x ∈ ((sys.act ev (.commit a)).2.sessions b).changed,
      (sys.act ev (.commit a)).2.db.state.rowAt x = base.rowAt x := by
    intro x member
    rw [other] at member
    rw [stateA]
    apply Overlay.of_absent
    rw [Edit.addresses_writes]
    exact fun changedA => disjoint x changedA member
  obtain ⟨rowsB, schemaB⟩ := World.commit_rowAt ((valid.act ev (.commit a)).world b) opened
    schemaA agree second
  refine ⟨?_, schemaB⟩
  rw [← stateA, ← other]
  exact rowsB

/-- Two sessions open transactions on one committed catalog and run DML successfully, on
different rows. If their COMMITs succeed in both orders, the committed rows are the same in
both: those of the base, with the rows each session changed as that session sees them. -/
theorem disjoint_transactions_commute (reachable : Reachable ev sys) (different : a ≠ b)
    (closedA : (sys.sessions a).txn = none) (closedB : (sys.sessions b).txn = none)
    {events : List Event} (run : Run ev sys events sys')
    (dml : ∀ event ∈ events, event.1.IsDml ∧ event.2 = .ok ())
    (disjoint : ∀ x ∈ (sys'.sessions a).changed, x ∉ (sys'.sessions b).changed)
    (firstA : (sys'.act ev (.commit a)).1 = .ok ())
    (thenB : ((sys'.act ev (.commit a)).2.act ev (.commit b)).1 = .ok ())
    (firstB : (sys'.act ev (.commit b)).1 = .ok ())
    (thenA : ((sys'.act ev (.commit b)).2.act ev (.commit a)).1 = .ok ()) :
    (sys'.commitBoth ev a b).rowAt = (sys'.commitBoth ev b a).rowAt ∧
      (sys'.commitBoth ev a b).schema = (sys'.commitBoth ev b a).schema ∧
      ∀ x, (sys'.commitBoth ev a b).rowAt x =
        if x ∈ (sys'.sessions a).changed then (sys'.world a).catalog.rowAt x
        else if x ∈ (sys'.sessions b).changed then (sys'.world b).catalog.rowAt x
        else sys.db.state.rowAt x := by
  have valid := Run.valid run reachable.valid
  obtain ⟨state, opened⟩ := Run.openedFrom run reachable.valid dml rfl
  have openedA : (sys'.sessions a).OpenedFrom sys.db.state := opened a fun txn open_ => by
    rw [closedA] at open_
    cases open_
  have openedB : (sys'.sessions b).OpenedFrom sys.db.state := opened b fun txn open_ => by
    rw [closedB] at open_
    cases open_
  obtain ⟨rowsAB, schemaAB⟩ := commitBoth_rowAt valid different state openedA openedB disjoint
    firstA thenB
  obtain ⟨rowsBA, schemaBA⟩ := commitBoth_rowAt valid different.symm state openedB openedA
    (fun x changedB changedA => disjoint x changedA changedB) firstB thenA
  have commute : overlay ((sys'.sessions b).pending.map Change.write)
      (overlay ((sys'.sessions a).pending.map Change.write) sys.db.state.rowAt) =
      overlay ((sys'.sessions a).pending.map Change.write)
        (overlay ((sys'.sessions b).pending.map Change.write) sys.db.state.rowAt) := by
    apply Overlay.comm
    rw [Edit.addresses_writes, Edit.addresses_writes]
    exact fun x changedB changedA => disjoint x changedA changedB
  refine ⟨?_, schemaAB.trans schemaBA.symm, fun x => ?_⟩
  · rw [rowsAB, rowsBA, commute]
  · rw [World.catalog_rowAt openedA state, World.catalog_rowAt openedB state, rowsAB]
    split
    · next changedA =>
        apply Overlay.of_absent
        rw [Edit.addresses_writes]
        exact disjoint x changedA
    · next keptA =>
        have absent : x ∉ ((sys'.sessions a).pending.map Change.write).map Prod.fst := by
          rw [Edit.addresses_writes]
          exact keptA
        split
        · exact Overlay.congr (Overlay.of_absent absent)
        · next keptB =>
            rw [Overlay.of_absent, Overlay.of_absent absent]
            rw [Edit.addresses_writes]
            exact keptB

/-- An empty table. -/
def emptyTable : System :=
  (new fun _ => Literal.env "SCOTT").runAll literalEvaluator
    [.sql 0 (Literal.createTable "T" ["ID"] [Literal.primaryKey "T_PK" "ID"])]

/-- INSERT of one row by a session. -/
def insertId (session : Nat) (n : Int) : Request := .sql session (Literal.insert "T" [.ofInt n])

theorem insertId_isDml (session : Nat) (n : Int) : (insertId session n).IsDml :=
  ⟨session, ⟨0, 0⟩, ⟨0, 0⟩, .insert ⟨"T", none, .values [.literal (.ofInt n)], none⟩, [], none, rfl⟩

/-- Two sessions insert a row each. -/
theorem disjoint_transactions_commute_inserts :
    let sys' := emptyTable.runAll literalEvaluator [insertId 1 10, insertId 2 20]
    (sys'.commitBoth literalEvaluator 1 2).rowAt = (sys'.commitBoth literalEvaluator 2 1).rowAt ∧
      (sys'.commitBoth literalEvaluator 1 2).rowAt ("T", 1) = some [.ofInt 10] ∧
      (sys'.commitBoth literalEvaluator 1 2).rowAt ("T", 2) = some [.ofInt 20] := by
  intro sys'
  refine ⟨?_, by decide, by decide⟩
  have reachable : Reachable literalEvaluator emptyTable := reachable_runAll _ _ _
  refine (disjoint_transactions_commute reachable (by decide) rfl rfl
    (runAll_run _ [insertId 1 10, insertId 2 20] _) ?_ (by decide) (by decide) (by decide)
    (by decide) (by decide)).1
  simp only [eventsOf, List.forall_mem_cons, List.not_mem_nil, false_imp_iff, implies_true,
    and_true]
  exact ⟨⟨insertId_isDml 1 10, by decide⟩, ⟨insertId_isDml 2 20, by decide⟩⟩

end System

end MockOracle
