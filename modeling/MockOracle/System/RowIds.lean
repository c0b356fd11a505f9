import MockOracle.Eval.Literal
import MockOracle.Session.RowIds
import MockOracle.System.System

/-!
# Row ids are never reused

A row id is drawn once, whatever becomes of the row. A row that an open transaction has
inserted shares its id with no committed row, no row of a snapshot and no row that another
session sees, so replaying the insert at COMMIT meets no row of its id. The counter has 64
bits in the source; here it is a number, so that it never starts again.
-/

namespace MockOracle

open Std Semantics

namespace System

/-- The rows inserted by open transactions are numbered apart from all others. -/
structure Numbered (sys : System) : Prop where
  world : ∀ i, (sys.world i).Numbered
  apart : ∀ i j, j ≠ i → ∀ txn, (sys.sessions j).txn = some txn →
    ∀ id ∈ (sys.world i).inserted, ¬ txn.Mentions id
  snapshots : ∀ i, ∀ s ∈ sys.snapshots, ∀ id ∈ (sys.world i).inserted, ¬ s.catalog.HasRow id

variable {ev : Evaluator} {sys sys' : System}

theorem numbered_new (envs : Nat → Env) : (new envs).Numbered where
  world _ := World.numbered_closed rfl
  apart i j _ txn open_ := by cases open_
  snapshots i s member := by cases member

/-- The ids of inserted rows have been drawn. -/
theorem Valid.inserted_below (valid : sys.Valid) {i id : Nat}
    (member : id ∈ (sys.world i).inserted) : id < sys.db.nextRowId := by
  cases open_ : (sys.sessions i).txn with
  | none =>
      rw [World.inserted_closed open_] at member
      cases member
  | some txn =>
      rw [World.inserted_open open_] at member
      exact (valid.txn i txn open_).1.mentioned_below (Txn.mentions_of_inserted member)

namespace Numbered

variable (numbered : sys.Numbered) (valid : sys.Valid)

include numbered valid

/-- A session that numbers its rows from the counter leaves those of the others alone. -/
theorem put {i : Nat} {w : World} (numbers : (sys.world i).Numbers w) : (sys.put i w).Numbered := by
  have known : ∀ j, j ≠ i → ∀ id ∈ (sys.world j).inserted, ¬ w.Knows id := by
    intro j other id member known
    rcases numbers.knows id known with (has | ⟨txn, open_, mentions⟩) | new
    · exact (numbered.world j).fresh id member has
    · exact numbered.apart j i other.symm txn open_ id member mentions
    · have used := valid.inserted_below member
      have unused : sys.db.nextRowId ≤ id := new
      omega
  have self : (sys.put i w).sessions i = w.session := Function.update_self ..
  have others : ∀ {j}, j ≠ i → (sys.put i w).sessions j = sys.sessions j := fun other =>
    Function.update_of_ne other ..
  have here : ((sys.put i w).world i).inserted = w.inserted := by
    rw [World.inserted, World.inserted, System.world, self]
  have there : ∀ {j}, j ≠ i → ((sys.put i w).world j).inserted = (sys.world j).inserted := by
    intro j other
    rw [World.inserted, World.inserted, System.world, others other, System.world]
  refine ⟨fun j => ?_, fun j k other txn open_ id member mentions => ?_,
    fun j s taken id member has => ?_⟩
  · by_cases same : j = i
    · subst same
      have after := numbers.numbered (numbered.world j)
      constructor
      · rw [here]
        exact after.fresh
      · rw [here]
        exact after.once
    · constructor
      · rw [there same]
        exact fun id member has => known j same id member (Or.inl has)
      · rw [there same]
        exact (numbered.world j).once
  · by_cases same : j = i
    · subst same
      rw [others other] at open_
      rw [here] at member
      rcases numbers.inserted id member with old | new
      · exact numbered.apart j k other txn open_ id old mentions
      · have used := (valid.txn k txn open_).1.mentioned_below mentions
        have unused : sys.db.nextRowId ≤ id := new
        omega
    · rw [there same] at member
      by_cases mine : k = i
      · subst mine
        rw [self] at open_
        exact known j same id member (Or.inr ⟨txn, open_, mentions⟩)
      · rw [others mine] at open_
        exact numbered.apart j k other txn open_ id member mentions
  · by_cases same : j = i
    · subst same
      rw [here] at member
      rcases numbers.inserted id member with old | new
      · exact numbered.snapshots j s taken id old has
      · have used := has.below (valid.snapshots s taken)
        have unused : sys.db.nextRowId ≤ id := new
        omega
    · rw [there same] at member
      exact numbered.snapshots j s taken id member has

omit valid in
/-- A restored catalog has no row that an open transaction has inserted. -/
theorem restore {s : Snapshot}
    (saved : ∀ i, ∀ id ∈ (sys.world i).inserted, ¬ s.catalog.HasRow id) :
    ({ sys with db := sys.db.restore s } : System).Numbered where
  world i := ⟨fun id member has => saved i id member (has.of_tables rfl), (numbered.world i).once⟩
  apart := numbered.apart
  snapshots := numbered.snapshots

theorem act (ev : Evaluator) (request : Request) : (sys.act ev request).2.Numbered := by
  cases request with
  | execute i utc localTime command =>
      exact numbered.put valid
        (valid.stepwise (World.stepwise_numbers ev) i utc localTime command)
  | commit i => exact numbered.put valid (World.commit_numbers _)
  | rollback i => exact numbered.put valid (World.closed_numbers _)
  | rollbackTo i savepoint =>
      exact numbered.put valid (World.rollbackTo_numbers (valid.world i) savepoint)
  | connect i env =>
      refine numbered.put valid (.of_closed (Nat.le_refl _) rfl fun id has => ?_)
      exact Or.inl (Or.inl has)
  | snapshot =>
      refine ⟨numbered.world, numbered.apart, fun i s taken id member has => ?_⟩
      rcases List.mem_append.mp taken with old | new
      · exact numbered.snapshots i s old id member has
      · rw [List.mem_singleton.mp new] at has
        exact (numbered.world i).fresh id member has
  | restore position =>
      simp only [System.act]
      split
      · exact numbered
      · next s found =>
          exact numbered.restore fun i =>
            numbered.snapshots i s (List.mem_of_getElem? found)
  | reset =>
      refine numbered.restore fun i id member has => ?_
      obtain ⟨name, t, row, found, -⟩ := has
      simp [Catalog.table, Catalog.empty] at found

end Numbered

theorem Reachable.numbered (reachable : Reachable ev sys) : sys.Numbered := by
  obtain ⟨envs, events, run⟩ := reachable
  have both : sys.Valid ∧ sys.Numbered := by
    apply run.preserves
    · intro sys event sys' holds step
      have after := holds.2.act holds.1 ev event.1
      rw [step] at after
      exact ⟨Step.valid step holds.1, after⟩
    · exact ⟨valid_new envs, numbered_new envs⟩
  exact both.2

/-- An insert is replayed onto a catalog that has no row of its id. -/
theorem Numbered.replay (numbered : sys.Numbered) {i : Nat} {txn : Txn}
    (open_ : (sys.sessions i).txn = some txn) {before after : List Change} {table : String}
    {id : Nat} {values : Row} (entry : txn.log = before ++ .insert table id values :: after)
    {user : String} {cat : Catalog} (replayed : MockOracle.replay user before sys.db.state = .ok cat) :
    ¬ cat.HasRow id := by
  have own := numbered.world i
  have opened : (sys.world i).session.txn = some txn := open_
  have inserted : (sys.world i).inserted =
      Change.inserted before ++ id :: Change.inserted after := by
    rw [World.inserted_open opened, entry, Change.inserted_append]
    rfl
  intro has
  rcases replay_hasRow replayed has with old | new
  · refine own.fresh id ?_ old
    rw [inserted]
    exact List.mem_append_right _ List.mem_cons_self
  · have distinct := own.once
    rw [inserted, List.nodup_append] at distinct
    exact distinct.2.2 id new id List.mem_cons_self rfl

/-- In every reachable state every row id in use has been drawn; an id that an open transaction
has inserted is that of no committed row, no row of a snapshot and no row of another session;
and COMMIT replays the insert onto a catalog without a row of this id. -/
theorem row_ids_never_reused (reachable : Reachable ev sys) :
    (∀ id, sys.db.state.HasRow id → id < sys.db.nextRowId) ∧
    (∀ s ∈ sys.snapshots, ∀ id, s.catalog.HasRow id → id < sys.db.nextRowId) ∧
    ∀ i txn, (sys.sessions i).txn = some txn →
      (∀ id, txn.work.HasRow id → id < sys.db.nextRowId) ∧
      (∀ change ∈ txn.log, change.id < sys.db.nextRowId) ∧
      ∀ before table id values after, txn.log = before ++ .insert table id values :: after →
        ¬ sys.db.state.HasRow id ∧
        (∀ s ∈ sys.snapshots, ¬ s.catalog.HasRow id) ∧
        (∀ j other, j ≠ i → (sys.sessions j).txn = some other → ¬ other.work.HasRow id) ∧
        ∀ user cat, replay user before sys.db.state = .ok cat → ¬ cat.HasRow id := by
  have valid := reachable.valid
  have numbered := reachable.numbered
  refine ⟨fun id has => has.below valid.sound,
    fun s member id has => has.below (valid.snapshots s member), fun i txn open_ => ?_⟩
  have holds := (valid.txn i txn open_).1
  refine ⟨fun id has => has.below holds.work_sound,
    fun change member => (holds.fits change member).1,
    fun before table id values after entry => ?_⟩
  have opened : (sys.world i).session.txn = some txn := open_
  have member : id ∈ (sys.world i).inserted := by
    rw [World.inserted_open opened, entry]
    exact Change.mem_inserted.mpr ⟨table, values, List.mem_append_right _ List.mem_cons_self⟩
  refine ⟨(numbered.world i).fresh id member,
    fun s taken => numbered.snapshots i s taken id member,
    fun j other different open_ has => ?_, fun user cat replayed => ?_⟩
  · exact numbered.apart i j different other open_ id member (Or.inl has)
  · exact numbered.replay open_ entry replayed

/-- Two sessions insert a row each after a snapshot; one of them commits, and the snapshot is
restored. -/
def restored : System :=
  (new fun _ => Literal.env "SCOTT").runAll literalEvaluator
    [.sql 0 (Literal.createTable "T" ["ID"] [Literal.primaryKey "T_PK" "ID"]), .snapshot,
      .sql 1 (Literal.insert "T" [.ofInt 1]), .sql 0 (Literal.insert "T" [.ofInt 2]), .commit 0,
      .restore 0]

/-- The row that the other session has inserted is still its own. -/
theorem row_ids_never_reused_restored :
    ∃ txn values, (restored.sessions 1).txn = some txn ∧
      txn.log = [.insert "T" 1 values] ∧ ¬ restored.db.state.HasRow 1 ∧
      ∀ s ∈ restored.snapshots, ¬ s.catalog.HasRow 1 := by
  have opened : (restored.sessions 1).txn.map (fun txn => txn.log) =
      some [.insert "T" 1 [.ofInt 1]] := by decide +kernel
  obtain ⟨txn, open_, log⟩ := Option.map_eq_some_iff.mp opened
  have all := (row_ids_never_reused (reachable_runAll literalEvaluator _ _ :
    Reachable _ restored)).2.2 1 txn open_
  obtain ⟨committed, snapshots, -⟩ := all.2.2 [] "T" 1 _ [] log
  exact ⟨txn, _, open_, log, committed, snapshots⟩

end System

end MockOracle
