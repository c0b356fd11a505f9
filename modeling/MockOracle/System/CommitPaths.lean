import MockOracle.Session.ReplayExact
import MockOracle.System.Commute
import MockOracle.System.LostUpdate

/-!
# The two paths of COMMIT

A transaction that consists of successful DML statements can be published by taking over
its private catalog or by replaying its log. Both give the same tables and indexes exactly
when the log has no shift of unique keys.
-/

namespace MockOracle

open Std Semantics

theorem Change.Fits.of_table {bound : Nat} {cat cat' : Catalog} {change : Change}
    (fits : change.Fits bound cat) (same : cat'.table change.table = cat.table change.table) :
    change.Fits bound cat' := by
  rw [Change.Fits, same]
  exact fits

section Replay

variable {db : Database} {txn : Txn} {edits : List Edit} {state : Catalog} (holds : txn.Valid db)
  (run : Edit.Run txn.origin edits txn.work) (logged : txn.log = Edit.log edits)
  (same : ∀ change ∈ txn.log, state.table change.table = txn.origin.table change.table)

include holds run logged same

/-- Without a shift, replay on a catalog that has the tables of the log as they were in the
origin ends in those of the private catalog. -/
theorem Txn.Valid.replay_of_unshifted (user : String) (none : ¬ Shifts txn.work txn.log) :
    ∃ next, replay user txn.log state = .ok next ∧
      (∀ name, state.table name = txn.origin.table name → next.table name = txn.work.table name) ∧
      ∀ name, (∀ change ∈ txn.log, change.table ≠ name) → next.table name = state.table name := by
  have schema : txn.work.schema = txn.origin.schema := (Edit.Run.frame run).1
  have fits : ∀ change ∈ txn.log, change.Fits db.nextRowId txn.origin := fun change member =>
    (holds.fits change member).transfer (Nat.le_refl _) schema.symm
  rw [logged] at same none fits ⊢
  exact Edit.Run.replay user run holds.sound.covers fits
    (fun shifts => none (shifts.transfer schema.symm)) same

/-- Where replay succeeds there is no shift. -/
theorem Txn.Valid.unshifted_of_replay {user : String} {next : Catalog}
    (sound : state.Sound db.nextRowId) (success : replay user txn.log state = .ok next) :
    ¬ Shifts txn.work txn.log := by
  have schema : txn.work.schema = txn.origin.schema := (Edit.Run.frame run).1
  have fits : ∀ change ∈ txn.log, change.Fits db.nextRowId state := fun change member =>
    ((holds.fits change member).transfer (Nat.le_refl _) schema.symm).of_table (same change member)
  rw [logged] at same success fits ⊢
  intro shifts
  exact Edit.Run.replay_shifts run sound fits same success (shifts.transfer schema)

end Replay

/-- COMMIT on a changed committed catalog, when replay succeeds. -/
theorem World.commit_of_replay {w : World} {txn : Txn} {next : Catalog}
    (open_ : w.session.txn = some txn) (some_ : txn.log ≠ [])
    (newer : w.db.state.version ≠ txn.baseVersion)
    (replayed : replay w.session.env.user txn.log w.db.state = .ok next) :
    w.commit.1 = .ok () ∧
      w.commit.2.db.state = { next with version := w.db.state.version + 1 } := by
  have notEmpty : txn.log.isEmpty = false := by simpa using some_
  unfold World.commit Txn.publish
  simp only [open_, notEmpty, if_neg newer, replayed]
  exact ⟨rfl, rfl⟩

namespace System

/-- A transaction made of successful DML statements, in a reachable state. Replaying its log
on the catalog it started from succeeds and gives its private tables if and only if the log
has no shift. The same holds of COMMIT when other sessions have published meanwhile but not
touched the tables the transaction changed. -/
theorem commit_paths_agree_iff {ev : Evaluator} {sys sys' : System} {i : Nat} {txn : Txn}
    {events : List Event} (reachable : Reachable ev sys) (closed : (sys.sessions i).txn = none)
    (run : Run ev sys events sys') (only : ∀ event ∈ events, Event.OnlyDml i event)
    (open_ : (sys'.sessions i).txn = some txn) :
    ((∃ next, replay (sys'.sessions i).env.user txn.log txn.origin = .ok next ∧
        ∀ name, next.table name = txn.work.table name) ↔ ¬ Shifts txn.work txn.log) ∧
    (sys'.db.state.version ≠ txn.baseVersion →
      (∀ change ∈ txn.log,
        sys'.db.state.table change.table = txn.origin.table change.table) →
      (((sys'.world i).commit.1 = .ok () ∧
          (∀ change ∈ txn.log, (sys'.world i).commit.2.db.state.table change.table =
            txn.work.table change.table) ∧
          ∀ name, (∀ change ∈ txn.log, change.table ≠ name) →
            (sys'.world i).commit.2.db.state.table name = sys'.db.state.table name) ↔
        ¬ Shifts txn.work txn.log)) := by
  have valid := Run.valid run reachable.valid
  obtain ⟨holds, some_⟩ := valid.txn i txn open_
  have grown := (Run.sessionGrown run reachable.valid only).1
  rw [closed, open_] at grown
  obtain ⟨edits, edited, logged, _⟩ := grown.opened
  constructor
  · constructor
    · rintro ⟨next, success, _⟩
      exact holds.unshifted_of_replay edited logged (fun _ _ => rfl) holds.sound success
    · intro none
      obtain ⟨next, success, tables, _⟩ :=
        holds.replay_of_unshifted edited logged (fun _ _ => rfl) (sys'.sessions i).env.user none
      exact ⟨next, success, fun name => tables name rfl⟩
  · intro newer same
    constructor
    · rintro ⟨success, _, _⟩
      obtain ⟨next, replayed, _⟩ := World.commit_replay open_ some_ newer success
      exact holds.unshifted_of_replay edited logged same valid.sound replayed
    · intro none
      obtain ⟨next, replayed, tables, others⟩ :=
        holds.replay_of_unshifted edited logged same (sys'.sessions i).env.user none
      obtain ⟨success, published⟩ :=
        World.commit_of_replay (w := sys'.world i) open_ some_ newer replayed
      refine ⟨success, fun change member => ?_, fun name other => ?_⟩
      · rw [published]
        exact tables change.table (same change member)
      · rw [published]
        exact others name other

/-- A committed table T with the rows 1 and 2. -/
def twoKeys : System :=
  (new fun _ => Literal.env "SCOTT").runAll literalEvaluator
    [.sql 0 (Literal.createTable "T" ["ID"] [Literal.primaryKey "T_PK" "ID"]),
      .sql 0 (Literal.createTable "OTHER" ["ID"] []), .sql 0 (Literal.insert "T" [.ofInt 1]),
      .sql 0 (Literal.insert "T" [.ofInt 2]), .commit 0]

/-- Move every key of T up by `n`, in session 1. -/
def shiftIds (n : Int) : Request :=
  .sql 1 (Literal.update "T" "ID" (.binary .add (.column none "ID") (.literal (.ofInt n))) none)

theorem shiftIds_isDml (n : Int) : (shiftIds n).IsDml :=
  ⟨1, ⟨0, 0⟩, ⟨0, 0⟩,
    .update ⟨"T", none, [("ID", .binary .add (.column none "ID") (.literal (.ofInt n)))], none, none⟩,
    [], none, rfl⟩

/-- Another session publishes a row of an unrelated table. -/
def publishOther : List Request := [.sql 2 (Literal.insert "OTHER" [.ofInt 1]), .commit 2]

/-- Every key moves up by one. The COMMIT succeeds when nobody has published meanwhile, and
is refused as a duplicate when somebody has published a row of another table. -/
theorem commit_paths_shift :
    let sys' := twoKeys.runAll literalEvaluator (shiftIds 1 :: publishOther)
    Reachable literalEvaluator twoKeys ∧ (twoKeys.sessions 1).txn.isNone ∧
      Run literalEvaluator twoKeys
        (twoKeys.eventsOf literalEvaluator (shiftIds 1 :: publishOther)) sys' ∧
      (∀ event ∈ twoKeys.eventsOf literalEvaluator (shiftIds 1 :: publishOther),
        Event.OnlyDml 1 event) ∧
      ((twoKeys.runAll literalEvaluator [shiftIds 1]).act literalEvaluator (.commit 1)).1 =
        .ok () ∧
      (sys'.act literalEvaluator (.commit 1)).1 =
        .error ⟨1, "unique constraint (SCOTT.T_PK) violated"⟩ := by
  refine ⟨reachable_runAll _ _ _, by decide, runAll_run _ _ _, ?_, by decide, by decide⟩
  simp only [publishOther, eventsOf, List.forall_mem_cons, List.not_mem_nil, false_imp_iff,
    implies_true, and_true]
  exact ⟨fun _ => ⟨shiftIds_isDml 1, by decide⟩, Event.onlyDml_of_other (by decide),
    Event.onlyDml_of_other (by decide)⟩

/-- A log shifts nothing when no row it writes has a unique key of another row it replaces. -/
theorem not_shifts_of_free {cat : Catalog} {log : List Change}
    (free : ∀ table t r later, cat.table table = some t → RowChange.entry table r ∈ log →
      RowChange.entry table later ∈ log → ∀ c ∈ t.constraints, c.key r.values ≠ c.key later.old) :
    ¬ Shifts cat log := by
  rintro ⟨table, t, found, before, r, between, later, after, rfl, ⟨c, member, k, holds, held⟩, _⟩
  have first : RowChange.entry table r ∈
      before ++ RowChange.entry table r :: (between ++ RowChange.entry table later :: after) := by
    simp
  have second : RowChange.entry table later ∈
      before ++ RowChange.entry table r :: (between ++ RowChange.entry table later :: after) := by
    simp
  exact free table t r later found first second c member (holds.trans held.symm)

/-- Every key moves up by ten, past all the old ones, and is published on both paths. -/
theorem commit_paths_agree_update :
    let sys' := twoKeys.runAll literalEvaluator (shiftIds 10 :: publishOther)
    ∃ txn, (sys'.sessions 1).txn = some txn ∧
      txn.log = [.update "T" 1 [.ofInt 11] [.ofInt 1], .update "T" 2 [.ofInt 12] [.ofInt 2]] ∧
      (∃ next, replay "SCOTT" txn.log txn.origin = .ok next ∧
        ∀ name, next.table name = txn.work.table name) ∧
      (sys'.world 1).commit.1 = .ok () := by
  intro sys'
  have opened : (sys'.sessions 1).txn.map (fun txn => (txn.log,
      decide (sys'.db.state.version ≠ txn.baseVersion),
      (txn.work.table "T").all fun t => decide (∀ c ∈ t.constraints,
        ∀ new ∈ ([[.ofInt 11], [.ofInt 12]] : List Row),
          ∀ old ∈ ([[.ofInt 1], [.ofInt 2]] : List Row), c.key new ≠ c.key old))) =
      some ([.update "T" 1 [.ofInt 11] [.ofInt 1], .update "T" 2 [.ofInt 12] [.ofInt 2]],
        true, true) := by decide
  have origin : (sys'.sessions 1).txn.map (fun txn => txn.origin.table "T") =
      some (sys'.db.state.table "T") := rfl
  obtain ⟨txn, open_, equal⟩ := Option.map_eq_some_iff.mp opened
  obtain ⟨log, rest⟩ := Prod.mk.inj equal
  obtain ⟨newer, apart⟩ := Prod.mk.inj rest
  rw [open_, Option.map_some, Option.some.injEq] at origin
  have only : ∀ event ∈ twoKeys.eventsOf literalEvaluator (shiftIds 10 :: publishOther),
      Event.OnlyDml 1 event := by
    simp only [publishOther, eventsOf, List.forall_mem_cons, List.not_mem_nil, false_imp_iff,
      implies_true, and_true]
    exact ⟨fun _ => ⟨shiftIds_isDml 10, by decide⟩, Event.onlyDml_of_other (by decide),
      Event.onlyDml_of_other (by decide)⟩
  have reachable : Reachable literalEvaluator twoKeys := reachable_runAll _ _ _
  have agree := commit_paths_agree_iff reachable rfl
    (runAll_run _ (shiftIds 10 :: publishOther) _) only open_
  have unshifted : ¬ Shifts txn.work txn.log := by
    apply not_shifts_of_free
    intro table t r later found first second c member
    simp only [log, RowChange.entry, List.mem_cons, List.not_mem_nil, or_false,
      Change.update.injEq] at first second
    have table_ : table = "T" := by
      rcases first with first | first
      · exact first.1
      · exact first.1
    rw [table_] at found
    rw [found, Option.all_some, decide_eq_true_eq] at apart
    apply apart c member
    · rcases first with ⟨_, _, values, _⟩ | ⟨_, _, values, _⟩ <;> simp [values]
    · rcases second with ⟨_, _, _, old⟩ | ⟨_, _, _, old⟩ <;> simp [old]
  refine ⟨txn, open_, log, agree.1.mpr unshifted, ?_⟩
  refine ((agree.2 (of_decide_eq_true newer) fun change member => ?_).mpr unshifted).1
  have table : change.table = "T" := by
    simp only [log, List.mem_cons, List.not_mem_nil, or_false] at member
    rcases member with rfl | rfl <;> rfl
  rw [table]
  exact origin.symm

end System

end MockOracle
