import MockOracle.Session.Replay
import MockOracle.System.Rollback

/-!
# Columns that another session has committed

A log entry for an update carries the whole row as the transaction saw it, and replay
writes all of it. So a column that another session has committed meanwhile is lost when
the transaction has updated any other column of the row, unless both hold the same value.
-/

namespace MockOracle

open Std Semantics

namespace Txn

/-- The transaction neither inserts nor deletes a row, and assigns nothing to one of its
columns that was not there. -/
def Leaves (txn : Txn) (a : Address) (c : Nat) : Prop :=
  ∀ change ∈ txn.log, change.address = a →
    ∃ values old, change = .update a.1 a.2 values old ∧ cell values c = cell old c

/-- The last row that the transaction logged for an address, if there is one and replay does
not skip it for its width, has the value `v` in a column. -/
def Spares (txn : Txn) (state : Catalog) (a : Address) (c : Nat) (v : Value) : Prop :=
  ∀ values, (lastAt a txn.log).bind Change.image = some values →
    (∀ t, state.table a.1 = some t → t.columns.length = values.length) → cell values c = v

theorem Leaves.updatesAt {txn : Txn} {db : Database} {a : Address} {c : Nat}
    (valid : txn.Valid db) (leaves : txn.Leaves a c) : ∃ width, UpdatesAt a width txn.log := by
  refine ⟨((txn.work.table a.1).map fun t => t.columns.length).getD 0, fun change member here => ?_⟩
  obtain ⟨values, old, rfl, _⟩ := leaves change member here
  obtain ⟨_, t, found, width⟩ := valid.fits _ member
  rw [Change.table] at found
  refine ⟨values, old, rfl, ?_⟩
  rw [found]
  exact width values List.mem_cons_self

end Txn

/-- A COMMIT that succeeds on a changed committed catalog replays the log. -/
theorem World.commit_replay {w : World} {txn : Txn} (open_ : w.session.txn = some txn)
    (some_ : txn.log ≠ []) (newer : w.db.state.version ≠ txn.baseVersion)
    (success : w.commit.1 = .ok ()) :
    ∃ next, replay w.session.env.user txn.log w.db.state = .ok next ∧
      w.commit.2.db.state = { next with version := w.db.state.version + 1 } := by
  have notEmpty : txn.log.isEmpty = false := by simpa using some_
  unfold World.commit Txn.publish at success ⊢
  simp only [open_, notEmpty, if_neg newer] at success ⊢
  cases replayed : replay w.session.env.user txn.log w.db.state with
  | ok next => exact ⟨next, rfl, rfl⟩
  | error e =>
      rw [replayed] at success
      cases success

namespace System

variable {ev : Evaluator} {sys₀ sys₁ sys₂ sys₃ : System} {a b : Nat} {x : Address} {c : Nat}

/-- Session `b` commits another value for a column of a row; later session `a`, whose
transaction started before and does not touch that column, commits successfully. The
committed value is still that of `b` if and only if what `a` writes to the row, if
anything, has the same value in that column. -/
theorem committed_column_kept_iff {r₀ r₁ r₂ : Row} {events : List Event} {txn : Txn}
    (reachable : Reachable ev sys₀) (commitB : Step ev sys₀ (.commit b, .ok ()) sys₁)
    (before : sys₀.db.state.rowAt x = some r₀) (after : sys₁.db.state.rowAt x = some r₁)
    (changed : cell r₁ c ≠ cell r₀ c) (run : Run ev sys₁ events sys₂)
    (open_ : (sys₂.sessions a).txn = some txn) (older : txn.baseVersion ≤ sys₀.db.state.version)
    (leaves : txn.Leaves x c) (still : sys₂.db.state.rowAt x = some r₂)
    (kept : cell r₂ c = cell r₁ c) (commitA : Step ev sys₂ (.commit a, .ok ()) sys₃) :
    (∃ r₃, sys₃.db.state.rowAt x = some r₃ ∧ cell r₃ c = cell r₁ c) ↔
      txn.Spares sys₂.db.state x c (cell r₁ c) := by
  have valid₁ := Step.valid commitB reachable.valid
  have valid₂ := Run.valid run valid₁
  obtain ⟨holds, some_⟩ := valid₂.txn a txn open_
  have newer : sys₂.db.state.version ≠ txn.baseVersion := by
    have later := (Run.advances run valid₁).version_le
    rcases (Step.advances commitB reachable.valid).versioned with same | larger
    · rw [same, before] at after
      cases after
      exact absurd rfl changed
    · omega
  have success : (sys₂.world a).commit.1 = .ok () := congrArg Prod.fst commitA
  obtain ⟨next, replayed, published⟩ := World.commit_replay open_ some_ newer success
  have final : sys₃.db.state.rowAt = next.rowAt := by
    have state : sys₃.db.state = (sys₂.world a).commit.2.db.state :=
      (congrArg (fun result : Except OraError Unit × System => result.2.db.state) commitA).symm
    rw [state, published]
    rfl
  obtain ⟨t, found⟩ : ∃ t, sys₂.db.state.table x.1 = some t := by
    cases found : sys₂.db.state.table x.1 with
    | some t => exact ⟨t, rfl⟩
    | none => simp [Catalog.rowAt, Catalog.row, found] at still
  obtain ⟨width, updates⟩ := leaves.updatesAt holds
  have written : next.rowAt x = _ :=
    replay_lastAt (fun change member => (holds.fits change member).1) updates found still replayed
  rw [final, written, Txn.Spares]
  simp only [Option.some.injEq, exists_eq_left', found, forall_eq']
  cases last : lastAt x txn.log with
  | none => simpa using kept
  | some change =>
      obtain ⟨member, here⟩ := mem_of_lastAt last
      obtain ⟨values, old, rfl, _⟩ := leaves change member here
      simp only [Option.elim_some, Option.bind_some, Change.rowOver, Change.image,
        Option.some.injEq, forall_eq']
      split
      · next fits => simp [fits]
      · next misfit =>
          refine ⟨fun _ fits => absurd fits.symm misfit, fun _ => kept⟩

/-- One committed row (1, 0, 0); session 1 has made the request given, and session 2 has set
C to 7, both uncommitted. -/
def besideUpdate (request : Request) : System :=
  (new fun _ => Literal.env "SCOTT").runAll literalEvaluator
    [.sql 0 (Literal.createTable "T" ["ID", "C", "W"] [Literal.primaryKey "T_PK" "ID"]),
      .sql 0 (Literal.insert "T" [.ofInt 1, .ofInt 0, .ofInt 0]), .commit 0, request,
      .sql 2 (Literal.update "T" "C" (.literal (.ofInt 7)) none)]

/-- Session 1 has updated W of the row, session 2 commits C, then session 1 commits: C is
back at what session 1 saw. -/
theorem committed_column_lost :
    let sys₀ := besideUpdate (.sql 1 (Literal.update "T" "W" (.literal (.ofInt 5)) none))
    let sys₁ := (sys₀.act literalEvaluator (.commit 2)).2
    let sys₂ := (sys₁.act literalEvaluator (.commit 1)).2
    Reachable literalEvaluator sys₀ ∧
      Step literalEvaluator sys₀ (.commit 2, .ok ()) sys₁ ∧
      Step literalEvaluator sys₁ (.commit 1, .ok ()) sys₂ ∧
      (∃ txn, (sys₁.sessions 1).txn = some txn ∧ txn.baseVersion ≤ sys₀.db.state.version ∧
        txn.Leaves ("T", 1) 1) ∧
      sys₀.db.state.rowAt ("T", 1) = some [.ofInt 1, .ofInt 0, .ofInt 0] ∧
      sys₁.db.state.rowAt ("T", 1) = some [.ofInt 1, .ofInt 7, .ofInt 0] ∧
      sys₂.db.state.rowAt ("T", 1) = some [.ofInt 1, .ofInt 0, .ofInt 5] := by
  intro sys₀ sys₁ sys₂
  refine ⟨reachable_runAll _ _ _, Prod.ext (by decide) rfl, Prod.ext (by decide) rfl, ?_,
    by decide, by decide, by decide⟩
  have opened : (sys₁.sessions 1).txn.map (fun txn => (txn.log, txn.baseVersion)) =
      some ([.update "T" 1 [.ofInt 1, .ofInt 0, .ofInt 5] [.ofInt 1, .ofInt 0, .ofInt 0]],
        sys₀.db.state.version) := by decide
  obtain ⟨txn, open_, equal⟩ := Option.map_eq_some_iff.mp opened
  obtain ⟨log, base⟩ := Prod.mk.inj equal
  refine ⟨txn, open_, base.le, fun change member here => ?_⟩
  rw [log, List.mem_singleton] at member
  exact ⟨_, _, member, rfl⟩

/-- One committed row (1, 7, 0), of which session 1 has updated W; then C was committed as 0, and
session 2 has set it to 7 again. -/
def besideOlder : System :=
  (new fun _ => Literal.env "SCOTT").runAll literalEvaluator
    [.sql 0 (Literal.createTable "T" ["ID", "C", "W"] [Literal.primaryKey "T_PK" "ID"]),
      .sql 0 (Literal.insert "T" [.ofInt 1, .ofInt 7, .ofInt 0]), .commit 0,
      .sql 1 (Literal.update "T" "W" (.literal (.ofInt 5)) none),
      .sql 2 (Literal.update "T" "C" (.literal (.ofInt 0)) none), .commit 2,
      .sql 2 (Literal.update "T" "C" (.literal (.ofInt 7)) none)]

/-- Session 1 writes the row with the C that it saw, which session 2 has brought back by then: what
session 2 commits stays. -/
theorem committed_column_kept_update :
    let sys₁ := (besideOlder.act literalEvaluator (.commit 2)).2
    let sys₂ := (sys₁.act literalEvaluator (.commit 1)).2
    besideOlder.db.state.rowAt ("T", 1) = some [.ofInt 1, .ofInt 0, .ofInt 0] ∧
      sys₂.db.state.rowAt ("T", 1) = some [.ofInt 1, .ofInt 7, .ofInt 5] ∧
      ∃ row, sys₂.db.state.rowAt ("T", 1) = some row ∧ cell row 1 = .ofInt 7 := by
  intro sys₁ sys₂
  have opened : (sys₁.sessions 1).txn.map (fun txn =>
      (txn.log, decide (txn.baseVersion ≤ besideOlder.db.state.version))) =
      some ([.update "T" 1 [.ofInt 1, .ofInt 7, .ofInt 5] [.ofInt 1, .ofInt 7, .ofInt 0]],
        true) := by decide
  obtain ⟨txn, open_, equal⟩ := Option.map_eq_some_iff.mp opened
  obtain ⟨log, older⟩ := Prod.mk.inj equal
  have reachable : Reachable literalEvaluator besideOlder := reachable_runAll _ _ _
  have commitB : Step literalEvaluator besideOlder (.commit 2, .ok ()) sys₁ :=
    Prod.ext (by decide) rfl
  have commitA : Step literalEvaluator sys₁ (.commit 1, .ok ()) sys₂ := Prod.ext (by decide) rfl
  have before : besideOlder.db.state.rowAt ("T", 1) = some [.ofInt 1, .ofInt 0, .ofInt 0] := by
    decide
  have after : sys₁.db.state.rowAt ("T", 1) = some [.ofInt 1, .ofInt 7, .ofInt 0] := by decide
  have leaves : txn.Leaves ("T", 1) 1 := by
    intro change member _
    rw [log, List.mem_singleton] at member
    exact ⟨_, _, member, rfl⟩
  have last : lastAt ("T", 1) txn.log = some
      (.update "T" 1 [.ofInt 1, .ofInt 7, .ofInt 5] [.ofInt 1, .ofInt 7, .ofInt 0]) := by
    rw [log]
    decide
  refine ⟨before, by decide, (committed_column_kept_iff (c := 1) reachable commitB before after
    (by decide) .nil open_ (of_decide_eq_true older) leaves after rfl commitA).mpr
    fun values written => ?_⟩
  rw [last] at written
  cases written
  exact fun _ => rfl

end System

end MockOracle
