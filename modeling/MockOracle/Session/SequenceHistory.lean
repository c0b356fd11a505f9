import MockOracle.Session.Sequence

/-!
# The number after ALTER SEQUENCE

The counter of a sequence holds the next number and not the last one handed out, so ALTER
SEQUENCE moves it by the difference of the increments. That is right after a number has been
handed out, and wrong where a RESTART has set the counter since.
-/

namespace MockOracle

open Std Semantics

/-- What decides the next number of a sequence: the last one handed out, and where a RESTART
since then has set it. -/
structure SequenceHistory where
  def_ : SequenceDef
  last : Option Int
  restart : Option Int
  /-- The counter was saturated when the last number was handed out. -/
  clipped : Bool
  /-- A call has failed. -/
  failed : Bool

namespace SequenceHistory

/-- A sequence that has just been created. -/
def new (d : SequenceDef) : SequenceHistory := ⟨d, none, none, false, false⟩

def after (h : SequenceHistory) : SequenceAction → SequenceHistory
  | .call none => { h with failed := true }
  | .call (some v) =>
      { h with last := some v, restart := none, clipped := !decide (Fits128 (v + h.def_.increment)) }
  | .alter options =>
      match sequenceDef (some h.def_) options with
      | .error _ => h
      | .ok d => { h with def_ := d, restart := (restartCounter d options none).or h.restart }

/-- The restart value; else the last number plus the increment; else START WITH. -/
def expected (h : SequenceHistory) : Int :=
  match h.restart, h.last with
  | some r, _ => r
  | none, some last => last + h.def_.increment
  | none, none => h.def_.start

/-- An ALTER SEQUENCE that changes the increment restarts the sequence itself, or finds it
neither restarted since the last number nor saturated, nor unused but for calls that failed. -/
def Allows (h : SequenceHistory) : SequenceAction → Prop
  | .call _ => True
  | .alter options => ∀ d, sequenceDef (some h.def_) options = .ok d →
      d.increment ≠ h.def_.increment → restartCounter d options none = none →
        h.restart = none ∧ h.clipped = false ∧ (h.last = none → h.failed = false)

/-- Every action is allowed when it comes. -/
def AllowsAll : SequenceHistory → List SequenceAction → Prop
  | _, [] => True
  | h, action :: rest => h.Allows action ∧ (h.after action).AllowsAll rest

end SequenceHistory

/-- The numbers in an action have 128 bits. -/
def SequenceAction.Fits : SequenceAction → Prop
  | .call _ => True
  | .alter options => ∀ o ∈ options, o.Fits

theorem restartCounter_eq (d : SequenceDef) (options : List SequenceOption) (next : Option Int) :
    restartCounter d options next = (restartCounter d options none).or next := by
  induction options generalizing next with
  | nil => rfl
  | cons o rest ih =>
      cases o with
      | restart at_ =>
          simp only [restartCounter]
          rw [ih, Option.or_some]
          rfl
      | _ => exact ih next

theorem restartCounter_fits {d : SequenceDef} (accepted : d.Accepted)
    {options : List SequenceOption} (fits : ∀ o ∈ options, o.Fits) {next : Option Int}
    (before : ∀ v, next = some v → Fits128 v) {r : Int}
    (set : restartCounter d options next = some r) : Fits128 r := by
  induction options generalizing next with
  | nil => exact before r set
  | cons o rest ih =>
      have later := fun o member => fits o (List.mem_cons_of_mem _ member)
      cases o with
      | restart at_ =>
          refine ih later (fun v same => ?_) set
          cases same
          cases given : at_ with
          | none =>
              rw [Option.getD_none]
              split
              · exact accepted.min
              · exact accepted.max
          | some v => exact fits _ List.mem_cons_self v given
      | _ => exact ih later before set

namespace Sequence

/-- The counter is where the history says the sequence continues. -/
structure Tracks (s : Sequence) (h : SequenceHistory) : Prop where
  same : s.def_ = h.def_
  accepted : h.def_.Accepted
  fits : ∀ n, s.counter = some n → Fits128 n
  restarted : ∀ r, h.restart = some r → s.counter = some r
  followed : h.restart = none → ∀ last, h.last = some last → s.counter =
    some (if h.clipped then saturate (last + h.def_.increment) else wrap (last + h.def_.increment))
  unused : h.restart = none → h.last = none →
    s.counter = none ∨ h.failed = true ∧ s.counter = some h.def_.start

theorem tracks_new {d : SequenceDef} (accepted : d.Accepted) :
    Tracks ⟨d, none⟩ (.new d) where
  same := rfl
  accepted := accepted
  fits n set := by cases set
  restarted r set := by cases set
  followed _ last set := by cases set
  unused _ _ := Or.inl rfl

namespace Tracks

variable {s s' : Sequence} {h : SequenceHistory} (tracks : s.Tracks h)

include tracks

/-- Where the number it continues with is within the bounds, the counter holds it. -/
theorem next_eq (low : h.def_.min ≤ h.expected) (high : h.expected ≤ h.def_.max) :
    s.next = h.expected := by
  have min := tracks.accepted.min
  have max := tracks.accepted.max
  have fits : Fits128 h.expected := by
    unfold Fits128 at *
    omega
  cases restart : h.restart with
  | some r =>
      rw [next, tracks.restarted r restart, SequenceHistory.expected, restart]
      rfl
  | none =>
      cases handed : h.last with
      | some last =>
          have expected : h.expected = last + h.def_.increment := by
            rw [SequenceHistory.expected, restart, handed]
          rw [expected] at fits ⊢
          rw [next, tracks.followed restart last handed, Option.getD_some]
          split
          · exact saturate_of_fits fits
          · exact wrap_of_fits fits
      | none =>
          have expected : h.expected = h.def_.start := by
            rw [SequenceHistory.expected, restart, handed]
          rw [expected, next, tracks.same]
          rcases tracks.unused restart handed with unset | ⟨-, set⟩
          · rw [unset]
            rfl
          · rw [set]
            rfl

theorem called {outcome : Option Int} (success : s.call = (outcome, s')) :
    s'.Tracks (h.after (.call outcome)) := by
  unfold call at success
  split at success
  · -- A failing call leaves the counter, or sets it to START WITH.
    cases success
    have kept : ∀ {n : Int}, s.counter = some n → some s.next = some n := by
      intro n set
      rw [next, set]
      rfl
    refine ⟨tracks.same, tracks.accepted, fun n set => ?_, fun r restart => ?_,
      fun restart last handed => ?_, fun restart handed => Or.inr ⟨rfl, ?_⟩⟩
    · cases set
      cases counter : s.counter with
      | none =>
          rw [next, counter, Option.getD_none, tracks.same]
          exact tracks.accepted.start
      | some m =>
          rw [next, counter]
          exact tracks.fits m counter
    · exact kept (tracks.restarted r restart)
    · exact kept (tracks.followed restart last handed)
    · rcases tracks.unused restart handed with unset | ⟨-, set⟩
      · change some s.next = some h.def_.start
        rw [next, unset, Option.getD_none, tracks.same]
      · exact kept set
  · next v after drawn =>
      cases success
      have advanced := SequenceDef.draw_after drawn
      rw [tracks.same] at advanced
      refine ⟨tracks.same, tracks.accepted, fun n set => ?_, fun r set => (by cases set),
        fun _ last handed => ?_, fun _ handed => (by cases handed)⟩
      · cases set
        rw [advanced]
        exact fits128_saturate _
      · cases handed
        change some after = some (if (!decide (Fits128 (v + h.def_.increment))) = true then
          saturate (v + h.def_.increment) else wrap (v + h.def_.increment))
        rw [advanced]
        by_cases fits : Fits128 (v + h.def_.increment)
        · simp only [fits, decide_true, Bool.not_true, Bool.false_eq_true, if_false]
          rw [saturate_of_fits fits, wrap_of_fits fits]
        · simp [fits]

theorem altered {options : List SequenceOption} (success : s.alter options = .ok s')
    (fits : ∀ o ∈ options, o.Fits) (allowed : h.Allows (.alter options)) :
    s'.Tracks (h.after (.alter options)) := by
  unfold alter at success
  rw [tracks.same] at success
  split at success
  · cases success
  · next d defined =>
      cases success
      have accepted : d.Accepted := sequenceDef_accepted fits
        (fun o same => by cases same; exact tracks.accepted) defined
      have start : d.start = h.def_.start := by
        obtain ⟨_, -, -, -, -, start⟩ := sequenceDef_ok defined
        exact start
      have history : h.after (.alter options) =
          { h with def_ := d, restart := (restartCounter d options none).or h.restart } := by
        rw [SequenceHistory.after, defined]
      rw [history, restartCounter_eq]
      cases restarts : restartCounter d options none with
      | some r =>
          refine ⟨rfl, accepted, fun n set => ?_, fun n set => set, fun impossible => ?_,
            fun impossible => ?_⟩
          · exact restartCounter_fits accepted fits (fun v none_ => by cases none_)
              (restarts.trans set)
          · cases impossible
          · cases impossible
      | none =>
          have keeps : d.increment = h.def_.increment → ∀ {n : Int}, s.counter = some n →
              s.counter.map (fun next => wrap (next - h.def_.increment + d.increment)) = some n := by
            intro same n set
            rw [set, Option.map_some, same, Int.sub_add_cancel, wrap_of_fits (tracks.fits n set)]
          have moved : d.increment ≠ h.def_.increment → h.restart = none ∧ h.clipped = false ∧
              (h.last = none → h.failed = false) := fun other => allowed d defined other restarts
          refine ⟨rfl, accepted, fun n set => ?_, fun r restart => ?_, fun restart last handed => ?_,
            fun restart handed => ?_⟩
          · obtain ⟨next, -, wrapped⟩ := Option.map_eq_some_iff.mp set
            rw [← wrapped]
            exact fits128_wrap _
          · by_cases same : d.increment = h.def_.increment
            · exact keeps same (tracks.restarted r restart)
            · rw [show h.restart = some r from restart] at moved
              cases (moved same).1
          · have counter := tracks.followed restart last handed
            by_cases same : d.increment = h.def_.increment
            · refine (keeps same counter).trans ?_
              rw [same]
            · obtain ⟨-, unclipped, -⟩ := moved same
              simp only [unclipped, Bool.false_eq_true, if_false] at counter ⊢
              change s.counter.map (fun next => wrap (next - h.def_.increment + d.increment)) = _
              rw [counter, Option.map_some, wrap_moved]
          · rcases tracks.unused restart handed with unset | ⟨failed, set⟩
            · refine Or.inl ?_
              change s.counter.map (fun next => wrap (next - h.def_.increment + d.increment)) = none
              rw [unset]
              rfl
            · by_cases same : d.increment = h.def_.increment
              · refine Or.inr ⟨failed, (keeps same set).trans ?_⟩
                rw [start]
              · rw [(moved same).2.2 handed] at failed
                cases failed

omit tracks in
/-- Along every run of allowed actions the counter is where the sequence continues. -/
theorem run {actions : List SequenceAction} (run : Run s actions s') (tracks : s.Tracks h)
    (fits : ∀ action ∈ actions, action.Fits) (allowed : h.AllowsAll actions) :
    s'.Tracks (actions.foldl SequenceHistory.after h) := by
  induction run generalizing h with
  | nil => exact tracks
  | @cons _ action _ _ _ head _ ih =>
      have here := fits action List.mem_cons_self
      refine ih ?_ (fun action member => fits action (List.mem_cons_of_mem _ member)) allowed.2
      cases head with
      | call success => exact tracks.called success
      | alter success => exact tracks.altered success here allowed.1

end Tracks

end Sequence

end MockOracle
