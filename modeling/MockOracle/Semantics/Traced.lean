import MockOracle.Semantics.Execution

/-!
# Computations that take steps

A `Traced` computation starts in a state and changes it by labelled steps only. What it
returns carries the labels of its steps and the proof that they lead from the state it
started in to the one it ends in, so an invariant of the steps holds at every point of every
computation. A computation ends with a value or an error, or not at all: it may panic or be
cut off.

`Relates` says how a computation that ends has changed the state. Its rules follow the
operations that computations are built from.
-/

namespace MockOracle.Semantics

variable {State Label Failure α β : Type}

/-- How a computation comes out. -/
inductive Ending (Failure α : Type) where
  | ok (a : α)
  | error (e : Failure)
  | panic
  | timeout

/-- The computation has come to an end, with a value or an error. -/
def Ending.Ended : Ending Failure α → Prop
  | ok _ | error _ => True
  | panic | timeout => False

/-- The step with a label, where it can be taken. -/
def Takes (apply : Label → State → Except Failure State) (before : State) (label : Label)
    (after : State) : Prop := apply label before = .ok after

/-- A step leads to one state. -/
theorem Takes.unique {apply : Label → State → Except Failure State} {before after after' : State}
    {label : Label} (one : Takes apply before label after) (other : Takes apply before label after') :
    after = after' := by
  unfold Takes at one other
  rw [one] at other
  exact Except.ok.inj other

/-- A run of steps leads to one state. -/
theorem Takes.unique_run {apply : Label → State → Except Failure State} {first last last' : State}
    {labels : List Label} (one : Steps (Takes apply) first labels last)
    (other : Steps (Takes apply) first labels last') : last = last' := by
  induction one with
  | nil => exact other.eq_of_nil.symm
  | cons head _ ih =>
      cases other with
      | cons head' tail' =>
          rw [head.unique head'] at ih
          exact ih tail'

/-- What a computation has done from a state. -/
structure Ran (apply : Label → State → Except Failure State) (α : Type) (start : State) where
  trace : List Label
  last : State
  ending : Ending Failure α
  steps : Steps (Takes apply) start trace last

/-- A computation that changes a state by steps. -/
def Traced (apply : Label → State → Except Failure State) (α : Type) : Type :=
  (start : State) → Ran apply α start

namespace Traced

variable {apply : Label → State → Except Failure State}

/-- A value, without a step. -/
protected def pure (a : α) : Traced apply α := fun start => ⟨[], start, .ok a, .nil⟩

/-- One computation after another, as far as the first one ends with a value. -/
protected def bind (m : Traced apply α) (f : α → Traced apply β) : Traced apply β := fun start =>
  match (m start).ending with
  | .ok a =>
      let next := f a (m start).last
      ⟨(m start).trace ++ next.trace, next.last, next.ending, (m start).steps.append next.steps⟩
  | .error e => ⟨(m start).trace, (m start).last, .error e, (m start).steps⟩
  | .panic => ⟨(m start).trace, (m start).last, .panic, (m start).steps⟩
  | .timeout => ⟨(m start).trace, (m start).last, .timeout, (m start).steps⟩

/-- Computations are put after each other. -/
instance : Monad (Traced apply) where
  pure := Traced.pure
  bind := Traced.bind

/-- The state. -/
def read : Traced apply State := fun start => ⟨[], start, .ok start, .nil⟩

/-- An error, without a step. -/
def fail (e : Failure) : Traced apply α := fun start => ⟨[], start, .error e, .nil⟩

/-- A panic, without a step. -/
def panic : Traced apply α := fun start => ⟨[], start, .panic, .nil⟩

/-- Running out of depth, without a step. -/
def timeout : Traced apply α := fun start => ⟨[], start, .timeout, .nil⟩

/-- Take a step; the state stays as it is where it cannot be taken. -/
def step (label : Label) : Traced apply Unit := fun start =>
  match equal : apply label start with
  | .ok last => ⟨[label], last, .ok (), .cons equal .nil⟩
  | .error e => ⟨[], start, .error e, .nil⟩

/-- The value or the error that a computation ends with. -/
def attempt (m : Traced apply α) : Traced apply (Except Failure α) := fun start =>
  match (m start).ending with
  | .ok a => ⟨(m start).trace, (m start).last, .ok (.ok a), (m start).steps⟩
  | .error e => ⟨(m start).trace, (m start).last, .ok (.error e), (m start).steps⟩
  | .panic => ⟨(m start).trace, (m start).last, .panic, (m start).steps⟩
  | .timeout => ⟨(m start).trace, (m start).last, .timeout, (m start).steps⟩

/-- A value or an error, without a step. -/
def lift : Except Failure α → Traced apply α
  | .ok a => Traced.pure a
  | .error e => fail e

/-! ## What a computation comes to -/

/-- How a computation comes out, and the state it leaves. -/
def outcome (m : Traced apply α) (start : State) : Ending Failure α × State :=
  ((m start).ending, (m start).last)

/-- The computation ends with a value in a state. -/
def Gives (m : Traced apply α) (start : State) (a : α) (last : State) : Prop :=
  m.outcome start = (.ok a, last)

section Outcome

variable {m : Traced apply α} {f : α → Traced apply β} {start last : State} {a : α}

/-- A value alone leaves the state. -/
@[simp] theorem outcome_pure (a : α) :
    (Pure.pure a : Traced apply α).outcome start = (.ok a, start) := rfl

/-- Reading the state leaves it. -/
@[simp] theorem outcome_read : (read : Traced apply State).outcome start = (.ok start, start) := rfl

/-- An error alone leaves the state. -/
@[simp] theorem outcome_fail (e : Failure) :
    (fail e : Traced apply α).outcome start = (.error e, start) := rfl

/-- A step that can be taken leads to its state. -/
theorem outcome_step {label : Label} (takes : apply label start = .ok last) :
    (step label : Traced apply Unit).outcome start = (.ok (), last) := by
  unfold outcome step
  split
  · next equal =>
      rw [takes] at equal
      cases equal
      rfl
  · next equal =>
      rw [takes] at equal
      cases equal

/-- After a computation that gives a value, the next one goes on from its state. -/
theorem Gives.bind (gives : m.Gives start a last) :
    (m >>= f).outcome start = (f a).outcome last := by
  have ending : (m start).ending = .ok a := congrArg Prod.fst gives
  have state : (m start).last = last := congrArg Prod.snd gives
  change (Traced.bind m f).outcome start = _
  subst state
  unfold outcome Traced.bind
  rw [ending]

/-- What ends with a value is attempted with success. -/
theorem outcome_attempt (gives : m.Gives start a last) :
    (attempt m).outcome start = (.ok (.ok a), last) := by
  have ending : (m start).ending = .ok a := congrArg Prod.fst gives
  have state : (m start).last = last := congrArg Prod.snd gives
  subst state
  unfold outcome attempt
  rw [ending]

/-- What ends with an error is attempted without failing. -/
theorem outcome_attempt_error {e : Failure} (fails : m.outcome start = (.error e, last)) :
    (attempt m).Gives start (.error e) last := by
  have ending : (m start).ending = .error e := congrArg Prod.fst fails
  have state : (m start).last = last := congrArg Prod.snd fails
  subst state
  unfold Gives outcome attempt
  rw [ending]

/-- A panic leaves everything that it runs in. -/
theorem bind_panic (panics : (m.outcome start).1 = .panic) :
    ((m >>= f).outcome start).1 = .panic := by
  change ((Traced.bind m f).outcome start).1 = _
  have ending : (m start).ending = .panic := panics
  unfold outcome Traced.bind
  rw [ending]

/-- A panic is not caught. -/
theorem attempt_panic (panics : (m.outcome start).1 = .panic) :
    ((attempt m).outcome start).1 = .panic := by
  have ending : (m start).ending = .panic := panics
  unfold outcome attempt
  rw [ending]

end Outcome

/-! ## What a computation changes -/

/-- However it ends, the computation relates the state it started in to the one it leaves. -/
def Relates (Rel : State → State → Prop) (m : Traced apply α) : Prop :=
  ∀ start, (m start).ending.Ended → Rel start (m start).last

variable {Rel : State → State → Prop} {m : Traced apply α}

section Rules

variable [IsPreorder State Rel]

/-- A value alone relates the state to itself. -/
theorem Relates.pure (a : α) : Relates Rel (Pure.pure a : Traced apply α) :=
  fun start _ => refl_of Rel start

/-- Reading the state relates it to itself. -/
theorem Relates.read : Relates Rel (read : Traced apply State) := fun start _ => refl_of Rel start

/-- An error alone relates the state to itself. -/
theorem Relates.fail (e : Failure) : Relates Rel (fail e : Traced apply α) :=
  fun start _ => refl_of Rel start

/-- A value or an error alone relates the state to itself. -/
theorem Relates.lift (result : Except Failure α) : Relates Rel (lift result : Traced apply α) := by
  cases result with
  | ok a => exact .pure a
  | error e => exact .fail e

/-- A step relates the states that it can lead to. -/
theorem Relates.step {label : Label}
    (takes : ∀ before after, apply label before = .ok after → Rel before after) :
    Relates Rel (step label : Traced apply Unit) := by
  intro start _
  unfold Traced.step
  split
  · next equal => exact takes _ _ equal
  · exact refl_of Rel start

/-- Computations after each other relate what each of them does, through the state between. -/
theorem Relates.bind {f : α → Traced apply β} (first : Relates Rel m)
    (rest : ∀ a, Relates Rel (f a)) : Relates Rel (m >>= f) := by
  intro start ended
  have before := first start
  change (Traced.bind m f start).ending.Ended at ended
  change Rel start (Traced.bind m f start).last
  unfold Traced.bind at ended ⊢
  cases outcome : (m start).ending with
  | ok a =>
      rw [outcome] at before ended
      exact trans_of Rel (before trivial) (rest a _ ended)
  | error e =>
      rw [outcome] at before
      exact before trivial
  | panic =>
      rw [outcome] at ended
      exact ended.elim
  | timeout =>
      rw [outcome] at ended
      exact ended.elim

/-- Mapping the value changes no state. -/
theorem Relates.map (f : α → β) (relates : Relates Rel m) : Relates Rel (f <$> m) :=
  .bind relates fun a => .pure (f a)

end Rules

/-- A panic has no end to relate. -/
theorem Relates.panic : Relates Rel (panic : Traced apply α) := fun _ ended => ended.elim

/-- Running out of depth has no end to relate. -/
theorem Relates.timeout : Relates Rel (timeout : Traced apply α) := fun _ ended => ended.elim

/-- Attempting a computation relates what it does. -/
theorem Relates.attempt (relates : Relates Rel m) : Relates Rel (attempt m) := by
  intro start ended
  have first := relates start
  unfold Traced.attempt at ended ⊢
  cases outcome : (m start).ending with
  | ok a =>
      rw [outcome] at first
      exact first trivial
  | error e =>
      rw [outcome] at first
      exact first trivial
  | panic =>
      rw [outcome] at ended
      exact ended.elim
  | timeout =>
      rw [outcome] at ended
      exact ended.elim

/-- A computation relates by any weaker relation. -/
theorem Relates.mono {Weaker : State → State → Prop} (relates : Relates Rel m)
    (weaken : ∀ a b, Rel a b → Weaker a b) : Relates Weaker m :=
  fun start ended => weaken _ _ (relates start ended)

/-- What `attempt` comes to, where it comes to anything. -/
theorem attempt_cases (start : State) :
    (∃ result, (m.attempt).Gives start result (m start).last ∧ (m start).ending.Ended) ∨
    ∀ f : Except Failure α → Traced apply β, ¬ ((m.attempt >>= f).outcome start).1.Ended := by
  cases ending : (m start).ending with
  | ok a =>
      refine Or.inl ⟨.ok a, ?_, trivial⟩
      unfold Gives outcome attempt
      rw [ending]
  | error e =>
      refine Or.inl ⟨.error e, ?_, trivial⟩
      unfold Gives outcome attempt
      rw [ending]
  | panic =>
      refine Or.inr fun f ended => ?_
      rw [bind_panic (attempt_panic ending)] at ended
      exact ended
  | timeout =>
      refine Or.inr fun f ended => ?_
      have attempted : (m.attempt start).ending = .timeout := by
        unfold attempt
        rw [ending]
      change ((Traced.bind m.attempt f).outcome start).1.Ended at ended
      unfold outcome Traced.bind at ended
      rw [attempted] at ended
      exact ended

/-- A computation between a step and the step that takes it back. The second step is taken however
the computation ends, and what comes after goes on from there. -/
theorem Relates.bracket [IsPreorder State Rel] {Inner : State → State → Prop}
    {opening closing : Label}
    (opens : ∀ state, ∃ next, apply opening state = .ok next)
    (closes : ∀ state, ∃ next, apply closing state = .ok next)
    (around : ∀ a b c d, apply opening a = .ok b → Inner b c → apply closing c = .ok d → Rel a d)
    (inside : Relates Inner m) {rest : Except Failure α → Traced apply β}
    (after : ∀ result, Relates Rel (rest result)) :
    Relates Rel (Traced.step opening >>= fun _ => m.attempt >>= fun result =>
      Traced.step closing >>= fun _ => rest result) := by
  intro start ended
  obtain ⟨opened, opens⟩ := opens start
  have first : (Traced.step opening : Traced apply Unit).Gives start () opened :=
    outcome_step opens
  change (outcome _ start).1.Ended at ended
  change Rel start (outcome _ start).2
  rw [first.bind] at ended ⊢
  obtain ⟨result, attempted, finished⟩ | stuck := attempt_cases (m := m) (β := β) opened
  · obtain ⟨closed, closes⟩ := closes (m opened).last
    have second : (Traced.step closing : Traced apply Unit).Gives (m opened).last () closed :=
      outcome_step closes
    rw [attempted.bind, second.bind] at ended ⊢
    exact trans_of Rel (around _ _ _ _ opens (inside opened finished) closes)
      (after result closed ended)
  · exact absurd ended (stuck _)

end Traced

end MockOracle.Semantics
