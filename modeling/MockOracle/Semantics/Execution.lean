import Mathlib

/-!
# Runs of a labelled transition relation

A run is a finite sequence of labelled steps. The rules below are the only ones
the development needs about runs: an invariant that every step preserves holds
along every run, and a preorder that every step respects relates the two ends of
every run.
-/

namespace MockOracle.Semantics

universe u v

variable {State : Type u} {Label : Type v} {Step : State → Label → State → Prop}

/-- Zero or more steps, with their labels in the order they were taken. -/
inductive Steps (Step : State → Label → State → Prop) : State → List Label → State → Prop where
  | nil {state} : Steps Step state [] state
  | cons {first label second labels last}
      (head : Step first label second) (tail : Steps Step second labels last) :
      Steps Step first (label :: labels) last

namespace Steps

/-- A run without steps stays where it is. -/
theorem eq_of_nil {first last : State} (run : Steps Step first [] last) : last = first := by
  cases run
  rfl

/-- Runs that meet at a state compose. -/
theorem append {first middle last : State} {labels labels' : List Label}
    (run : Steps Step first labels middle) (rest : Steps Step middle labels' last) :
    Steps Step first (labels ++ labels') last := by
  induction run with
  | nil => exact rest
  | cons head _ ih => exact .cons head (ih rest)

/-- A run splits wherever its labels do. -/
theorem split {first last : State} {labels labels' : List Label}
    (run : Steps Step first (labels ++ labels') last) :
    ∃ middle, Steps Step first labels middle ∧ Steps Step middle labels' last := by
  induction labels generalizing first with
  | nil => exact ⟨first, .nil, run⟩
  | cons label labels ih =>
      cases run with
      | cons head tail =>
          obtain ⟨middle, before, after⟩ := ih tail
          exact ⟨middle, .cons head before, after⟩

/-- A property every step preserves holds at the end of every run. -/
theorem preserves {Inv : State → Prop}
    (step : ∀ {state label next}, Inv state → Step state label next → Inv next)
    {first last : State} {labels : List Label} (run : Steps Step first labels last)
    (holds : Inv first) : Inv last := by
  induction run with
  | nil => exact holds
  | cons head _ ih => exact ih (step holds head)

/-- A run of one relation is a run of every weaker one. -/
theorem imp {Weaker : State → Label → State → Prop}
    (weaken : ∀ {state label next}, Step state label next → Weaker state label next)
    {first last : State} {labels : List Label} (run : Steps Step first labels last) :
    Steps Weaker first labels last := by
  induction run with
  | nil => exact .nil
  | cons head _ ih => exact .cons (weaken head) ih

/-- A preorder every step respects relates the two ends of a run. -/
theorem relates {Rel : State → State → Prop} (refl : ∀ state, Rel state state)
    (trans : ∀ {a b c}, Rel a b → Rel b c → Rel a c)
    (step : ∀ {state label next}, Step state label next → Rel state next)
    {first last : State} {labels : List Label} (run : Steps Step first labels last) :
    Rel first last := by
  induction run with
  | nil => exact refl _
  | cons head _ ih => exact trans (step head) ih

end Steps

end MockOracle.Semantics
