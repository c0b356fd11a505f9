import Mathlib.Logic.Basic

/-!
# Watched computations

A watched computation does what a plain one does and refuses a step that would leave a class of
states. What it returns, the plain computation returns as well, and so does a computation with
other steps in it, as long as these do the same within the class. Vouching for both composes along
sequencing, so that it is enough to watch the steps that may leave the class.
-/

namespace MockOracle.Semantics

variable {ε σ α β : Type} {C : σ → Prop}

/-- A computation that leaves the state as it found it when it succeeds. -/
def Reads (m : EStateM ε σ α) : Prop := ∀ s a s', m s = .ok a s' → s' = s

namespace Reads

/-- Returning a value changes nothing. -/
theorem pure_ (a : α) : Reads (pure a : EStateM ε σ α) := by
  intro s b s' result
  cases result
  rfl

/-- Nor does reading the state. -/
theorem get_ : Reads (get : EStateM ε σ σ) := by
  intro s b s' result
  cases result
  rfl

/-- A failure does not succeed. -/
theorem throw_ (e : ε) : Reads (throw e : EStateM ε σ α) := by
  intro s b s' result
  cases result

/-- Two steps that change nothing, one after the other. -/
theorem bind_ {m : EStateM ε σ α} {f : α → EStateM ε σ β} (first : Reads m)
    (rest : ∀ a, Reads (f a)) : Reads (m >>= f) := by
  intro s b s' result
  simp only [bind, EStateM.bind] at result
  cases ran : m s with
  | ok a middle =>
      rw [ran] at result
      rw [rest a middle b s' result, first s a middle ran]
  | error e middle =>
      rw [ran] at result
      cases result

end Reads

/-- Whatever `w` returns from a state of the class, `m` and `m'` return from it too, and the state
they leave is of the class. -/
def Vouches (C : σ → Prop) (w m m' : EStateM ε σ α) : Prop :=
  ∀ s, C s → ∀ a s', w s = .ok a s' → m s = .ok a s' ∧ m' s = .ok a s' ∧ C s'

namespace Vouches

variable {w m m' : EStateM ε σ α} {v f f' : α → EStateM ε σ β}

/-- A computation that stays in the class needs no watching. -/
theorem of_keeps (keeps : ∀ s, C s → ∀ a s', m s = .ok a s' → C s') : Vouches C m m m :=
  fun s holds a s' ran => ⟨ran, ran, keeps s holds a s' ran⟩

/-- Nor does one that changes nothing. -/
theorem of_reads (reads : Reads m) : Vouches C m m m :=
  of_keeps fun s holds a s' ran => reads s a s' ran ▸ holds

theorem pure_ (a : α) : Vouches C (pure a : EStateM ε σ α) (pure a) (pure a) :=
  of_reads (.pure_ a)

/-- A refusal vouches for anything. -/
theorem throw_ (e : ε) (m m' : EStateM ε σ α) : Vouches C (throw e) m m' := by
  intro s holds a s' ran
  cases ran

/-- What vouches for a change of a computation vouches for the computation. -/
theorem plain (vouches : Vouches C w m m') : Vouches C w m m := by
  intro s holds a s' ran
  obtain ⟨same, -, kept⟩ := vouches s holds a s' ran
  exact ⟨same, same, kept⟩

/-- Sequencing, where the second part may rely on the result being one of the first part's. -/
theorem bind_result (first : Vouches C w m m')
    (rest : ∀ a, (∃ s s', w s = .ok a s') → Vouches C (v a) (f a) (f' a)) :
    Vouches C (w >>= v) (m >>= f) (m' >>= f') := by
  intro s holds b s'' ran
  simp only [bind, EStateM.bind] at ran ⊢
  cases middle : w s with
  | error e s' =>
      rw [middle] at ran
      cases ran
  | ok a s' =>
      rw [middle] at ran
      obtain ⟨left, right, kept⟩ := first s holds a s' middle
      rw [left, right]
      exact rest a ⟨s, s', middle⟩ s' kept b s'' ran

theorem bind_ (first : Vouches C w m m') (rest : ∀ a, Vouches C (v a) (f a) (f' a)) :
    Vouches C (w >>= v) (m >>= f) (m' >>= f') :=
  bind_result first fun a _ => rest a

theorem map_ (g : α → β) (vouches : Vouches C w m m') : Vouches C (g <$> w) (g <$> m) (g <$> m') := by
  intro s holds b s' ran
  simp only [Functor.map, EStateM.map] at ran ⊢
  cases middle : w s with
  | error e s₁ =>
      rw [middle] at ran
      cases ran
  | ok a s₁ =>
      rw [middle] at ran
      cases ran
      obtain ⟨left, right, kept⟩ := vouches s holds a _ middle
      rw [left, right]
      exact ⟨rfl, rfl, kept⟩

end Vouches

/-- A step is taken as it is, unless what it did to the state is to be refused with `e`. -/
def watch (accepts : σ → σ → Bool) (e : ε) (m : EStateM ε σ α) : EStateM ε σ α := fun s =>
  match m s with
  | .ok a s' => if accepts s s' then .ok a s' else .error e s'
  | .error e s' => .error e s'

/-- What the watch lets pass is what the step did. -/
theorem watch_ok {accepts : σ → σ → Bool} {e : ε} {m : EStateM ε σ α} {s s' : σ} {a : α}
    (passed : watch accepts e m s = .ok a s') : m s = .ok a s' ∧ accepts s s' = true := by
  unfold watch at passed
  cases ran : m s with
  | error e s₁ =>
      rw [ran] at passed
      cases passed
  | ok b s₁ =>
      rw [ran] at passed
      cases accepted : accepts s s₁ with
      | false =>
          simp only [accepted] at passed
          cases passed
      | true =>
          simp only [accepted, if_true] at passed
          cases passed
          exact ⟨rfl, accepted⟩

/-- A watched step vouches for the step, when what is accepted stays in the class. -/
theorem Vouches.of_watch {accepts : σ → σ → Bool} {e : ε} {m : EStateM ε σ α}
    (keeps : ∀ s s', C s → accepts s s' = true → C s') : Vouches C (watch accepts e m) m m := by
  intro s holds a s' passed
  obtain ⟨ran, accepted⟩ := watch_ok passed
  exact ⟨ran, ran, keeps s s' holds accepted⟩

end MockOracle.Semantics
