import Mathlib.Logic.Basic

/-!
# Steady computations

A computation with state and failure may move within a class of states that are alike for
everything that follows. It returns a value if it gives that value from every state of the class
and stays there. One computation follows another if it returns whatever the other gives once; a
computation that follows itself is steady. Following composes along sequencing, and what a
sequence of steady computations returns can be taken apart again.
-/

namespace MockOracle.Semantics

variable {ε σ α β : Type} {C : σ → Prop}

/-- From every state of the class the computation gives `a` and stays in the class. -/
def Returns (C : σ → Prop) (m : EStateM ε σ α) (a : α) : Prop :=
  ∀ s, C s → ∃ s', m s = .ok a s' ∧ C s'

/-- What `m` gives from one state of the class, `m'` gives from every one. -/
def Follows (C : σ → Prop) (m m' : EStateM ε σ α) : Prop :=
  ∀ s a s', C s → m s = .ok a s' → C s' ∧ Returns C m' a

/-- What the computation gives from one state of the class it gives from every one. -/
def Steady (C : σ → Prop) (m : EStateM ε σ α) : Prop := Follows C m m

namespace Returns

variable {m : EStateM ε σ α} {f : α → EStateM ε σ β} {a : α} {b : β}

/-- A value alone is returned. -/
theorem pure_ (a : α) : Returns C (pure a : EStateM ε σ α) a := fun s holds => ⟨s, rfl, holds⟩

/-- Computations after each other return what the second one returns. -/
theorem bind_ (first : Returns C m a) (rest : Returns C (f a) b) : Returns C (m >>= f) b := by
  intro s holds
  obtain ⟨s', ran, kept⟩ := first s holds
  obtain ⟨s'', ran', kept'⟩ := rest s' kept
  refine ⟨s'', ?_, kept'⟩
  simp only [bind, EStateM.bind, ran, ran']

/-- A mapped value is returned. -/
theorem map_ (g : α → β) (returns : Returns C m a) : Returns C (g <$> m) (g a) := by
  intro s holds
  obtain ⟨s', ran, kept⟩ := returns s holds
  refine ⟨s', ?_, kept⟩
  simp only [Functor.map, EStateM.map, ran]

/-- A computation that reads the state first, and then does the same from every state of the
class. -/
theorem get_ {f : σ → EStateM ε σ α} (rest : ∀ s, C s → Returns C (f s) a) :
    Returns C (get >>= f) a := fun s holds => rest s holds s holds

/-- From a state of the class at most one value is returned. -/
theorem unique {a' : α} {s : σ} (holds : C s) (returns : Returns C m a) (returns' : Returns C m a') :
    a = a' := by
  obtain ⟨s₁, ran, -⟩ := returns s holds
  obtain ⟨s₂, ran', -⟩ := returns' s holds
  rw [ran] at ran'
  cases ran'
  rfl

end Returns

namespace Follows

variable {m m' : EStateM ε σ α} {f f' : α → EStateM ε σ β}

/-- A value alone follows itself. -/
theorem pure_ (a : α) : Follows C (pure a : EStateM ε σ α) (pure a) := by
  intro s b s' holds ran
  cases ran
  exact ⟨holds, .pure_ a⟩

/-- What fails is followed by anything. -/
theorem throw_ (e : ε) (m : EStateM ε σ α) : Follows C (throw e) m := by
  intro s a s' holds ran
  cases ran

/-- Sequencing, where the second part may rely on the result being one of the first part's. -/
theorem bind_result (first : Follows C m m')
    (rest : ∀ a, (∃ s s', m s = .ok a s') → Follows C (f a) (f' a)) :
    Follows C (m >>= f) (m' >>= f') := by
  intro s b s'' holds ran
  simp only [bind, EStateM.bind] at ran
  cases middle : m s with
  | ok a s' =>
      rw [middle] at ran
      obtain ⟨kept, returns⟩ := first s a s' holds middle
      obtain ⟨kept', returns'⟩ := rest a ⟨s, s', middle⟩ s' b s'' kept ran
      exact ⟨kept', returns.bind_ returns'⟩
  | error e s' =>
      rw [middle] at ran
      cases ran

/-- Computations after each other follow each other. -/
theorem bind_ (first : Follows C m m') (rest : ∀ a, Follows C (f a) (f' a)) :
    Follows C (m >>= f) (m' >>= f') :=
  bind_result first fun a _ => rest a

/-- Mapped computations follow each other. -/
theorem map_ (g : α → β) (follows : Follows C m m') : Follows C (g <$> m) (g <$> m') := by
  intro s b s' holds ran
  simp only [Functor.map, EStateM.map] at ran
  cases middle : m s with
  | ok a s₁ =>
      rw [middle] at ran
      cases ran
      obtain ⟨kept, returns⟩ := follows s a s' holds middle
      exact ⟨kept, returns.map_ g⟩
  | error e s₁ =>
      rw [middle] at ran
      cases ran

/-- What is read of the state is the same throughout the class. -/
theorem get_ {f f' : σ → EStateM ε σ α} (same : ∀ s t, C s → C t → f' s = f' t)
    (rest : ∀ s, C s → Follows C (f s) (f' s)) : Follows C (get >>= f) (get >>= f') := by
  intro s a s' holds ran
  obtain ⟨kept, returns⟩ := rest s holds s a s' holds ran
  refine ⟨kept, Returns.get_ fun t held => ?_⟩
  rw [same t s held holds]
  exact returns

/-- What one computation gives, the other returns. -/
theorem returns {a : α} {s s' : σ} (follows : Follows C m m') (holds : C s) (ran : m s = .ok a s') :
    Returns C m' a := (follows s a s' holds ran).2

end Follows

/-! ## Taking computations apart -/

/-- From some state of the class the computation gives `a`. -/
def Gives (C : σ → Prop) (m : EStateM ε σ α) (a : α) : Prop := ∃ s s', C s ∧ m s = .ok a s'

/-- What is returned is given. -/
theorem Returns.gives {m : EStateM ε σ α} {a : α} {s : σ} (returns : Returns C m a) (holds : C s) :
    Gives C m a := by
  obtain ⟨s', ran, -⟩ := returns s holds
  exact ⟨s, s', holds, ran⟩

/-- What is given, a computation that follows returns. -/
theorem Follows.of_gives {m m' : EStateM ε σ α} {a : α} (follows : Follows C m m')
    (gives : Gives C m a) : Returns C m' a := by
  obtain ⟨s, s', holds, ran⟩ := gives
  exact follows.returns holds ran

namespace Gives

variable {m : EStateM ε σ α} {f : α → EStateM ε σ β} {a : α} {b : β}

/-- What a steady computation and a second one give is given by the second one from what the first
one returns. -/
theorem of_bind (first : Steady C m) (gives : Gives C (m >>= f) b) :
    ∃ a, Returns C m a ∧ Gives C (f a) b := by
  obtain ⟨s, s'', holds, ran⟩ := gives
  simp only [bind, EStateM.bind] at ran
  cases middle : m s with
  | ok a s' =>
      rw [middle] at ran
      obtain ⟨kept, returns⟩ := first s a s' holds middle
      exact ⟨a, returns, s', s'', kept, ran⟩
  | error e s' =>
      rw [middle] at ran
      cases ran

/-- What two computations give comes from something that the first one gives. -/
theorem first (gives : Gives C (m >>= f) b) : ∃ a, Gives C m a := by
  obtain ⟨s, s'', holds, ran⟩ := gives
  simp only [bind, EStateM.bind] at ran
  cases middle : m s with
  | ok a s' => exact ⟨a, s, s', holds, middle⟩
  | error e s' =>
      rw [middle] at ran
      cases ran

/-- What is given as the image of a value comes from the value that is returned. -/
theorem of_map {g : α → β} (steady : Steady C m) (gives : Gives C (g <$> m) b) :
    ∃ a, Returns C m a ∧ b = g a := by
  obtain ⟨s, s', holds, ran⟩ := gives
  simp only [Functor.map, EStateM.map] at ran
  cases middle : m s with
  | ok a s₁ =>
      rw [middle] at ran
      cases ran
      exact ⟨a, steady.returns holds middle, rfl⟩
  | error e s₁ =>
      rw [middle] at ran
      cases ran

/-- A value alone gives this value. -/
theorem of_pure {a' : α} (gives : Gives C (pure a : EStateM ε σ α) a') : a' = a := by
  obtain ⟨s, s', -, ran⟩ := gives
  cases ran
  rfl

/-- A failure gives nothing. -/
theorem not_throw {e : ε} : ¬ Gives C (throw e : EStateM ε σ α) a := by
  rintro ⟨s, s', -, ran⟩
  cases ran

/-- What comes after a failure gives nothing. -/
theorem not_throw_bind {e : ε} : ¬ Gives C ((throw e : EStateM ε σ α) >>= f) b := by
  rintro ⟨s, s', -, ran⟩
  cases ran

end Gives

/-! ## Realizing computations with other states -/

/-- What `m` gives from a state of its class, `m'` returns throughout its own. -/
def Realizes {τ δ : Type} (C : σ → Prop) (D : τ → Prop) (m : EStateM ε σ α) (m' : EStateM δ τ α) :
    Prop := ∀ {a}, Gives C m a → Returns D m' a

namespace Realizes

variable {τ δ : Type} {D : τ → Prop} {m : EStateM ε σ α} {m' : EStateM δ τ α}
  {f : α → EStateM ε σ β} {f' : α → EStateM δ τ β}

/-- A value alone is realized. -/
theorem pure_ (a : α) : Realizes C D (pure a : EStateM ε σ α) (pure a : EStateM δ τ α) := by
  intro b gives
  cases gives.of_pure
  exact .pure_ a

/-- Computations after each other are realized, when the first one is steady. -/
theorem bind_ (steady : Steady C m) (first : Realizes C D m m')
    (rest : ∀ a, Realizes C D (f a) (f' a)) : Realizes C D (m >>= f) (m' >>= f') := by
  intro b gives
  obtain ⟨s, s'', holds, ran⟩ := gives
  simp only [bind, EStateM.bind] at ran
  cases middle : m s with
  | ok a s' =>
      rw [middle] at ran
      exact Returns.bind_ (first ⟨s, s', holds, middle⟩)
        (rest a ⟨s', s'', (steady s a s' holds middle).1, ran⟩)
  | error e s' =>
      rw [middle] at ran
      cases ran

end Realizes

end MockOracle.Semantics
