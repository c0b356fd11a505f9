import Mathlib.Data.List.Basic
import Mathlib.Tactic.Common

/-!
# Scanners

A program that reads a text from its front in steps. A step reads at least one character and leaves
the rest of the text to the next. Runs are a function with a bound for the number of steps, and a
relation without one; a bound of the text's length is enough.
-/

namespace MockOracle.Semantics

variable {σ α : Type} {m : Type → Type} [Monad m]

/-- Steps to the end of the text, `fuel` at most. -/
def scanText (step : σ → α → List α → m (σ × List α)) : Nat → σ → List α → m σ
  | _, s, [] => pure s
  | 0, s, _ :: _ => pure s
  | fuel + 1, s, c :: rest => do
      let (s', rest') ← step s c rest
      scanText step fuel s' rest'

/-- A run from a state over a text to its end. -/
inductive Scans (step : σ → α → List α → m (σ × List α)) : σ → List α → σ → Prop
  | done (s : σ) : Scans step s [] s
  | step {s s' final : σ} {c : α} {rest rest' : List α} (read : step s c rest = pure (s', rest'))
      (further : Scans step s' rest' final) : Scans step s (c :: rest) final

/-- A step leaves no more than the text behind its character. -/
def Shortens (step : σ → α → List α → m (σ × List α)) : Prop :=
  ∀ ⦃s c rest s' rest'⦄, step s c rest = pure (s', rest') → rest'.length ≤ rest.length

/-- Where a sequence of two programs returns, the first one does and then the second. -/
def Sequential (m : Type → Type) [Monad m] : Prop :=
  ∀ ⦃α β : Type⦄ ⦃x : m α⦄ ⦃f : α → m β⦄ ⦃b : β⦄, x >>= f = pure b →
    ∃ a, x = pure a ∧ f a = pure b

theorem sequential_id : Sequential Id := fun _ _ x _ _ returns => ⟨x, rfl, returns⟩

theorem sequential_except (ε : Type) : Sequential (Except ε) := by
  intro α β x f b returns
  cases x with
  | error e => cases returns
  | ok a => exact ⟨a, rfl, returns⟩

section Runs

variable {step : σ → α → List α → m (σ × List α)}

/-- With fuel for the text's length the function and the relation describe the same runs. -/
theorem scanText_eq_pure_iff [LawfulMonad m] (sequential : Sequential m)
    (injective : ∀ a b : σ, (pure a : m σ) = pure b → a = b) (shortens : Shortens step)
    {fuel : Nat} {s final : σ} {text : List α} (enough : text.length ≤ fuel) :
    scanText step fuel s text = pure final ↔ Scans step s text final := by
  induction fuel generalizing s text with
  | zero =>
      obtain rfl := List.length_eq_zero_iff.mp (Nat.le_zero.mp enough)
      constructor
      · intro same
        obtain rfl := injective _ _ same
        exact .done s
      · rintro ⟨⟩
        rfl
  | succ fuel ih =>
      cases text with
      | nil =>
          constructor
          · intro same
            obtain rfl := injective _ _ same
            exact .done s
          · rintro ⟨⟩
            rfl
      | cons c rest =>
          rw [List.length_cons, Nat.add_le_add_iff_right] at enough
          constructor
          · intro returns
            obtain ⟨⟨s', rest'⟩, read, further⟩ := sequential returns
            exact .step read ((ih (Nat.le_trans (shortens read) enough)).mp further)
          · rintro (_ | ⟨read, further⟩)
            rw [scanText, read, pure_bind]
            exact (ih (Nat.le_trans (shortens read) enough)).mpr further

end Runs

end MockOracle.Semantics
