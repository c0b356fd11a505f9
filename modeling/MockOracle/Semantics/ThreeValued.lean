import Mathlib

/-!
# Three-valued logic

A condition is TRUE, FALSE or UNKNOWN. AND and OR are the strong ones: a side that decides the
result decides it whatever the other side is. A disjunction of no conditions is FALSE.
-/

namespace MockOracle.Semantics

/-- TRUE, FALSE, or `none` for UNKNOWN. -/
abbrev Truth := Option Bool

namespace Truth

/-- Kleene's negation. -/
def not (t : Truth) : Truth := t.map (!·)

/-- Kleene's conjunction. -/
def and : Truth → Truth → Truth
  | some false, _ | _, some false => some false
  | some true, some true => some true
  | _, _ => none

/-- Kleene's disjunction. -/
def or : Truth → Truth → Truth
  | some true, _ | _, some true => some true
  | some false, some false => some false
  | _, _ => none

/-- The disjunction of the conditions of a list. -/
def any (ts : List Truth) : Truth := ts.foldr or (some false)

/-- A condition, or its negation. -/
def negateIf (negated : Bool) (t : Truth) : Truth := if negated then not t else t

@[simp] theorem any_nil : any [] = some false := rfl

@[simp] theorem any_cons (t : Truth) (ts : List Truth) : any (t :: ts) = or t (any ts) := rfl

/-- FALSE is neutral for the disjunction on the right. -/
@[simp] theorem or_false (t : Truth) : or t (some false) = t := by
  rcases t with _ | _ | _ <;> rfl

/-- It is so on the left. -/
@[simp] theorem false_or (t : Truth) : or (some false) t = t := by
  rcases t with _ | _ | _ <;> rfl

/-- TRUE absorbs the disjunction. -/
@[simp] theorem true_or (t : Truth) : or (some true) t = some true := by
  rcases t with _ | _ | _ <;> rfl

/-- The disjunction is associative. -/
theorem or_assoc (s t u : Truth) : or (or s t) u = or s (or t u) := by
  rcases s with _ | _ | _ <;> rcases t with _ | _ | _ <;> rcases u with _ | _ | _ <;> rfl

/-- The disjunction is commutative. -/
theorem or_comm (s t : Truth) : or s t = or t s := by
  rcases s with _ | _ | _ <;> rcases t with _ | _ | _ <;> rfl

/-- The disjunction is idempotent. -/
@[simp] theorem or_self (t : Truth) : or t t = t := by
  rcases t with _ | _ | _ <;> rfl

/-- Conditions that are all UNKNOWN have an UNKNOWN disjunction, when there is one. -/
theorem any_unknown {ts : List Truth} (unknown : ∀ t ∈ ts, t = none) (some_ : ts ≠ []) :
    any ts = none := by
  induction ts with
  | nil => exact absurd rfl some_
  | cons t ts ih =>
      rw [any_cons, unknown t List.mem_cons_self]
      rcases ts with _ | ⟨u, us⟩
      · rfl
      · rw [ih (fun t member => unknown t (List.mem_cons_of_mem _ member)) (by simp), or_self]

/-- Negation that depends on a flag is comparison with the flag. -/
theorem negateIf_eq_map (negated : Bool) (t : Truth) :
    negateIf negated t = t.map (· != negated) := by
  rcases t with _ | _ | _ <;> cases negated <;> rfl

/-- A negation, done or not, tells truth values apart. -/
theorem negateIf_injective (negated : Bool) {s t : Truth}
    (equal : negateIf negated s = negateIf negated t) : s = t := by
  rcases s with _ | _ | _ <;> rcases t with _ | _ | _ <;> cases negated <;> simp_all [negateIf, not]

end Truth

end MockOracle.Semantics
