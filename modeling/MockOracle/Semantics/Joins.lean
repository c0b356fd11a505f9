import Mathlib

/-!
# Joins of multisets

The join of two multisets has a pair for each two occurrences that a condition accepts. An
outer join also keeps the occurrences without a partner, of one side or of both. Joining in the
other order gives the same pairs the other way round.
-/

namespace MockOracle.Semantics

variable {α β : Type} (on : α → β → Prop) [∀ a b, Decidable (on a b)]

/-- The pairs of occurrences that the condition accepts. -/
def matches_ (left : Multiset α) (right : Multiset β) : Multiset (α × β) :=
  (left ×ˢ right).filter fun p => on p.1 p.2

/-- The occurrences on the left without a partner. -/
def unmatched (left : Multiset α) (right : Multiset β) : Multiset α :=
  left.filter fun a => ∀ b ∈ right, ¬ on a b

/-- The join that keeps what has no partner on the sides it is told to. -/
def outerJoin (keepLeft keepRight : Bool) (left : Multiset α) (right : Multiset β) :
    Multiset (Option α × Option β) :=
  (matches_ on left right).map (fun p => (some p.1, some p.2)) +
    (if keepLeft then (unmatched on left right).map fun a => (some a, none) else 0) +
    if keepRight then (unmatched (fun b a => on a b) right left).map fun b => (none, some b) else 0

@[simp] theorem matches_zero (right : Multiset β) : matches_ on 0 right = 0 := rfl

theorem matches_cons (a : α) (left : Multiset α) (right : Multiset β) :
    matches_ on (a ::ₘ left) right = (right.filter (on a)).map (Prod.mk a) + matches_ on left right := by
  rw [matches_, Multiset.cons_product, Multiset.filter_add, Multiset.filter_map]
  rfl

@[simp] theorem unmatched_zero (right : Multiset β) : unmatched on 0 right = 0 := rfl

theorem unmatched_cons (a : α) (left : Multiset α) (right : Multiset β) :
    unmatched on (a ::ₘ left) right =
      (if ∀ b ∈ right, ¬ on a b then {a} else 0) + unmatched on left right := by
  unfold unmatched
  split
  · next alone => rw [Multiset.filter_cons_of_pos _ alone, Multiset.singleton_add]
  · next met => rw [Multiset.filter_cons_of_neg _ met, zero_add]

/-- One more occurrence on the left adds its pairs, or itself when it has none and is kept. -/
theorem outerJoin_cons (keepLeft : Bool) (a : α) (left : Multiset α) (right : Multiset β) :
    outerJoin on keepLeft false (a ::ₘ left) right =
      ((right.filter (on a)).map (fun b => (some a, some b)) +
        if keepLeft ∧ ∀ b ∈ right, ¬ on a b then {(some a, none)} else 0) +
      outerJoin on keepLeft false left right := by
  unfold outerJoin
  rw [matches_cons, unmatched_cons, Multiset.map_add, Multiset.map_map]
  cases keepLeft with
  | false =>
      simp only [Bool.false_eq_true, if_false, false_and, add_zero]
      rfl
  | true =>
      simp only [if_true, true_and, Bool.false_eq_true, if_false, add_zero, Multiset.map_add]
      rw [add_add_add_comm]
      congr 2
      split
      · rw [Multiset.map_singleton]
      · rw [Multiset.map_zero]

/-- What a join that keeps the right side adds. -/
theorem outerJoin_right (keepLeft : Bool) (left : Multiset α) (right : Multiset β) :
    outerJoin on keepLeft true left right = outerJoin on keepLeft false left right +
      (unmatched (fun b a => on a b) right left).map fun b => (none, some b) := by
  simp only [outerJoin, if_true, Bool.false_eq_true, if_false, add_zero]

/-- What a join takes from the left is an occurrence there. -/
theorem mem_of_mem_outerJoin {keepLeft keepRight : Bool} {left : Multiset α} {right : Multiset β}
    {a : α} {b : Option β} (member : (some a, b) ∈ outerJoin on keepLeft keepRight left right) :
    a ∈ left := by
  unfold outerJoin at member
  rw [Multiset.mem_add, Multiset.mem_add] at member
  rcases member with (pair | alone) | other
  · obtain ⟨p, among, same⟩ := Multiset.mem_map.mp pair
    rw [Prod.mk.injEq, Option.some.injEq] at same
    rw [← same.1]
    exact (Multiset.mem_product.mp (Multiset.mem_of_mem_filter among)).1
  · split at alone
    · obtain ⟨c, among, same⟩ := Multiset.mem_map.mp alone
      rw [Prod.mk.injEq, Option.some.injEq] at same
      rw [← same.1]
      exact Multiset.mem_of_mem_filter among
    · simp at alone
  · split at other
    · obtain ⟨c, -, same⟩ := Multiset.mem_map.mp other
      cases same
    · simp at other

theorem matches_swap (left : Multiset α) (right : Multiset β) :
    (matches_ on left right).map Prod.swap = matches_ (fun b a => on a b) right left := by
  rw [matches_, matches_, ← Multiset.map_swap_product left right, Multiset.filter_map]
  rfl

/-- Joining in the other order keeps the other sides and swaps the pairs. -/
theorem outerJoin_swap (keepLeft keepRight : Bool) (left : Multiset α) (right : Multiset β) :
    (outerJoin on keepLeft keepRight left right).map Prod.swap =
      outerJoin (fun b a => on a b) keepRight keepLeft right left := by
  unfold outerJoin
  rw [← matches_swap, Multiset.map_add, Multiset.map_add, Multiset.map_map, Multiset.map_map,
    add_assoc, add_assoc]
  congr 1
  rw [add_comm]
  congr 1
  · split
    · rw [Multiset.map_map]
      rfl
    · rfl
  · split
    · rw [Multiset.map_map]
      rfl
    · rfl

end MockOracle.Semantics
