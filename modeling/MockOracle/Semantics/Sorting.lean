import Mathlib.Data.List.Basic
import Mathlib.Order.Compare
import Mathlib.Tactic.Ring

/-!
# Sorting by a comparison

A comparison that is a total preorder on the elements at hand sorts them: the result is ordered, is
a permutation, and keeps elements that compare equal in their order. Total preorders are built from
a map to a linear order, by reversal, by placing some elements first or last, and by deciding ties
with another one. Pages of a list, one after another, are the list.
-/

namespace MockOracle.Semantics

variable {α β : Type}

/-- The comparison is a total preorder on the elements that satisfy `S`. -/
structure Preorders (S : α → Prop) (cmp : α → α → Ordering) : Prop where
  swap : ∀ {a b}, S a → S b → cmp b a = (cmp a b).swap
  trans : ∀ {a b c}, S a → S b → S c → cmp a b ≠ .gt → cmp b c ≠ .gt → cmp a c ≠ .gt

namespace Preorders

variable {S : α → Prop} {T : β → Prop} {cmp cmp' : α → α → Ordering} {tie : β → β → Ordering}

/-- Comparing images in a linear order. -/
theorem of_image [LinearOrder β] (f : α → β)
    (image : ∀ {a b}, S a → S b → cmp a b = compare (f a) (f b)) : Preorders S cmp where
  swap first second := by
    rw [image first second, image second first]
    exact Std.OrientedCmp.eq_swap
  trans first second third le le' := by
    rw [image first second, compare_le_iff_le] at le
    rw [image second third, compare_le_iff_le] at le'
    rw [image first third, compare_le_iff_le]
    exact le.trans le'

/-- Only the results on the elements at hand count. -/
theorem congr (order : Preorders S cmp) (same : ∀ {a b}, S a → S b → cmp' a b = cmp a b) :
    Preorders S cmp' where
  swap first second := by
    rw [same first second, same second first]
    exact order.swap first second
  trans first second third := by
    rw [same first second, same second third, same first third]
    exact order.trans first second third

theorem comap (order : Preorders T tie) (f : α → β) :
    Preorders (fun a => T (f a)) fun a b => tie (f a) (f b) where
  swap first second := order.swap first second
  trans first second third := order.trans first second third

theorem mono (order : Preorders S cmp) {R : α → Prop} (part : ∀ a, R a → S a) : Preorders R cmp where
  swap first second := order.swap (part _ first) (part _ second)
  trans first second third := order.trans (part _ first) (part _ second) (part _ third)

theorem reverse (order : Preorders S cmp) : Preorders S fun a b => (cmp a b).swap where
  swap first second := by rw [order.swap first second]
  trans {a b c} first second third le le' := by
    rw [← order.swap first second] at le
    rw [← order.swap second third] at le'
    rw [← order.swap first third]
    exact order.trans third second first le' le

/-- Some elements stand together in front of the others, or behind them. -/
theorem apart {p : α → Bool} (order : Preorders (fun a => S a ∧ p a = false) cmp) (front : Bool) :
    Preorders S fun a b =>
      match p a, p b with
      | true, true => .eq
      | true, false => if front then .lt else .gt
      | false, true => if front then .gt else .lt
      | false, false => cmp a b where
  swap {a b} first second := by
    cases left : p a <;> cases right : p b
    · exact order.swap ⟨first, left⟩ ⟨second, right⟩
    · cases front <;> rfl
    · cases front <;> rfl
    · rfl
  trans {a b c} first second third := by
    cases left : p a <;> cases middle : p b <;> cases right : p c
    · exact order.trans ⟨first, left⟩ ⟨second, middle⟩ ⟨third, right⟩
    all_goals cases front <;> simp

/-- Elements that compare equal compare alike with others. -/
theorem eq_trans (order : Preorders S cmp) {a b c : α} (first : S a) (second : S b) (third : S c)
    (equal : cmp a b = .eq) : cmp a c = cmp b c := by
  have equal' : cmp b a = .eq := by rw [order.swap first second, equal]; rfl
  have forth : cmp b c ≠ .gt → cmp a c ≠ .gt := order.trans first second third (by simp [equal])
  have back : cmp a c ≠ .gt → cmp b c ≠ .gt := order.trans second first third (by simp [equal'])
  have forth' : cmp c b ≠ .gt → cmp c a ≠ .gt := fun le => order.trans third second first le (by simp [equal'])
  have back' : cmp c a ≠ .gt → cmp c b ≠ .gt := fun le => order.trans third first second le (by simp [equal])
  rw [order.swap second third, order.swap first third] at forth' back'
  cases left : cmp a c <;> cases right : cmp b c <;> simp_all

/-- Ties are decided by another comparison. -/
theorem pair (order : Preorders S cmp) (ties : Preorders T tie) :
    Preorders (fun p : α × β => S p.1 ∧ T p.2) fun p q => (cmp p.1 q.1).then (tie p.2 q.2) where
  swap first second := by
    rw [order.swap first.1 second.1, ties.swap first.2 second.2, Ordering.swap_then]
  trans {p q r} first second third le le' := by
    have whole := order.trans first.1 second.1 third.1
    cases left : cmp p.1 q.1 with
    | gt =>
        rw [left] at le
        exact absurd rfl le
    | eq =>
        rw [order.eq_trans first.1 second.1 third.1 left]
        rw [left] at le
        cases right : cmp q.1 r.1 with
        | gt =>
            rw [right] at le'
            exact absurd rfl le'
        | lt => simp
        | eq =>
            rw [right] at le'
            exact ties.trans first.2 second.2 third.2 le le'
    | lt =>
        have notAfter : cmp q.1 r.1 ≠ .gt := by
          intro after
          rw [after] at le'
          exact le' rfl
        have less : cmp p.1 r.1 = .lt := by
          cases middle : cmp p.1 r.1 with
          | lt => rfl
          | gt => exact absurd middle (whole (by simp [left]) notAfter)
          | eq =>
              have same := order.eq_trans first.1 third.1 second.1 middle
              rw [left, order.swap second.1 third.1] at same
              cases right : cmp q.1 r.1 with
              | gt => exact absurd right notAfter
              | lt =>
                  rw [right] at same
                  cases same
              | eq =>
                  rw [right] at same
                  cases same
        rw [less]
        simp

/-! ## Sorted lists -/

/-- Sorting by the comparison: the result is ordered, has the same elements, and keeps those that
compare equal with one of them in their order. -/
theorem mergeSort_spec (order : Preorders S cmp) {l : List α} (all : ∀ a ∈ l, S a) :
    (l.mergeSort fun a b => cmp a b != .gt).Perm l ∧
      (l.mergeSort fun a b => cmp a b != .gt).Pairwise (fun a b => cmp a b ≠ .gt) ∧
      ∀ r, S r → (l.mergeSort fun a b => cmp a b != .gt).filter (fun a => cmp a r == .eq) =
        l.filter fun a => cmp a r == .eq := by
  -- The library's lemmas want an order on the whole type, so the elements carry that they satisfy S.
  let le : {a // S a} → {a // S a} → Bool := fun a b => cmp a b != .gt
  have trans : ∀ a b c, le a b → le b c → le a c := by
    intro a b c first second
    simp only [le, bne_iff_ne] at first second ⊢
    exact order.trans a.2 b.2 c.2 first second
  have total : ∀ a b, le a b || le b a := by
    intro a b
    simp only [le, order.swap a.2 b.2]
    cases cmp a.1 b.1 <;> rfl
  let marked := l.attachWith S all
  have values : marked.map Subtype.val = l := List.attachWith_map_subtype_val all
  have sorted : (l.mergeSort fun a b => cmp a b != .gt) = (marked.mergeSort le).map Subtype.val := by
    rw [List.map_mergeSort (s := fun a b => cmp a b != .gt) (fun _ _ _ _ => rfl), values]
  have perm := List.mergeSort_perm l fun a b => cmp a b != .gt
  refine ⟨perm, ?_, fun r member => ?_⟩
  · rw [sorted, List.pairwise_map]
    refine (List.pairwise_mergeSort trans total marked).imp ?_
    intro a b before
    simpa [le] using before
  · -- The equal elements are ordered among themselves, and sorting keeps ordered sublists.
    have equals : (marked.filter fun a => cmp a.1 r == .eq).Pairwise fun a b => le a b := by
      refine List.Pairwise.imp_of_mem (R := fun _ _ => True) ?_ (List.pairwise_of_forall fun _ _ => trivial)
      intro a b left right _
      have left' : cmp a.1 r = .eq := by simpa using List.of_mem_filter left
      have right' : cmp b.1 r = .eq := by simpa using List.of_mem_filter right
      have same := order.eq_trans a.2 member b.2 left'
      simp only [le, same, order.swap b.2 member, right']
      rfl
    have kept := List.sublist_mergeSort trans total equals List.filter_sublist
    have kept' := (kept.map Subtype.val).filter fun a => cmp a r == .eq
    have same : (marked.filter fun a => cmp a.1 r == .eq).map Subtype.val =
        l.filter fun a => cmp a r == .eq := by
      conv => rhs; rw [← values, List.filter_map]
      rfl
    rw [same, List.filter_filter, ← sorted] at kept'
    simp only [Bool.and_self] at kept'
    exact (kept'.eq_of_length (perm.filter _).length_eq.symm).symm

end Preorders

/-! ## Pages -/

/-- The pages of a list, one after another. -/
theorem flatMap_pages (l : List α) (size count : Nat) :
    (List.range count).flatMap (fun i => (l.drop (i * size)).take size) = l.take (count * size) := by
  induction count with
  | zero => simp
  | succ count ih =>
      rw [List.range_succ, List.flatMap_append, ih, List.flatMap_singleton, Nat.add_mul, Nat.one_mul,
        List.take_add]

end MockOracle.Semantics
