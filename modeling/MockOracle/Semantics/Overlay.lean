import Mathlib

/-!
# Stores and lists of point writes

A store maps addresses to contents. A list of writes is applied from left to right, so
the last write of an address decides it. Two lists of writes to disjoint addresses can
be applied in either order.
-/

namespace MockOracle.Semantics

variable {A V : Type} [DecidableEq A]

/-- Apply writes to a store, in order. -/
def overlay (writes : List (A × V)) (store : A → V) : A → V :=
  writes.foldl (fun store write => Function.update store write.1 write.2) store

namespace Overlay

variable {writes more : List (A × V)} {store store' : A → V} {a : A}

@[simp] theorem nil : overlay ([] : List (A × V)) store = store := rfl

@[simp] theorem cons (write : A × V) :
    overlay (write :: writes) store = overlay writes (Function.update store write.1 write.2) := rfl

theorem append : overlay (writes ++ more) store = overlay more (overlay writes store) :=
  List.foldl_append

/-- An address that is not written keeps its contents. -/
theorem of_absent (absent : a ∉ writes.map Prod.fst) : overlay writes store a = store a := by
  induction writes generalizing store with
  | nil => rfl
  | cons write rest ih =>
      simp only [List.map_cons, List.mem_cons, not_or] at absent
      rw [cons, ih absent.2, Function.update_of_ne absent.1]

/-- A written address does not depend on what the store held. -/
theorem of_mem (member : a ∈ writes.map Prod.fst) :
    overlay writes store a = overlay writes store' a := by
  induction writes generalizing store store' with
  | nil => simp at member
  | cons write rest ih =>
      rw [cons, cons]
      by_cases later : a ∈ rest.map Prod.fst
      · exact ih later
      · rw [of_absent later, of_absent later]
        have here : a = write.1 := by
          rcases List.mem_cons.mp member with here | there
          · exact here
          · exact absurd there later
        rw [here, Function.update_self, Function.update_self]

/-- The contents of an address after writes depend on its contents before only. -/
theorem congr (same : store a = store' a) : overlay writes store a = overlay writes store' a := by
  by_cases member : a ∈ writes.map Prod.fst
  · exact of_mem member
  · rw [of_absent member, of_absent member, same]

/-- A write that no later one overrides decides its address. -/
theorem of_last {write : A × V} (last : write.1 ∉ more.map Prod.fst) :
    overlay (writes ++ write :: more) store write.1 = write.2 := by
  rw [append, cons, of_absent last, Function.update_self]

/-- The contents of a written address come from one of its writes. -/
theorem exists_write (member : a ∈ writes.map Prod.fst) :
    (a, overlay writes store a) ∈ writes := by
  induction writes generalizing store with
  | nil => simp at member
  | cons write rest ih =>
      rw [cons]
      by_cases later : a ∈ rest.map Prod.fst
      · exact List.mem_cons_of_mem _ (ih later)
      · have here : a = write.1 := by
          rcases List.mem_cons.mp member with here | there
          · exact here
          · exact absurd there later
        rw [of_absent later, here, Function.update_self]
        exact List.mem_cons_self

/-- Writes to disjoint addresses commute. -/
theorem comm (disjoint : ∀ a ∈ writes.map Prod.fst, a ∉ more.map Prod.fst) :
    overlay writes (overlay more store) = overlay more (overlay writes store) := by
  funext a
  by_cases member : a ∈ writes.map Prod.fst
  · have kept : overlay more (overlay writes store) a = overlay writes store a :=
      of_absent (disjoint a member)
    rw [kept]
    exact congr (of_absent (disjoint a member))
  · rw [of_absent member]
    exact congr (of_absent member).symm

end Overlay

end MockOracle.Semantics
