import Mathlib.Data.List.Basic

/-!
# Stretches of a list of parts

A stretch of a list that is put together from parts runs through whole parts except for those at
its ends. So two of its elements are in one part, or every part between theirs lies inside the
stretch.
-/

namespace MockOracle.Semantics

variable {Part A : Type} {parts : List Part} {elements : Part → List A} {stretch : List A}

/-- A stretch at the front reaches an element through whole parts. -/
theorem exists_part_of_prefix (front : stretch <+: parts.flatMap elements) {y : A}
    (member : y ∈ stretch) :
    ∃ between part after, parts = between ++ part :: after ∧ y ∈ elements part ∧
      ∀ inner ∈ between, elements inner ⊆ stretch := by
  induction parts generalizing stretch with
  | nil =>
      rw [List.flatMap_nil, List.prefix_nil] at front
      rw [front] at member
      cases member
  | cons part parts ih =>
      rw [List.flatMap_cons] at front
      by_cases here : y ∈ elements part
      · exact ⟨[], part, parts, rfl, here, by simp⟩
      · obtain ⟨rest, whole⟩ := front
        rcases List.append_eq_append_iff.mp whole with ⟨tail, short, -⟩ | ⟨tail, long, later⟩
        · exact absurd (short ▸ List.mem_append_left _ member) here
        · have inTail : y ∈ tail := by
            rw [long] at member
            exact (List.mem_append.mp member).resolve_left here
          obtain ⟨between, other, after, rfl, among, inside⟩ := ih ⟨rest, later.symm⟩ inTail
          refine ⟨part :: between, other, after, rfl, among, List.forall_mem_cons.mpr ⟨?_, ?_⟩⟩
          · rw [long]
            exact List.subset_append_left _ _
          · intro inner memberInner
            rw [long]
            exact List.Subset.trans (inside inner memberInner) (List.subset_append_right _ _)

/-- What holds within each part, and between two parts with only parts of the stretch in between,
holds within the stretch. -/
theorem pairwise_of_stretch {R : A → A → Prop} (inside : stretch <:+: parts.flatMap elements)
    (within : ∀ part ∈ parts, (elements part).Pairwise R)
    (across : ∀ before first between second after,
      parts = before ++ first :: (between ++ second :: after) →
        (∀ inner ∈ between, elements inner ⊆ stretch) →
          ∀ x ∈ elements first, ∀ y ∈ elements second, x ∈ stretch → y ∈ stretch → R x y) :
    stretch.Pairwise R := by
  induction parts generalizing stretch with
  | nil =>
      rw [List.flatMap_nil, List.infix_nil] at inside
      rw [inside]
      exact .nil
  | cons part parts ih =>
      obtain ⟨here, later⟩ := List.forall_mem_cons.mp within
      have rest : ∀ {tail : List A}, tail <:+: parts.flatMap elements → tail ⊆ stretch →
          tail.Pairwise R := by
        intro tail inTail sub
        refine ih inTail later ?_
        rintro before first between second after rfl full x inFirst y inSecond memberX memberY
        exact across (part :: before) first between second after rfl
          (fun inner member => List.Subset.trans (full inner member) sub) x inFirst y inSecond (sub memberX)
          (sub memberY)
      rw [List.flatMap_cons, List.infix_append_iff] at inside
      rcases inside with inPart | inRest | ⟨head, tail, rfl, end_, front⟩
      · exact here.sublist inPart.sublist
      · exact rest inRest (List.Subset.refl _)
      · have sub : tail ⊆ head ++ tail := List.subset_append_right _ _
        refine List.pairwise_append.mpr ⟨here.sublist end_.sublist, rest front.isInfix sub, ?_⟩
        intro x inHead y inTail
        obtain ⟨between, second, after, rfl, among, full⟩ := exists_part_of_prefix front inTail
        exact across [] part between second after rfl
          (fun inner member => List.Subset.trans (full inner member) sub) x (end_.subset inHead) y among
          (List.mem_append_left _ inHead) (sub inTail)

end MockOracle.Semantics
