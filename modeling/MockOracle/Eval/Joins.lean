import MockOracle.Eval.Evaluate
import MockOracle.Eval.Plain
import MockOracle.Eval.Literal
import MockOracle.Semantics.Joins

/-!
# Joins

The evaluator joins two relations in nested loops, with a flag for the current left row and one
for each right row. Its result is the join of the multisets of rows: a row for each pair of
occurrences for which ON is TRUE, and the rows without a partner padded with NULLs on the sides
the join keeps.
-/

namespace MockOracle

open Semantics
open Std (ExtTreeMap)

/-! ## The loops -/

/-- Whether ON accepts a pair of rows. Without ON every pair is accepted. -/
def joinAccepts (self : Recur) (ex : Ex) (parent : Option Scope) (cols : List RelCol)
    (on : Option Expr) (row : Row) : EvalM Bool :=
  match on with
  | some on => do return (← self.evalBool ex on (.row cols row parent)) == some true
  | none => return true

/-- The rows so far and the flags of the right rows. -/
structure JoinLoop where
  rows : List Row
  rightMatched : List Bool

section Loops

variable (accepts : Row → EvalM Bool)

/-- The inner loop: every right row against one left row, with that row's flag. -/
def joinRight (l : Row) : List (Row × Nat) → Bool → JoinLoop → EvalM (Bool × JoinLoop)
  | [], matched, loop => return (matched, loop)
  | (r, ri) :: rest, matched, loop => do
      if ← accepts (l ++ r) then
        joinRight l rest true ⟨loop.rows ++ [l ++ r], loop.rightMatched.set ri true⟩
      else joinRight l rest matched loop

/-- The outer loop: every left row. -/
def joinLeft (keepLeft : Bool) (rw : Nat) (right : List Row) : List Row → JoinLoop → EvalM JoinLoop
  | [], loop => return loop
  | l :: rest, loop => do
      let (matched, loop) ← joinRight accepts l right.zipIdx false loop
      joinLeft keepLeft rw right rest
        (if !matched && keepLeft then { loop with rows := loop.rows ++ [l ++ List.replicate rw .null] }
        else loop)

/-- The right rows whose flag is not set, padded on the left. -/
def joinAlone (lw : Nat) (right : List Row) (rightMatched : List Bool) : List Row :=
  ((right.zip rightMatched).filter fun r => !r.2).map fun r => List.replicate lw .null ++ r.1

/-- The inner loop collects the right rows that are accepted. -/
theorem joinRight_eq (l : Row) (right : List (Row × Nat)) (matched : Bool) (loop : JoinLoop) :
    joinRight accepts l right matched loop = do
      let found ← keepWhere (fun r => accepts (l ++ r.1)) right
      return (matched || !found.isEmpty, ⟨loop.rows ++ found.map fun r => l ++ r.1,
        found.foldl (fun flags r => flags.set r.2 true) loop.rightMatched⟩) := by
  induction right generalizing matched loop with
  | nil => simp [joinRight, keepWhere]
  | cons r rest ih =>
      simp only [joinRight, keepWhere, bind_assoc]
      refine bind_congr fun kept => ?_
      cases kept
      · simp [ih]
      · simp [ih]

/-- The rows the outer loop adds for the left rows, from the right rows found for each. -/
def joinPairs (keepLeft : Bool) (rw : Nat) (left : List Row) (matched : List (List (Row × Nat))) :
    List Row :=
  (left.zip matched).flatMap fun entry =>
    if entry.2.isEmpty ∧ keepLeft then [entry.1 ++ List.replicate rw .null]
    else entry.2.map fun r => entry.1 ++ r.1

/-- What the loop over the left rows adds: their pairs, and the flags of the right rows they match.
-/
theorem joinLeft_eq (keepLeft : Bool) (rw : Nat) (left right : List Row) (loop : JoinLoop) :
    joinLeft accepts keepLeft rw right left loop = do
      let matched ← forEach (fun l => keepWhere (fun r => accepts (l ++ r.1)) right.zipIdx) left
      return ⟨loop.rows ++ joinPairs keepLeft rw left matched,
        matched.flatten.foldl (fun flags r => flags.set r.2 true) loop.rightMatched⟩ := by
  induction left generalizing loop with
  | nil => simp [joinLeft, forEach, joinPairs]
  | cons l rest ih =>
      simp only [joinLeft, forEach, joinRight_eq, bind_assoc, pure_bind]
      refine bind_congr fun found => ?_
      rw [ih]
      refine bind_congr fun matched => ?_
      rcases found with _ | ⟨r, found⟩ <;> cases keepLeft <;> simp [joinPairs]

end Loops

/-- A flag is set when it was, or when its row is among those found. -/
theorem getElem?_setFlags (found : List (Row × Nat)) (flags : List Bool) (i : Nat) :
    (found.foldl (fun flags r => flags.set r.2 true) flags)[i]? =
      flags[i]?.map fun flag => flag || found.any fun r => r.2 = i := by
  induction found generalizing flags with
  | nil => simp
  | cons r rest ih =>
      rw [List.foldl_cons, ih, List.getElem?_set]
      by_cases here : r.2 = i
      · rcases Nat.lt_or_ge i flags.length with inside | outside
        · simp [here, inside]
        · simp [here, outside]
      · simp [here]

/-- The right rows whose flag stays unset are those found for no left row. -/
theorem joinAlone_eq (lw : Nat) (right : List Row) (matched : List (List (Row × Nat))) :
    joinAlone lw right (matched.flatten.foldl (fun flags r => flags.set r.2 true)
        (List.replicate right.length false)) =
      (right.zipIdx.filter fun r => matched.all fun found => found.all fun m => m.2 ≠ r.2).map
        fun r => List.replicate lw .null ++ r.1 := by
  have flags : right.zip (matched.flatten.foldl (fun flags r => flags.set r.2 true)
      (List.replicate right.length false)) =
      right.zipIdx.map fun r => (r.1, matched.flatten.any fun m => m.2 = r.2) := by
    apply List.ext_getElem?
    intro i
    rw [List.zip, List.getElem?_zipWith, getElem?_setFlags, List.getElem?_map, List.getElem?_zipIdx,
      List.getElem?_replicate]
    rcases Nat.lt_or_ge i right.length with inside | outside
    · simp [inside]
    · simp [outside]
  rw [joinAlone, flags, List.filter_map, List.map_map]
  congr 1
  apply List.filter_congr
  intro r _
  simp [List.all_eq_not_any_not]

/-- The evaluator's join is what the loops compute. -/
theorem join_eq_loops (self : Recur) (ex : Ex) (parent : Option Scope) (kind : JoinKind)
    (left right : Relation) (on : Option Expr) :
    join self ex parent kind left right on = do
      let loop ← joinLeft (joinAccepts self ex parent (left.cols ++ right.cols) on)
        (kind = .left ∨ kind = .full) right.cols.length right.rows left.rows
        ⟨[], List.replicate right.rows.length false⟩
      return ⟨left.cols ++ right.cols, loop.rows ++
        if kind = .right ∨ kind = .full then
          joinAlone left.cols.length right.rows loop.rightMatched
        else []⟩ := by
  rw [joinLeft_eq]
  simp only [bind_assoc, pure_bind, joinAlone_eq, List.nil_append]
  refine bind_congr fun matched => ?_
  simp [joinedRows, joinPairs]

/-! ## Joins of multisets -/

section Pure

variable {α β : Type}

/-- Conditions whose results do not depend on the state within a session keep the elements they hold
for. -/
theorem keepWhere_of_pure {session : EvalState → Prop} {accept : α → EvalM Bool} {p : α → Bool}
    {as : List α}
    (known : ∀ a ∈ as, ∀ st, session st → ∃ st', accept a st = .ok (p a) st' ∧ session st')
    {st : EvalState} (during : session st) :
    ∃ st', keepWhere accept as st = .ok (as.filter p) st' ∧ session st' := by
  induction as generalizing st with
  | nil => exact ⟨st, rfl, during⟩
  | cons a rest ih =>
      obtain ⟨st₁, first, during₁⟩ := known a List.mem_cons_self st during
      obtain ⟨st₂, later, during₂⟩ :=
        ih (fun b member => known b (List.mem_cons_of_mem _ member)) during₁
      refine ⟨st₂, ?_, during₂⟩
      simp only [keepWhere, bind, EStateM.bind, first, later, List.filter_cons]
      cases p a <;> rfl

/-- A computation whose results do not depend on the state within a session is a map. -/
theorem forEach_of_pure {session : EvalState → Prop} {f : α → EvalM β} {g : α → β} {as : List α}
    (known : ∀ a ∈ as, ∀ st, session st → ∃ st', f a st = .ok (g a) st' ∧ session st')
    {st : EvalState} (during : session st) :
    ∃ st', forEach f as st = .ok (as.map g) st' ∧ session st' := by
  induction as generalizing st with
  | nil => exact ⟨st, rfl, during⟩
  | cons a rest ih =>
      obtain ⟨st₁, first, during₁⟩ := known a List.mem_cons_self st during
      obtain ⟨st₂, later, during₂⟩ :=
        ih (fun b member => known b (List.mem_cons_of_mem _ member)) during₁
      refine ⟨st₂, ?_, during₂⟩
      simp only [forEach, bind, EStateM.bind, first, later, List.map_cons]
      rfl

end Pure

/-- A pair of rows as one row, NULLs in the place of a row that is missing. -/
def padded (lw rw : Nat) (p : Option Row × Option Row) : Row :=
  p.1.getD (List.replicate lw .null) ++ p.2.getD (List.replicate rw .null)

section Rows

variable (on : Row → Row → Prop) [∀ l r, Decidable (on l r)] (lw rw : Nat)

/-- The right rows, with their positions, that match a left row. -/
def found (right : List Row) (l : Row) : List (Row × Nat) :=
  right.zipIdx.filter fun r => on l r.1

/-- The right rows found for a left row are those that the condition accepts. -/
theorem map_fst_found (right : List Row) (l : Row) :
    (found on right l).map Prod.fst = right.filter fun r => on l r := by
  have positions := List.filter_map (f := Prod.fst) (l := right.zipIdx) (p := fun r => on l r)
  rw [List.zipIdx_map_fst] at positions
  rw [positions]
  rfl

/-- The rows of the outer loop are the matches and the left rows it keeps. -/
theorem coe_joinPairs (keepLeft : Bool) (left right : List Row) :
    (joinPairs keepLeft rw left (left.map (found on right)) : Multiset Row) =
      (outerJoin on keepLeft false (left : Multiset Row) (right : Multiset Row)).map
        (padded lw rw) := by
  induction left with
  | nil => cases keepLeft <;> rfl
  | cons l rest ih =>
      rw [← Multiset.cons_coe, outerJoin_cons, Multiset.map_add, ← ih]
      have rows := map_fst_found on right l
      have pairs : ((found on right l).map (fun r => l ++ r.1) : Multiset Row) =
          (((right : Multiset Row).filter (on l)).map fun r => (some l, some r)).map
            (padded lw rw) := by
        rw [Multiset.map_map, Multiset.filter_coe, Multiset.map_coe, ← rows, List.map_map]
        rfl
      have none_ : found on right l = [] ↔ ∀ r ∈ (right : Multiset Row), ¬ on l r := by
        rw [← List.map_eq_nil_iff (f := Prod.fst), rows, List.filter_eq_nil_iff]
        simp
      rw [List.map_cons, joinPairs, List.zip_cons_cons, List.flatMap_cons, ← Multiset.coe_add]
      congr 1
      rw [Multiset.map_add, ← pairs]
      by_cases kept : keepLeft = true ∧ ∀ r ∈ (right : Multiset Row), ¬ on l r
      · have empty := none_.mpr kept.2
        rw [if_pos ⟨by rw [empty]; rfl, kept.1⟩, if_pos kept, empty]
        rfl
      · rw [if_neg (fun both => kept ⟨both.2, none_.mp (List.isEmpty_iff.mp both.1)⟩), if_neg kept,
          Multiset.map_zero, add_zero]

/-- The right rows found for no left row are those without a partner. -/
theorem alone_eq (left right : List Row) :
    ((right.zipIdx.filter fun r => (left.map (found on right)).all fun found =>
        found.all fun m => m.2 ≠ r.2).map Prod.fst : Multiset Row) =
      unmatched (fun r l => on l r) (right : Multiset Row) (left : Multiset Row) := by
  have same : (right.zipIdx.filter fun r => (left.map (found on right)).all fun found =>
      found.all fun m => m.2 ≠ r.2) = right.zipIdx.filter fun r => ∀ l ∈ left, ¬ on l r.1 := by
    apply List.filter_congr
    intro r member
    rw [Bool.eq_iff_iff]
    simp only [List.all_map, List.all_eq_true, Function.comp_apply, decide_eq_true_eq]
    refine forall₂_congr fun l _ => ?_
    constructor
    · intro apart holds
      exact apart r (List.mem_filter.mpr ⟨member, decide_eq_true holds⟩) rfl
    · intro fails m among same
      obtain ⟨here, holds⟩ := List.mem_filter.mp among
      -- One position holds one row.
      have row : m.1 = r.1 := by
        have first := List.mem_zipIdx_iff_getElem?.mp here
        have second := List.mem_zipIdx_iff_getElem?.mp member
        rw [same, second] at first
        exact (Option.some.inj first).symm
      rw [row] at holds
      exact fails (of_decide_eq_true holds)
  have positions := List.filter_map (f := Prod.fst) (l := right.zipIdx)
    (p := fun r => ∀ l ∈ left, ¬ on l r)
  rw [List.zipIdx_map_fst] at positions
  rw [same, unmatched, Multiset.filter_coe]
  simp only [Multiset.mem_coe]
  rw [positions]
  rfl

end Rows

/-- Whether a join keeps the left rows without a partner. -/
def JoinKind.keepsLeft (kind : JoinKind) : Bool := kind = .left ∨ kind = .full

/-- The kinds of join that keep unmatched right rows. -/
def JoinKind.keepsRight (kind : JoinKind) : Bool := kind = .right ∨ kind = .full

/-- The rows of a join are those of the join of the multisets, padded. -/
theorem coe_joinedRows (on : Row → Row → Prop) [∀ l r, Decidable (on l r)] (kind : JoinKind)
    (lw rw : Nat) (left right : List Row) :
    (joinedRows kind lw rw left right (left.map (found on right)) : Multiset Row) =
      (outerJoin on kind.keepsLeft kind.keepsRight (left : Multiset Row) (right : Multiset Row)).map
        (padded lw rw) := by
  have split_ : joinedRows kind lw rw left right (left.map (found on right)) =
      joinPairs kind.keepsLeft rw left (left.map (found on right)) ++
        if kind.keepsRight then ((right.zipIdx.filter fun r => (left.map (found on right)).all
          fun found => found.all fun m => m.2 ≠ r.2).map Prod.fst).map
            fun r => List.replicate lw .null ++ r
        else [] := by
    simp [joinedRows, joinPairs, JoinKind.keepsLeft, JoinKind.keepsRight, Function.comp_def]
  rw [split_, ← Multiset.coe_add, coe_joinPairs on lw]
  cases kind.keepsRight with
  | false => simp
  | true =>
      rw [outerJoin_right, Multiset.map_add, if_pos rfl, ← Multiset.map_coe, alone_eq,
        Multiset.map_map]
      rfl

section Evaluation

variable {self : Recur} {ex : Ex} {parent : Option Scope} {left right : Relation} {on : Option Expr}

/-- ON is a function of the pair of rows: in the states of a session it gives `truth` of a row of
each side, raises no error and stays in the session. The session may fix what ON reads besides the
rows: settings, the current date, the last numbers of sequences. -/
def OnTruth (self : Recur) (ex : Ex) (parent : Option Scope) (session : EvalState → Prop)
    (left right : Relation) (on : Option Expr) (truth : Row → Row → Option Bool) : Prop :=
  ∀ l ∈ left.rows, ∀ r ∈ right.rows,
    match on with
    | some on => ∀ st, session st → ∃ st', self.evalBool ex on
        (.row (left.cols ++ right.cols) (l ++ r) parent) st = .ok (truth l r) st' ∧ session st'
    | none => truth l r = some true

variable {session : EvalState → Prop} {truth : Row → Row → Option Bool}

/-- Pairs of rows are accepted as `truth` says. -/
theorem OnTruth.accepts (conditions : OnTruth self ex parent session left right on truth)
    {l r : Row} (hereL : l ∈ left.rows) (hereR : r ∈ right.rows) {st : EvalState}
    (during : session st) :
    ∃ st', joinAccepts self ex parent (left.cols ++ right.cols) on (l ++ r) st =
      .ok (decide (truth l r = some true)) st' ∧ session st' := by
  have known := conditions l hereL r hereR
  cases on with
  | none => exact ⟨st, by simp only [joinAccepts]; rw [known]; rfl, during⟩
  | some on =>
      obtain ⟨st', evaluated, during'⟩ := known st during
      refine ⟨st', ?_, during'⟩
      simp only [joinAccepts, bind, EStateM.bind, evaluated, pure, EStateM.pure]
      rcases truth l r with _ | _ | _ <;> rfl

/-- The join the evaluator computes, as a multiset of rows. -/
theorem join_rows (conditions : OnTruth self ex parent session left right on truth)
    (kind : JoinKind) {st : EvalState} (during : session st) :
    ∃ rows st', join self ex parent kind left right on st =
        .ok ⟨left.cols ++ right.cols, rows⟩ st' ∧
      (rows : Multiset Row) = (outerJoin (fun l r => truth l r = some true) kind.keepsLeft
        kind.keepsRight (left.rows : Multiset Row) (right.rows : Multiset Row)).map
          (padded left.cols.length right.cols.length) := by
  have matched : ∃ st', forEach (fun l => keepWhere (fun r : Row × Nat =>
      joinAccepts self ex parent (left.cols ++ right.cols) on (l ++ r.1)) right.rows.zipIdx)
      left.rows st =
        .ok (left.rows.map (found (fun l r => truth l r = some true) right.rows)) st' ∧
      session st' := by
    refine forEach_of_pure (fun l hereL st during => ?_) during
    refine keepWhere_of_pure (fun r hereR st during => ?_) during
    exact conditions.accepts hereL (List.fst_mem_of_mem_zipIdx hereR) during
  obtain ⟨st', collected, -⟩ := matched
  refine ⟨_, st', ?_, coe_joinedRows _ kind _ _ left.rows right.rows⟩
  have steps : join self ex parent kind left right on st = EStateM.bind (forEach (fun l =>
      keepWhere (fun r : Row × Nat => joinAccepts self ex parent (left.cols ++ right.cols) on
        (l ++ r.1)) right.rows.zipIdx) left.rows) (fun matched => pure ⟨left.cols ++ right.cols,
          joinedRows kind left.cols.length right.cols.length left.rows right.rows matched⟩) st := rfl
  rw [steps, EStateM.bind, collected]
  rfl

/-- The second half of a row, and then the first. -/
def swapColumns (width : Nat) (row : Row) : Row := row.drop width ++ row.take width

/-- Swapping the columns puts the right row first. -/
theorem swapColumns_append {width : Nat} {l r : Row} (wide : l.length = width) :
    swapColumns width (l ++ r) = r ++ l := by
  rw [swapColumns, List.drop_left' wide, List.take_left' wide]

/-- What a join of kind `kind` should return: the pairs of row occurrences for which ON is TRUE,
and the rows of the sides the join keeps that have no partner, once each and padded with
NULLs. -/
def joinOf (kind : JoinKind) (truth : Row → Row → Option Bool) (left right : Relation) :
    Multiset Row :=
  (((left.rows : Multiset Row) ×ˢ (right.rows : Multiset Row)).filter fun p =>
      truth p.1 p.2 = some true).map (fun p => p.1 ++ p.2) +
    (if kind.keepsLeft then ((left.rows : Multiset Row).filter fun l =>
        ∀ r ∈ (right.rows : Multiset Row), ¬ truth l r = some true).map fun l =>
          l ++ List.replicate right.cols.length .null
      else 0) +
    if kind.keepsRight then ((right.rows : Multiset Row).filter fun r =>
        ∀ l ∈ (left.rows : Multiset Row), ¬ truth l r = some true).map fun r =>
          List.replicate left.cols.length .null ++ r
      else 0

/-- Padding the outer join of the rows gives the rows of the join. -/
theorem map_padded_outerJoin (kind : JoinKind) (truth : Row → Row → Option Bool)
    (left right : Relation) :
    (outerJoin (fun l r => truth l r = some true) kind.keepsLeft kind.keepsRight
      (left.rows : Multiset Row) (right.rows : Multiset Row)).map
        (padded left.cols.length right.cols.length) = joinOf kind truth left right := by
  unfold outerJoin joinOf matches_ unmatched
  rw [Multiset.map_add, Multiset.map_add, Multiset.map_map]
  congr 1
  · congr 1
    split
    · rw [Multiset.map_map]
      rfl
    · rfl
  · split
    · rw [Multiset.map_map]
      rfl
    · rfl

/-- A right join is the left join in the other order, with the columns swapped. -/
theorem joinOf_right (wideR : right.Rectangular)
    (truth : Row → Row → Option Bool) :
    joinOf .right truth left right =
      (joinOf .left (fun r l => truth l r) right left).map (swapColumns right.cols.length) := by
  rw [← map_padded_outerJoin, ← map_padded_outerJoin]
  have swapped := outerJoin_swap (fun r l => truth l r = some true) true false
    (right.rows : Multiset Row) (left.rows : Multiset Row)
  rw [show JoinKind.right.keepsLeft = false from rfl, show JoinKind.right.keepsRight = true from rfl,
    show JoinKind.left.keepsLeft = true from rfl, show JoinKind.left.keepsRight = false from rfl,
    ← swapped, Multiset.map_map, Multiset.map_map]
  refine Multiset.map_congr rfl fun p member => ?_
  have wide : (p.1.getD (List.replicate right.cols.length .null)).length = right.cols.length := by
    obtain ⟨first, second⟩ := p
    cases first with
    | none => exact List.length_replicate
    | some r => exact wideR r (Multiset.mem_coe.mp (mem_of_mem_outerJoin _ member))
  rw [Function.comp_apply, Function.comp_apply, padded, padded, swapColumns_append wide]
  rfl

/-- Joins are exact. As a multiset of rows, a join is the pairs of row occurrences for which ON
is TRUE, for LEFT and FULL with each left row that has no partner once, padded on the right, and
for RIGHT and FULL with each such right row once, padded on the left. A RIGHT JOIN B is
B LEFT JOIN A with the columns swapped, A FULL JOIN B is A LEFT JOIN B and the rows of B without
a partner, and a cross join is all pairs. -/
theorem joins_exact (conditions : OnTruth self ex parent session left right on truth)
    {st st₁ : EvalState} (during : session st) (during₁ : session st₁) :
    (∀ kind, ∃ rows st', join self ex parent kind left right on st =
        .ok ⟨left.cols ++ right.cols, rows⟩ st' ∧
      (rows : Multiset Row) = joinOf kind truth left right) ∧
    (∀ on', OnTruth self ex parent session right left on' (fun r l => truth l r) →
      right.Rectangular →
      ∃ rows rows' st' st₁', join self ex parent .right left right on st =
          .ok ⟨left.cols ++ right.cols, rows⟩ st' ∧
        join self ex parent .left right left on' st₁ = .ok ⟨right.cols ++ left.cols, rows'⟩ st₁' ∧
        (rows : Multiset Row) = (rows' : Multiset Row).map (swapColumns right.cols.length)) ∧
    (∃ rows rows' st' st₁', join self ex parent .full left right on st =
        .ok ⟨left.cols ++ right.cols, rows⟩ st' ∧
      join self ex parent .left left right on st₁ = .ok ⟨left.cols ++ right.cols, rows'⟩ st₁' ∧
      (rows : Multiset Row) = rows' + ((right.rows : Multiset Row).filter fun r =>
        ∀ l ∈ (left.rows : Multiset Row), ¬ truth l r = some true).map fun r =>
          List.replicate left.cols.length .null ++ r) ∧
    ((cross left right).rows : Multiset Row) =
      ((left.rows : Multiset Row) ×ˢ (right.rows : Multiset Row)).map fun p => p.1 ++ p.2 := by
  have each : ∀ kind st, session st → ∃ rows st', join self ex parent kind left right on st =
      .ok ⟨left.cols ++ right.cols, rows⟩ st' ∧
        (rows : Multiset Row) = joinOf kind truth left right := by
    intro kind st during
    obtain ⟨rows, st', joined, same⟩ := join_rows conditions kind during
    exact ⟨rows, st', joined, same.trans (map_padded_outerJoin kind truth left right)⟩
  refine ⟨fun kind => each kind st during, ?_, ?_, ?_⟩
  · intro on' swapped wide
    obtain ⟨rows, st', joined, same⟩ := each .right st during
    obtain ⟨rows', st₁', joined', same'⟩ := join_rows swapped .left during₁
    refine ⟨rows, rows', st', st₁', joined, joined', ?_⟩
    rw [same, same', map_padded_outerJoin, joinOf_right wide]
  · obtain ⟨rows, st', joined, same⟩ := each .full st during
    obtain ⟨rows', st₁', joined', same'⟩ := each .left st₁ during₁
    refine ⟨rows, rows', st', st₁', joined, joined', ?_⟩
    rw [same, same']
    simp [joinOf, JoinKind.keepsLeft, JoinKind.keepsRight]
  · rw [Multiset.coe_product, Multiset.map_coe]
    congr 1
    simp [cross, SProd.sprod, List.product, List.map_flatMap, Function.comp_def]

end Evaluation

namespace JoinRun

/-- A committed sequence S. -/
def ex : Ex :=
  ⟨.empty, [], { Catalog.empty with
    sequences := (∅ : ExtTreeMap String SequenceDef).insert "S" ⟨1, 1, 1, 100, false⟩ }, none⟩

/-- The session's last number of S is 1. -/
def Session (st : EvalState) : Prop :=
  st.env.currval["S"]? = some 1 ∧ st.env.rowSequences["S"]? = none

def start : EvalState :=
  ⟨∅, ∅, { Literal.env "HR" with currval := (∅ : ExtTreeMap String Int).insert "S" 1 }⟩

theorem session_start : Session start := by
  simp [Session, start, Literal.env]

/-- A relation with a column X. -/
def column (qualifier : String) (rows : List Row) : Relation :=
  ⟨[⟨some qualifier, "X", .number 0 (-127)⟩], rows⟩

def left : Relation := column "A" [[.ofInt 1], [.null]]

def right : Relation := column "B" [[.ofInt 2], [.ofInt 3], [.ofInt 2]]

/-- `A.X + S.CURRVAL = B.X`. -/
def on : Expr :=
  .binary .eq (.binary .add (.column (some "A") "X") (.sequence "S" false)) (.column (some "B") "X")

def truth (l r : Row) : Option Bool :=
  if l = [.null] then none else some (l = [.ofInt 1] ∧ r = [.ofInt 2])

/-- The left column is found in the left row. -/
theorem find_left (v w : Value) : Scope.find (some "A") "X"
    (.row (left.cols ++ right.cols) [v, w] none) = .ok (some v) := by
  have position : findColumn (left.cols ++ right.cols) (some "A") "X" = .ok (some 0) := by
    decide +kernel
  simp [Scope.find, Scope.row, position, bind, Except.bind, pure, Except.pure]

/-- The right column is found in the right row. -/
theorem find_right (v w : Value) : Scope.find (some "B") "X"
    (.row (left.cols ++ right.cols) [v, w] none) = .ok (some w) := by
  have position : findColumn (left.cols ++ right.cols) (some "B") "X" = .ok (some 1) := by
    decide +kernel
  simp [Scope.find, Scope.row, position, bind, Except.bind, pure, Except.pure]

/-- CURRVAL reads the session's number. -/
theorem sequenceValue_session {st : EvalState} (during : Session st) :
    sequenceValue ex "S" false st = .ok (.ofInt 1) st := by
  have short : shortName "S" = "S" := by decide
  have exists_ : ex.committed.sequences["S"]? = some ⟨1, 1, 1, 100, false⟩ := by simp [ex]
  simp [sequenceValue, short, exists_, during.1, during.2, bind, EStateM.bind, pure, EStateM.pure,
    get, getThe, MonadStateOf.get, EStateM.get]

/-- The sum on the left side of ON. -/
theorem eval_sum (v w : Value) {st : EvalState} (during : Session st) :
    (Engine.plain.levels 2).eval ex (.binary .add (.column (some "A") "X") (.sequence "S" false))
      (.row (left.cols ++ right.cols) [v, w] none) st =
        EvalM.lift (arithmetic Engine.plain.lib .add v (.ofInt 1)) st := by
  simp [Engine.levels, evalStep, resolve, find_left, sequenceValue_session during,
    BinaryOp.isCondition, bind, EStateM.bind, EvalM.lift, pure, EStateM.pure]

/-- ON compares the sum with the right row's column. -/
theorem evalBool_on (v w : Value) {st : EvalState} (during : Session st) :
    (Engine.plain.levels 3).evalBool ex on (.row (left.cols ++ right.cols) [v, w] none) st =
      EvalM.lift (do
        let sum ← arithmetic Engine.plain.lib .add v (.ofInt 1)
        let ordering ← compareValues Engine.plain.lib.dates st.env.nlsDateFormat sum w
        return ordering.map BinaryOp.eq.accepts) st := by
  rw [show (Engine.plain.levels 3).evalBool = evalBoolStep Engine.plain (Engine.plain.levels 2) from
    rfl]
  have right_ : (Engine.plain.levels 2).eval ex (.column (some "B") "X")
      (.row (left.cols ++ right.cols) [v, w] none) st = .ok w st := by
    simp [Engine.levels, evalStep, resolve, find_right, bind, EStateM.bind, pure, EStateM.pure,
      EvalM.lift]
  have condition : BinaryOp.eq.isCondition = true := rfl
  simp only [on, evalBoolStep, condition, if_true, bind, EStateM.bind, eval_sum v w during]
  cases arithmetic Engine.plain.lib .add v (.ofInt 1) with
  | error e => rfl
  | ok sum =>
      simp only [EvalM.lift, right_, Except.bind, compareM, dateFormat]
      cases compared : compareValues Engine.plain.lib.dates st.env.nlsDateFormat sum w <;>
        simp [bind, EStateM.bind, get, getThe, MonadStateOf.get, EStateM.get, EvalM.lift, compared,
          pure, EStateM.pure, Except.pure]

/-- Within the session ON is a function of the pair of rows, UNKNOWN for the NULL. -/
theorem onTruth :
    OnTruth (Engine.plain.levels 3) ex none Session left right (some on) truth := by
  intro l hereL r hereR st during
  refine ⟨st, ?_, during⟩
  simp only [left, right, column, List.mem_cons, List.not_mem_nil, or_false] at hereL hereR
  rcases hereL with rfl | rfl <;> rcases hereR with rfl | rfl | rfl <;>
    exact (evalBool_on _ _ during).trans rfl

end JoinRun

open JoinRun in
/-- A full join on a number of the session, with a row that has two partners, an UNKNOWN condition
and an unmatched row on each side. -/
theorem joins_exact_full :
    ∃ rows st', join (Engine.plain.levels 3) ex none .full left right (some on) start =
        .ok ⟨left.cols ++ right.cols, rows⟩ st' ∧
      (rows : Multiset Row) = joinOf .full truth left right :=
  (joins_exact onTruth session_start session_start).1 .full

end MockOracle
