import MockOracle.Eval.Sequences
import MockOracle.Session.Ddl

/-!
# The counter of a sequence

A sequence is its definition and a counter that is unset until it is first used. NEXTVAL and
ALTER SEQUENCE are all that acts on it. The counter holds the next number and advances by
saturating addition. A sequence that does not cycle hands out no number twice, unless its
bound is where the addition saturates.
-/

namespace MockOracle

open Std Semantics

/-! ## 128-bit integers -/

/-- The integers of 128 bits. -/
def Fits128 (n : Int) : Prop := -(2 ^ 127) ≤ n ∧ n ≤ 2 ^ 127 - 1

/-- Whether an integer has 128 bits can be decided. -/
instance (n : Int) : Decidable (Fits128 n) := inferInstanceAs (Decidable (_ ∧ _))

/-- A saturated integer has 128 bits. -/
theorem fits128_saturate (n : Int) : Fits128 (saturate n) := by
  unfold Fits128 saturate
  omega

/-- An integer of 128 bits is not changed by saturating. -/
theorem saturate_of_fits {n : Int} (fits : Fits128 n) : saturate n = n := by
  unfold Fits128 at fits
  unfold saturate
  omega

/-- A wrapped integer has 128 bits. -/
theorem fits128_wrap (n : Int) : Fits128 (wrap n) := by
  have lower := @Int.le_bmod n (2 ^ 128) (by decide)
  have upper := @Int.bmod_lt n (2 ^ 128) (by decide)
  unfold Fits128 wrap
  omega

/-- An integer of 128 bits is not changed by wrapping. -/
theorem wrap_of_fits {n : Int} (fits : Fits128 n) : wrap n = n := by
  unfold Fits128 at fits
  exact Int.bmod_eq_of_le (by omega) (by omega)

/-- Moving a wrapped counter from one increment to another. -/
theorem wrap_moved (last old new : Int) : wrap (wrap (last + old) - old + new) = wrap (last + new) := by
  unfold wrap
  rw [show (last + old).bmod (2 ^ 128) - old + new = (last + old).bmod (2 ^ 128) + (new - old) by omega,
    Int.bmod_add_bmod]
  congr 1
  omega

/-! ## The definition -/

/-- The numbers in an option of CREATE or ALTER SEQUENCE have 128 bits. -/
def SequenceOption.Fits : SequenceOption → Prop
  | .startWith n => Fits128 n
  | .incrementBy n => Fits128 n
  | .minValue n => ∀ v, n = some v → Fits128 v
  | .maxValue n => ∀ v, n = some v → Fits128 v
  | .cycle _ => True
  | .restart n => ∀ v, n = some v → Fits128 v

/-- What holds of every definition that CREATE or ALTER SEQUENCE accepts. -/
structure SequenceDef.Accepted (d : SequenceDef) : Prop where
  start : Fits128 d.start
  increment : Fits128 d.increment
  moves : d.increment ≠ 0
  min : Fits128 d.min
  max : Fits128 d.max

/-- What holds of the settings after some options. -/
structure SequenceSettings.Accepted (s : SequenceSettings) : Prop where
  increment : Fits128 s.increment
  moves : s.increment ≠ 0
  start : ∀ v, s.start = some v → Fits128 v
  min : ∀ v, s.min = some v → Fits128 v
  max : ∀ v, s.max = some v → Fits128 v

/-- Options of 128 bits keep the settings accepted. -/
theorem applySequenceOptions_accepted {altering : Bool} {options : List SequenceOption}
    {s s' : SequenceSettings} (fits : ∀ o ∈ options, o.Fits) (accepted : s.Accepted)
    (success : applySequenceOptions altering options s = .ok s') : s'.Accepted := by
  induction options generalizing s with
  | nil =>
      cases success
      exact accepted
  | cons o rest ih =>
      have here := fits o List.mem_cons_self
      have later := fun o member => fits o (List.mem_cons_of_mem _ member)
      cases o with
      | startWith n =>
          simp only [applySequenceOptions] at success
          split at success
          · cases success
          · refine ih later ?_ success
            exact ⟨accepted.increment, accepted.moves, by simpa [SequenceOption.Fits] using here,
              accepted.min, accepted.max⟩
      | incrementBy n =>
          simp only [applySequenceOptions] at success
          split at success
          · cases success
          · next moves =>
              refine ih later ?_ success
              exact ⟨here, moves, accepted.start, accepted.min, accepted.max⟩
      | minValue n =>
          refine ih later ?_ success
          exact ⟨accepted.increment, accepted.moves, accepted.start, here, accepted.max⟩
      | maxValue n =>
          refine ih later ?_ success
          exact ⟨accepted.increment, accepted.moves, accepted.start, accepted.min, here⟩
      | cycle c =>
          refine ih later ?_ success
          exact ⟨accepted.increment, accepted.moves, accepted.start, accepted.min, accepted.max⟩
      | restart n => exact ih later accepted success

/-- What CREATE and ALTER SEQUENCE make of the settings. -/
theorem sequenceDef_ok {old : Option SequenceDef} {options : List SequenceOption} {d : SequenceDef}
    (success : sequenceDef old options = .ok d) :
    ∃ s, applySequenceOptions old.isSome options
        (match old with
          | some d => ⟨d.increment, none, d.cycle, some d.min, some d.max⟩
          | none => ⟨1, none, false, none, none⟩) = .ok s ∧
      d.increment = s.increment ∧
      d.min = s.min.getD (if 0 < s.increment then 1 else -999999999999999999999999999) ∧
      d.max = s.max.getD (if 0 < s.increment then 9999999999999999999999999999 else -1) ∧
      match old with
      | some o => d.start = o.start
      | none => d.start = s.start.getD (if 0 < s.increment then d.min else d.max) ∧
          d.min ≤ d.start ∧ d.start ≤ d.max := by
  unfold sequenceDef at success
  dsimp only at success
  split at success
  · cases success
  · next s applied =>
      refine ⟨s, applied, ?_⟩
      generalize s.min.getD (if 0 < s.increment then 1 else -999999999999999999999999999) = lo at *
      generalize s.max.getD (if 0 < s.increment then 9999999999999999999999999999 else -1) = hi at *
      by_cases empty : hi ≤ lo
      · rw [if_pos empty] at success
        cases success
      · rw [if_neg empty] at success
        cases old with
        | some o =>
            cases success
            exact ⟨rfl, rfl, rfl, rfl⟩
        | none =>
            dsimp only at success
            generalize given : s.start.getD (if 0 < s.increment then lo else hi) = start at success
            split at success
            · cases success
            · next low =>
                split at success
                · cases success
                · next high =>
                    cases success
                    exact ⟨rfl, rfl, rfl, given.symm, Int.not_lt.mp low, Int.not_lt.mp high⟩

/-- CREATE and ALTER SEQUENCE accept a definition of 128 bits with its numbers in range. -/
theorem sequenceDef_accepted {old : Option SequenceDef} {options : List SequenceOption}
    {d : SequenceDef} (fits : ∀ o ∈ options, o.Fits)
    (before : ∀ o, old = some o → o.Accepted) (success : sequenceDef old options = .ok d) :
    d.Accepted := by
  obtain ⟨s, applied, increment, min, max, start⟩ := sequenceDef_ok success
  have settings : s.Accepted := by
    refine applySequenceOptions_accepted fits ?_ applied
    cases old with
    | none => exact ⟨by decide, by decide, by simp, by simp, by simp⟩
    | some o =>
        have known := before o rfl
        exact ⟨known.increment, known.moves, by simp, by simpa using known.min,
          by simpa using known.max⟩
  have fitsMin : Fits128 d.min := by
    rw [min]
    cases given : s.min with
    | none =>
        rw [Option.getD_none]
        split <;> decide
    | some v => exact settings.min v given
  have fitsMax : Fits128 d.max := by
    rw [max]
    cases given : s.max with
    | none =>
        rw [Option.getD_none]
        split <;> decide
    | some v => exact settings.max v given
  refine ⟨?_, increment ▸ settings.increment, increment ▸ settings.moves, fitsMin, fitsMax⟩
  cases old with
  | some o =>
      rw [start]
      exact (before o rfl).start
  | none =>
      rw [start.1]
      cases given : s.start with
      | none =>
          rw [Option.getD_none]
          split
          · exact fitsMin
          · exact fitsMax
      | some v => exact settings.start v given

/-- CREATE SEQUENCE accepts a START WITH within the bounds only. -/
theorem sequenceDef_start {options : List SequenceOption} {d : SequenceDef}
    (success : sequenceDef none options = .ok d) : d.min ≤ d.start ∧ d.start ≤ d.max := by
  obtain ⟨s, -, -, -, -, start⟩ := sequenceDef_ok success
  exact start.2

/-! ## NEXTVAL and ALTER SEQUENCE -/

/-- A sequence: its definition, and its counter once it has been used. -/
structure Sequence where
  def_ : SequenceDef
  counter : Option Int

/-- What acts on a sequence. A call of NEXTVAL hands out a number or fails. -/
inductive SequenceAction where
  | call (outcome : Option Int)
  | alter (options : List SequenceOption)

namespace SequenceDef

variable {d : SequenceDef} {n : Int}

/-- A number within the bounds is handed out, and the counter moves on. -/
theorem draw_within (low : d.min ≤ n) (high : n ≤ d.max) :
    d.draw n = some (n, saturate (n + d.increment)) := by
  have inside : (decide (d.max < n) || decide (n < d.min)) = false := by
    simp only [Bool.or_eq_false_iff, decide_eq_false_iff_not]
    omega
  simp [draw, inside]

/-- A number outside the bounds is not handed out, unless the sequence cycles. -/
theorem draw_outside (stops : d.cycle = false) (outside : ¬ (d.min ≤ n ∧ n ≤ d.max)) :
    d.draw n = none := by
  have beyond : (decide (d.max < n) || decide (n < d.min)) = true := by
    simp only [Bool.or_eq_true, decide_eq_true_eq]
    omega
  simp [draw, beyond, stops]

/-- The counter moves on from the number that is handed out. -/
theorem draw_after {v after : Int} (drawn : d.draw n = some (v, after)) :
    after = saturate (v + d.increment) := by
  unfold draw at drawn
  dsimp only at drawn
  split at drawn
  · cases drawn
  · cases drawn
    rfl

end SequenceDef

namespace Sequence

/-- The number that the counter holds. -/
def next (s : Sequence) : Int := s.counter.getD s.def_.start

/-- NEXTVAL. -/
def call (s : Sequence) : Option Int × Sequence :=
  match s.def_.draw s.next with
  | none => (none, { s with counter := some s.next })
  | some (v, after) => (some v, { s with counter := some after })

/-- ALTER SEQUENCE. -/
def alter (options : List SequenceOption) (s : Sequence) : Except OraError Sequence :=
  match sequenceDef (some s.def_) options with
  | .error e => .error e
  | .ok def_ => .ok ⟨def_, restartCounter def_ options
      (s.counter.map fun next => wrap (next - s.def_.increment + def_.increment))⟩

/-- What each action does to a sequence. -/
inductive Acts : Sequence → SequenceAction → Sequence → Prop where
  | call {s s' : Sequence} {outcome : Option Int} (called : s.call = (outcome, s')) :
      Acts s (.call outcome) s'
  | alter {s s' : Sequence} {options : List SequenceOption} (altered : s.alter options = .ok s') :
      Acts s (.alter options) s'

/-- Actions on a sequence, one after another. -/
abbrev Run := Steps Acts

/-- A call within the bounds hands out the counter's number. -/
theorem call_within {s : Sequence} (low : s.def_.min ≤ s.next) (high : s.next ≤ s.def_.max) :
    s.call = (some s.next, { s with counter := some (saturate (s.next + s.def_.increment)) }) := by
  rw [call, SequenceDef.draw_within low high]

/-- A call outside the bounds fails and leaves the counter. -/
theorem call_outside {s : Sequence} (stops : s.def_.cycle = false)
    (outside : ¬ (s.def_.min ≤ s.next ∧ s.next ≤ s.def_.max)) :
    s.call = (none, { s with counter := some s.next }) := by
  rw [call, SequenceDef.draw_outside stops outside]

end Sequence

/-! ## The numbers of a sequence -/

namespace SequenceDef

/-- The outcomes of all calls so far: the numbers follow each other from START WITH on, without
a repetition and within the bounds, and no call succeeds after one has failed. -/
structure Numbers (d : SequenceDef) (outcomes : List (Option Int)) : Prop where
  values : outcomes.reduceOption =
    (List.range outcomes.reduceOption.length).map fun i : Nat => d.start + i * d.increment
  distinct : outcomes.reduceOption.Nodup
  within : ∀ v ∈ outcomes.reduceOption, d.min ≤ v ∧ v ≤ d.max
  exhausted : outcomes.Pairwise fun earlier later => earlier = none → later = none

/-- A bound of the sequence is where saturating addition stops. -/
def AtLimit (d : SequenceDef) : Prop :=
  0 < d.increment ∧ d.max = 2 ^ 127 - 1 ∨ d.increment < 0 ∧ d.min = -(2 ^ 127)

/-- The outcomes after `k` numbers have been handed out. -/
def Follows (d : SequenceDef) : Nat → List (Option Int) → Prop
  | _, [] => True
  | _, none :: rest => ∀ outcome ∈ rest, outcome = none
  | k, some v :: rest =>
      v = d.start + k * d.increment ∧ (d.min ≤ v ∧ v ≤ d.max) ∧ d.Follows (k + 1) rest

namespace Follows

variable {d : SequenceDef} {k : Nat} {outcomes : List (Option Int)}

/-- The numbers handed out follow each other by the increment. -/
theorem values (follows : d.Follows k outcomes) : outcomes.reduceOption =
    (List.range outcomes.reduceOption.length).map fun i => d.start + (k + i : Nat) * d.increment := by
  induction outcomes generalizing k with
  | nil => rfl
  | cons outcome rest ih =>
      cases outcome with
      | none =>
          have nothing : rest.reduceOption = [] := by
            refine List.filterMap_eq_nil_iff.mpr fun outcome member => ?_
            exact follows outcome member
          rw [List.reduceOption_cons_of_none, nothing]
          rfl
      | some v =>
          obtain ⟨first, -, later⟩ := follows
          rw [List.reduceOption_cons_of_some, List.length_cons, List.range_succ_eq_map,
            List.map_cons, List.map_map, first]
          congr 1
          refine (ih later).trans (List.map_congr_left fun i _ => ?_)
          rw [Function.comp_apply, show k + 1 + i = k + i.succ by omega]

/-- The numbers handed out are within the bounds. -/
theorem within (follows : d.Follows k outcomes) :
    ∀ v ∈ outcomes.reduceOption, d.min ≤ v ∧ v ≤ d.max := by
  induction outcomes generalizing k with
  | nil => simp
  | cons outcome rest ih =>
      intro v member
      rw [List.reduceOption_mem_iff] at member
      cases outcome with
      | none =>
          rcases List.mem_cons.mp member with impossible | later
          · cases impossible
          · cases follows _ later
      | some u =>
          obtain ⟨-, bounds, later⟩ := follows
          rcases List.mem_cons.mp member with same | among
          · cases same
            exact bounds
          · exact ih later v (List.reduceOption_mem_iff.mpr among)

/-- Once a call has failed, all later ones fail. -/
theorem exhausted (follows : d.Follows k outcomes) :
    outcomes.Pairwise fun earlier later => earlier = none → later = none := by
  induction outcomes generalizing k with
  | nil => exact List.Pairwise.nil
  | cons outcome rest ih =>
      cases outcome with
      | none =>
          refine List.pairwise_cons.mpr ⟨fun later member _ => follows later member, ?_⟩
          exact List.pairwise_of_forall_mem_list fun _ _ later member _ => follows later member
      | some v =>
          refine List.pairwise_cons.mpr ⟨fun _ _ impossible => (by cases impossible), ?_⟩
          exact ih follows.2.2

/-- A sequence of outcomes from the first call on meets what is said of its numbers. -/
theorem numbers (follows : d.Follows 0 outcomes) (moves : d.increment ≠ 0) :
    d.Numbers outcomes := by
  have values : outcomes.reduceOption = (List.range outcomes.reduceOption.length).map
      fun i : Nat => d.start + i * d.increment := by
    refine follows.values.trans (List.map_congr_left fun i _ => ?_)
    rw [Nat.zero_add]
  refine ⟨values, ?_, follows.within, follows.exhausted⟩
  rw [values]
  refine List.nodup_range.map fun i j same => ?_
  have equal : (i : Int) * d.increment = j * d.increment := by omega
  exact Int.ofNat.inj (Int.eq_of_mul_eq_mul_right moves equal)

end Follows

end SequenceDef

namespace Sequence

/-- Short of the limits, a counter within the bounds has not been saturated. -/
theorem unclipped {d : SequenceDef} (accepted : d.Accepted) (short : ¬ d.AtLimit) (k : Nat)
    (low : d.min ≤ saturate (d.start + k * d.increment))
    (high : saturate (d.start + k * d.increment) ≤ d.max) :
    saturate (d.start + k * d.increment) = d.start + k * d.increment := by
  have start := accepted.start
  have min := accepted.min
  have max := accepted.max
  unfold Fits128 at start min max
  unfold SequenceDef.AtLimit at short
  unfold saturate at *
  rcases Int.lt_or_gt_of_ne accepted.moves with down | up
  · have sign : (k : Int) * d.increment ≤ 0 :=
      Int.mul_nonpos_of_nonneg_of_nonpos (Int.natCast_nonneg k) down.le
    omega
  · have sign : 0 ≤ (k : Int) * d.increment := Int.mul_nonneg (Int.natCast_nonneg k) up.le
    omega

/-- Outside the bounds all calls fail. -/
theorem run_failed {d : SequenceDef} (stops : d.cycle = false) {s s' : Sequence}
    {outcomes : List (Option Int)} (run : Run s (outcomes.map .call) s') (same : s.def_ = d)
    (outside : ¬ (d.min ≤ s.next ∧ s.next ≤ d.max)) : ∀ outcome ∈ outcomes, outcome = none := by
  induction outcomes generalizing s with
  | nil => simp
  | cons outcome rest ih =>
      cases run with
      | cons head tail =>
          cases head with
          | call called =>
              rw [call_outside (same ▸ stops) (same ▸ outside)] at called
              cases called
              intro later member
              rcases List.mem_cons.mp member with rfl | among
              · rfl
              · exact ih tail same outside later among

/-- Away from the limits of 128 bits, the outcomes of calls follow each other from the counter on.
-/
theorem run_follows {d : SequenceDef} (accepted : d.Accepted) (stops : d.cycle = false)
    (short : ¬ d.AtLimit) {s s' : Sequence} {outcomes : List (Option Int)} {k : Nat}
    (run : Run s (outcomes.map .call) s') (same : s.def_ = d)
    (counter : s.next = saturate (d.start + k * d.increment)) : d.Follows k outcomes := by
  induction outcomes generalizing s k with
  | nil => trivial
  | cons outcome rest ih =>
      cases run with
      | cons head tail =>
          cases head with
          | call called =>
              by_cases within : d.min ≤ s.next ∧ s.next ≤ d.max
              · have exact_ := unclipped accepted short k (counter ▸ within.1) (counter ▸ within.2)
                rw [call_within (same ▸ within.1) (same ▸ within.2)] at called
                cases called
                rw [exact_] at counter
                refine ⟨counter, within, ih tail same ?_⟩
                change saturate (s.next + s.def_.increment) = _
                rw [same, counter]
                congr 1
                push_cast
                ring
              · rw [call_outside (same ▸ stops) (same ▸ within)] at called
                cases called
                exact run_failed stops tail same within

/-- Short of the limits, every run of calls numbers as it should. -/
theorem run_numbers {d : SequenceDef} (accepted : d.Accepted) (stops : d.cycle = false)
    (short : ¬ d.AtLimit) {s' : Sequence} {outcomes : List (Option Int)}
    (run : Run ⟨d, none⟩ (outcomes.map .call) s') : d.Numbers outcomes := by
  refine (run_follows accepted stops short run rfl (k := 0) ?_).numbers accepted.moves
  rw [show d.start + ((0 : Nat) : Int) * d.increment = d.start by simp,
    saturate_of_fits accepted.start]
  rfl

/-- At a limit the counter never leaves the bounds. -/
theorem saturate_within {d : SequenceDef} (limit : d.AtLimit) (accepted : d.Accepted) {v : Int}
    (within : d.min ≤ v ∧ v ≤ d.max) :
    d.min ≤ saturate (v + d.increment) ∧ saturate (v + d.increment) ≤ d.max := by
  have min := accepted.min
  have max := accepted.max
  unfold Fits128 at min max
  unfold SequenceDef.AtLimit at limit
  unfold saturate
  omega

/-- At a limit every call succeeds. -/
theorem run_endless {d : SequenceDef} (limit : d.AtLimit) (accepted : d.Accepted) {s s' : Sequence}
    {outcomes : List (Option Int)} (run : Run s (outcomes.map .call) s') (same : s.def_ = d)
    (within : d.min ≤ s.next ∧ s.next ≤ d.max) :
    outcomes.reduceOption.length = outcomes.length := by
  induction outcomes generalizing s with
  | nil => rfl
  | cons outcome rest ih =>
      cases run with
      | cons head tail =>
          cases head with
          | call called =>
              rw [call_within (same ▸ within.1) (same ▸ within.2)] at called
              cases called
              rw [List.reduceOption_cons_of_some, List.length_cons, List.length_cons]
              rw [ih tail same ?_]
              change d.min ≤ saturate (s.next + s.def_.increment) ∧
                saturate (s.next + s.def_.increment) ≤ d.max
              rw [same]
              exact saturate_within limit accepted within

/-- More calls than the bounds have numbers do not number as they should at a limit. -/
theorem run_repeats {d : SequenceDef} (limit : d.AtLimit) (accepted : d.Accepted)
    (started : d.min ≤ d.start ∧ d.start ≤ d.max) {s' : Sequence} {outcomes : List (Option Int)}
    (run : Run ⟨d, none⟩ (outcomes.map .call) s')
    (many : outcomes.length = (d.max - d.min).toNat + 2) : ¬ d.Numbers outcomes := by
  intro numbers
  have all := run_endless limit accepted run rfl started
  have last : d.start + ((d.max - d.min).toNat + 1 : Nat) * d.increment ∈ outcomes.reduceOption := by
    rw [numbers.values]
    refine List.mem_map.mpr ⟨(d.max - d.min).toNat + 1, ?_, rfl⟩
    rw [List.mem_range]
    omega
  have bounds := numbers.within _ last
  have room : ((d.max - d.min).toNat : Int) = d.max - d.min := Int.toNat_of_nonneg (by omega)
  push_cast at bounds
  rw [room] at bounds
  rcases Int.lt_or_gt_of_ne accepted.moves with down | up
  · have far : (d.max - d.min + 1) * d.increment ≤ (d.max - d.min + 1) * (-1) :=
      Int.mul_le_mul_of_nonneg_left (by omega) (by omega)
    omega
  · have far : (d.max - d.min + 1) * 1 ≤ (d.max - d.min + 1) * d.increment :=
      Int.mul_le_mul_of_nonneg_left (by omega) (by omega)
    omega

end Sequence

end MockOracle
