import MockOracle.Plsql.Statements

/-!
# Integer FOR loops

A loop whose iterations all go on runs its body for each integer of its range. The counter is
stepped once more after the last of them: at the end of the 64-bit integers it overflows there, so
the loop never ends as it should.
-/

namespace MockOracle.Plsql

open Semantics

variable {H : Type} {host : Host H}

/-- `n` integers from `i` on. -/
def countFrom (reverse : Bool) (i : Int) (n : Nat) : List Int :=
  (List.range n).map fun k : Nat => if reverse then i - k else i + k

/-- Where the counter starts. -/
def firstCount (reverse : Bool) (lo hi : Int) : Int := if reverse then hi else lo

/-- The value that the counter would take after the last iteration. -/
def beyond (reverse : Bool) (lo hi : Int) : Int := if reverse then lo - 1 else hi + 1

/-- The integers from `lo` to `hi`, in the order of the loop. -/
def countRange (reverse : Bool) (lo hi : Int) : List Int :=
  countFrom reverse (firstCount reverse lo hi) (hi - lo + 1).toNat

/-- The values of a range are those between its bounds. -/
theorem mem_countRange {reverse : Bool} {lo hi i : Int} :
    i ∈ countRange reverse lo hi ↔ lo ≤ i ∧ i ≤ hi := by
  unfold countRange countFrom firstCount
  rw [List.mem_map]
  cases reverse with
  | false =>
      simp only [Bool.false_eq_true, if_false, List.mem_range]
      constructor
      · rintro ⟨k, inside, rfl⟩
        omega
      · intro within
        exact ⟨(i - lo).toNat, by omega, by omega⟩
  | true =>
      simp only [if_true, List.mem_range]
      constructor
      · rintro ⟨k, inside, rfl⟩
        omega
      · intro within
        exact ⟨(hi - i).toNat, by omega, by omega⟩

/-- Counting on starts with the value counted from. -/
theorem countFrom_succ (reverse : Bool) (i : Int) (n : Nat) :
    countFrom reverse i (n + 1) =
      i :: countFrom reverse (i + if reverse then -1 else 1) n := by
  unfold countFrom
  rw [List.range_succ_eq_map, List.map_cons, List.map_map]
  congr 1
  · cases reverse <;> simp
  · refine List.map_congr_left fun k _ => ?_
    cases reverse with
    | false => simp only [Function.comp_apply, Bool.false_eq_true, if_false]; omega
    | true => simp only [Function.comp_apply, if_true]; omega

/-- The counter has `n` iterations before it. -/
def Ahead (reverse : Bool) (lo hi i : Int) (n : Nat) : Prop :=
  if reverse then i = lo - 1 + n ∧ i ≤ hi else i = hi + 1 - n ∧ lo ≤ i

/-- A range is ahead of its first value. -/
theorem ahead_first {lo hi : Int} (reverse : Bool) (le : lo ≤ hi + 1) :
    Ahead reverse lo hi (firstCount reverse lo hi) (hi - lo + 1).toNat := by
  unfold Ahead firstCount
  cases reverse with
  | false => simp only [Bool.false_eq_true, if_false]; omega
  | true => simp only [if_true]; omega

namespace Ahead

variable {reverse : Bool} {lo hi i : Int} {n : Nat}

/-- After the last value the count is outside of the range. -/
theorem outside (ahead : Ahead reverse lo hi i 0) : ¬ (lo ≤ i ∧ i ≤ hi) := by
  unfold Ahead at ahead
  cases reverse with
  | false => simp only [Bool.false_eq_true, if_false] at ahead; omega
  | true => simp only [if_true] at ahead; omega

/-- A value still to come is inside of the range. -/
theorem within (ahead : Ahead reverse lo hi i (n + 1)) : lo ≤ i ∧ i ≤ hi := by
  unfold Ahead at ahead
  cases reverse with
  | false => simp only [Bool.false_eq_true, if_false] at ahead; omega
  | true => simp only [if_true] at ahead; omega

/-- Inside the range there is an iteration left. -/
theorem positive (ahead : Ahead reverse lo hi i n) (within : lo ≤ i ∧ i ≤ hi) : 0 < n := by
  cases n with
  | zero => exact absurd within ahead.outside
  | succ n => exact Nat.succ_pos n

/-- Counting one value leaves the rest of the range ahead. -/
theorem next (ahead : Ahead reverse lo hi i (n + 1)) :
    Ahead reverse lo hi (i + if reverse then -1 else 1) n := by
  unfold Ahead at ahead ⊢
  cases reverse with
  | false => simp only [Bool.false_eq_true, if_false] at ahead ⊢; omega
  | true => simp only [if_true] at ahead ⊢; omega

/-- After the last value the count is the one beyond the range. -/
theorem beyond_eq (ahead : Ahead reverse lo hi i 0) : beyond reverse lo hi = i := by
  unfold Ahead at ahead
  unfold beyond
  cases reverse with
  | false => simp only [Bool.false_eq_true, if_false] at ahead ⊢; omega
  | true => simp only [if_true] at ahead ⊢; omega

/-- Inside the range the counter can be stepped, other than to beyond its end. -/
theorem fits (ahead : Ahead reverse lo hi i n) (loFits : FitsI64 lo) (hiFits : FitsI64 hi)
    (more : 0 < n ∨ FitsI64 (beyond reverse lo hi)) : FitsI64 i := by
  unfold Ahead at ahead
  unfold FitsI64 beyond at *
  cases reverse with
  | false =>
      simp only [Bool.false_eq_true, if_false] at ahead more
      omega
  | true =>
      simp only [if_true] at ahead more
      omega

end Ahead

/-- An iteration that goes on to the next one. -/
def GoesOn (iterate : Int → Run host (Option Flow)) (s : State H) (i : Int) (s' : State H) : Prop :=
  (iterate i).Gives s none s'

/-- The iterations that a loop comes to from a counter and a state, each with the state it begins
in. -/
inductive ComesTo (iterate : Int → Run host (Option Flow)) (lo hi : Int) (reverse : Bool) :
    Int → State H → Int → State H → Prop where
  | here {i : Int} {s : State H} (within : lo ≤ i ∧ i ≤ hi) : ComesTo iterate lo hi reverse i s i s
  | later {i next j : Int} {s s' t : State H} (within : lo ≤ i ∧ i ≤ hi)
      (goes : GoesOn iterate s i s') (counted : countOn reverse i = some next)
      (rest : ComesTo iterate lo hi reverse next s' j t) : ComesTo iterate lo hi reverse i s j t

section Loop

variable {iterate : Int → Run host (Option Flow)} {lo hi i : Int} {reverse : Bool} {n : Nat}

/-- A loop comes to an iteration only while its counter is inside the range. -/
theorem ComesTo.within {s t : State H} {j : Int} (comes : ComesTo iterate lo hi reverse i s j t) :
    lo ≤ i ∧ i ≤ hi := by
  cases comes with
  | here within => exact within
  | later within _ _ _ => exact within

/-- Iterations that go on one after the other are all that the loop comes to. -/
theorem ComesTo.goesOn {s s' t : State H} {j : Int} (comes : ComesTo iterate lo hi reverse i s j t)
    (ahead : Ahead reverse lo hi i n) (run : Steps (GoesOn iterate) s (countFrom reverse i n) s') :
    ∃ t', GoesOn iterate t j t' := by
  induction comes generalizing n s' with
  | here within =>
      cases n with
      | zero => exact absurd within ahead.outside
      | succ n =>
          rw [countFrom_succ] at run
          cases run with
          | cons head _ => exact ⟨_, head⟩
  | later within goes counted _ ih =>
      cases n with
      | zero => exact absurd within ahead.outside
      | succ n =>
          rw [countFrom_succ] at run
          cases run with
          | cons head tail =>
              cases goes.symm.trans head
              cases countOn_eq_some counted
              exact ih ahead.next tail

/-- Outside the range the loop ends. -/
theorem countLoop_outside (outside : ¬ (lo ≤ i ∧ i ≤ hi)) :
    countLoop iterate lo hi reverse i = pure .normal := by
  rw [countLoop, dif_neg outside]

/-- One iteration, and the rest of the loop if the counter can be stepped. -/
theorem countLoop_within {s s' : State H} (within : lo ≤ i ∧ i ≤ hi) (goes : GoesOn iterate s i s') :
    (countLoop iterate lo hi reverse i).outcome s =
      (match countOn reverse i with
        | some next => countLoop iterate lo hi reverse next
        | none => Traced.panic).outcome s' := by
  rw [countLoop, dif_pos within, goes.bind]
  simp only
  cases counted : countOn reverse i <;> rfl

/-- A loop whose iterations go on visits what is ahead of it, and ends if the counter can be stepped
beyond the range. -/
theorem countLoop_visits (loFits : FitsI64 lo) (hiFits : FitsI64 hi)
    (ahead : Ahead reverse lo hi i n) (s : State H)
    (goes : ∀ j t, ComesTo iterate lo hi reverse i s j t → ∃ t', GoesOn iterate t j t') :
    ∃ s', Steps (GoesOn iterate) s (countFrom reverse i n) s' ∧
      (n = 0 ∨ FitsI64 (beyond reverse lo hi) →
        (countLoop iterate lo hi reverse i).Gives s .normal s') ∧
      (n ≠ 0 → ¬ FitsI64 (beyond reverse lo hi) →
        ((countLoop iterate lo hi reverse i).outcome s).1 = .panic) := by
  induction n generalizing i s with
  | zero =>
      refine ⟨s, .nil, fun _ => ?_, fun nonempty => absurd rfl nonempty⟩
      rw [Traced.Gives, countLoop_outside ahead.outside]
      rfl
  | succ n ih =>
      have within := ahead.within
      obtain ⟨middle, here⟩ := goes i s (.here within)
      have goesLater : ∀ j t, ComesTo iterate lo hi reverse (i + if reverse then -1 else 1) middle j t →
          ∃ t', GoesOn iterate t j t' := by
        intro j t comes
        have fits : FitsI64 (i + if reverse then -1 else 1) :=
          ahead.next.fits loFits hiFits (Or.inl (ahead.next.positive comes.within))
        exact goes j t (.later within here (if_pos fits) comes)
      obtain ⟨last, rest, ends, panics⟩ := ih ahead.next middle goesLater
      rw [countFrom_succ]
      refine ⟨last, .cons here rest, fun fits => ?_, fun _ overflow => ?_⟩
      · have stepped : FitsI64 (i + if reverse then -1 else 1) :=
          ahead.next.fits loFits hiFits (Or.inr (fits.resolve_left (Nat.succ_ne_zero n)))
        rw [Traced.Gives, countLoop_within within here, countOn, if_pos stepped]
        exact ends (Or.inr (fits.resolve_left (Nat.succ_ne_zero n)))
      · rw [countLoop_within within here]
        cases n with
        | zero =>
            rw [countOn, if_neg (by rwa [← ahead.next.beyond_eq])]
            rfl
        | succ n =>
            rw [countOn, if_pos (ahead.next.fits loFits hiFits (Or.inl (Nat.succ_pos n)))]
            exact panics (Nat.succ_ne_zero n) overflow

end Loop

/-! ## The statement -/

/-- The state with a new frame. -/
def pushed (s : State H) : State H :=
  { s with it := { s.it with frames := {} :: s.it.frames } }

/-- The state without its innermost frame. -/
def popped (s : State H) : State H :=
  { s with it := { s.it with frames := s.it.frames.tail } }

/-- The loop runs its body once for each integer of the range in order, and then ends. -/
def VisitsRange (host : Host H) (self : Calls host) (label : Option String) (var : String)
    (reverse : Bool) (low high : Expr) (body : List Stmt) (lo hi : Int) (s bounds : State H) :
    Prop :=
  ∃ s', Steps (GoesOn (countIteration host self label var body)) (pushed bounds)
      (countRange reverse lo hi) s' ∧
    (statement host self (.forRange label var reverse low high body)).Gives s .normal (popped s')

/-- Each iteration that the loop comes to ends normally or with CONTINUE. -/
def BodyGoesOn (host : Host H) (self : Calls host) (label : Option String) (var : String)
    (reverse : Bool) (body : List Stmt) (lo hi : Int) (bounds : State H) : Prop :=
  ∀ i s, ComesTo (countIteration host self label var body) lo hi reverse
    (firstCount reverse lo hi) (pushed bounds) i s →
      ∃ s', GoesOn (countIteration host self label var body) s i s'

/-- A number that is accepted as an integer fits i64. -/
theorem toInt_fits {v : Value} {i : Int} (accepted : toInt v = .ok i) : FitsI64 i := by
  unfold toInt at accepted
  split at accepted
  · cases accepted
  · cases accepted
  · split at accepted
    · next fits =>
        cases accepted
        exact fits
    · cases accepted

section Statement

variable {self : Calls host} {label : Option String} {var : String} {reverse : Bool}
  {low high : Expr} {body : List Stmt} {lo hi : Int} {s middle bounds : State H}

/-- A bound that is evaluated fits i64. -/
theorem evalInt_fits {e : Expr} {i : Int} {last : State H}
    (gives : (evalInt host self e).Gives s i last) : FitsI64 i := by
  unfold evalInt at gives
  cases evaluated : (self.eval e).outcome s with
  | mk ending state =>
      cases ending with
      | ok v =>
          rw [Traced.Gives, Traced.Gives.bind evaluated] at gives
          cases accepted : toInt v with
          | ok j =>
              rw [accepted] at gives
              cases gives
              exact toInt_fits accepted
          | error e =>
              rw [accepted] at gives
              cases congrArg Prod.fst gives
      | error _ | panic | timeout =>
          have ended : (self.eval e s).ending = _ := congrArg Prod.fst evaluated
          change (Traced.bind (self.eval e) _).outcome s = _ at gives
          unfold Traced.outcome Traced.bind at gives
          rw [ended] at gives
          cases congrArg Prod.fst gives

/-- A FOR loop evaluates its bounds and counts from the first of them. -/
theorem forRange_outcome (evalLow : (evalInt host self low).Gives s lo middle)
    (evalHigh : (evalInt host self high).Gives middle hi bounds) :
    (statement host self (.forRange label var reverse low high body)).outcome s =
      (do
        let result ← Traced.attempt
          (countLoop (countIteration host self label var body) lo hi reverse
            (firstCount reverse lo hi))
        act .popFrame
        Traced.lift result : Run host Flow).outcome (pushed bounds) := by
  have push : (act (.pushFrame []) : Run host Unit).Gives bounds () (pushed bounds) :=
    Traced.outcome_step rfl
  unfold statement
  rw [evalLow.bind, evalHigh.bind]
  unfold forRange
  rw [push.bind]
  rfl

/-- A FOR loop visits its range if the count beyond it fits i64. -/
theorem forRange_ends (evalLow : (evalInt host self low).Gives s lo middle)
    (evalHigh : (evalInt host self high).Gives middle hi bounds)
    (goes : BodyGoesOn host self label var reverse body lo hi bounds)
    (fine : hi < lo ∨ FitsI64 (beyond reverse lo hi)) :
    VisitsRange host self label var reverse low high body lo hi s bounds := by
  have pop : ∀ last : State H, (act .popFrame : Run host Unit).Gives last () (popped last) :=
    fun _ => Traced.outcome_step rfl
  unfold VisitsRange Traced.Gives
  rw [forRange_outcome evalLow evalHigh]
  by_cases empty : hi < lo
  · have none_ : countRange reverse lo hi = [] := by
      refine List.eq_nil_iff_forall_not_mem.mpr fun i member => ?_
      have := mem_countRange.mp member
      omega
    have outside : ¬ (lo ≤ firstCount reverse lo hi ∧ firstCount reverse lo hi ≤ hi) := by omega
    refine ⟨pushed bounds, ?_, ?_⟩
    · rw [none_]
      exact .nil
    · rw [countLoop_outside outside]
      rfl
  · obtain ⟨last, visits, ends, _⟩ := countLoop_visits (evalInt_fits evalLow)
      (evalInt_fits evalHigh) (ahead_first reverse (by omega)) (pushed bounds) goes
    have ended := ends (Or.inr (fine.resolve_left empty))
    refine ⟨last, visits, ?_⟩
    rw [Traced.Gives.bind (Traced.outcome_attempt ended), (pop last).bind]
    rfl

/-- A FOR loop whose count beyond the range does not fit i64 panics. -/
theorem forRange_panics (evalLow : (evalInt host self low).Gives s lo middle)
    (evalHigh : (evalInt host self high).Gives middle hi bounds)
    (goes : BodyGoesOn host self label var reverse body lo hi bounds)
    (le : lo ≤ hi) (overflow : ¬ FitsI64 (beyond reverse lo hi)) :
    ¬ VisitsRange host self label var reverse low high body lo hi s bounds := by
  rintro ⟨s', _, ended⟩
  unfold Traced.Gives at ended
  rw [forRange_outcome evalLow evalHigh] at ended
  obtain ⟨_, _, _, panics⟩ := countLoop_visits (evalInt_fits evalLow)
    (evalInt_fits evalHigh) (ahead_first reverse (by omega)) (pushed bounds) goes
  have panicked := Traced.bind_panic (f := fun result => do
    act .popFrame
    Traced.lift result) (Traced.attempt_panic (panics (by omega) overflow))
  rw [ended] at panicked
  cases panicked

/-- For all bounds that are integers of 64 bits, a loop whose iterations all go on visits exactly its
range and ends, if and only if the range is empty or the counter can be stepped beyond it: up from
below the greatest integer, or with REVERSE down from above the least one. -/
theorem for_range_visits_iff (evalLow : (evalInt host self low).Gives s lo middle)
    (evalHigh : (evalInt host self high).Gives middle hi bounds)
    (goes : BodyGoesOn host self label var reverse body lo hi bounds) :
    VisitsRange host self label var reverse low high body lo hi s bounds ↔
      hi < lo ∨ (if reverse then -2 ^ 63 < lo else hi < 2 ^ 63 - 1) := by
  have loFits := evalInt_fits evalLow
  have hiFits := evalInt_fits evalHigh
  have condition : (hi < lo ∨ (if reverse then -2 ^ 63 < lo else hi < 2 ^ 63 - 1)) ↔
      hi < lo ∨ FitsI64 (beyond reverse lo hi) := by
    unfold FitsI64 beyond at *
    cases reverse with
    | false => simp only [Bool.false_eq_true, if_false]; omega
    | true => simp only [if_true]; omega
  rw [condition]
  constructor
  · intro visits
    by_contra bad
    rw [not_or] at bad
    exact forRange_panics evalLow evalHigh goes (by omega) bad.2 visits
  · exact forRange_ends evalLow evalHigh goes

end Statement

/-- A block that runs, with an integer X. -/
def withX (v : Value) : State Unit :=
  ⟨(), 0, {}, ⟨[], false, [{ vars := [("X", ⟨.integer, .scalar v, false, false⟩)] }], none, []⟩, []⟩

/-- An integer literal evaluates to itself. -/
theorem evalInt_literal {i : Int} (fits : FitsI64 i) (s : State Unit) :
    (evalInt Host.plain (calls Host.plain 3) (.literal (.ofInt i))).Gives s i s := by
  have accepted : toInt (.ofInt i) = .ok i := by
    have same : (BigDecimal.withScaleRound ⟨i, 0⟩ 0).intVal = i := by
      simp [BigDecimal.withScaleRound, BigDecimal.withScale]
    simp only [toInt, Value.ofInt, Value.toNumber, same, if_pos fits]
  have evaluated : ((calls Host.plain 3).eval (.literal (.ofInt i))).Gives s (.ofInt i) s := rfl
  unfold Traced.Gives evalInt
  rw [evaluated.bind, accepted]
  rfl

/-- The body X := I. -/
def copyCounter : List Stmt := [.assign (.var "X") (.column none "I")]

/-- FOR i IN REVERSE 1 .. 3 LOOP X := I; END LOOP. -/
theorem for_range_visits_three :
    BodyGoesOn Host.plain (calls Host.plain 3) none "I" true copyCounter 1 3 (withX .null) ∧
    VisitsRange Host.plain (calls Host.plain 3) none "I" true (.literal (.ofInt 1))
      (.literal (.ofInt 3)) copyCounter 1 3 (withX .null) (withX .null) := by
  have goes : BodyGoesOn Host.plain (calls Host.plain 3) none "I" true copyCounter 1 3
      (withX .null) := by
    intro i s comes
    have run : ∃ s', Steps (GoesOn (countIteration Host.plain (calls Host.plain 3) none "I"
        copyCounter)) (pushed (withX .null)) (countRange true 1 3) s' :=
      ⟨_, .cons rfl (.cons rfl (.cons rfl .nil))⟩
    exact comes.goesOn (ahead_first true (by decide)) run.choose_spec
  exact ⟨goes, (for_range_visits_iff (evalInt_literal (by decide) _)
    (evalInt_literal (by decide) _) goes).mpr (Or.inr (by decide))⟩

/-- FOR i IN 9223372036854775807 .. 9223372036854775807 LOOP X := I; END LOOP does not end as it
should, although the bounds are accepted and the body goes on. -/
theorem for_range_overflows :
    (evalInt Host.plain (calls Host.plain 3) (.literal (.ofInt 9223372036854775807))).Gives
      (withX .null) 9223372036854775807 (withX .null) ∧
    BodyGoesOn Host.plain (calls Host.plain 3) none "I" false copyCounter
      9223372036854775807 9223372036854775807 (withX .null) ∧
    ¬ VisitsRange Host.plain (calls Host.plain 3) none "I" false
      (.literal (.ofInt 9223372036854775807)) (.literal (.ofInt 9223372036854775807)) copyCounter
      9223372036854775807 9223372036854775807 (withX .null) (withX .null) := by
  have bound := evalInt_literal (i := 9223372036854775807) (by decide) (withX .null)
  have goes : BodyGoesOn Host.plain (calls Host.plain 3) none "I" false copyCounter
      9223372036854775807 9223372036854775807 (withX .null) := by
    intro i s comes
    have run : ∃ s', Steps (GoesOn (countIteration Host.plain (calls Host.plain 3) none "I"
        copyCounter)) (pushed (withX .null))
        (countRange false 9223372036854775807 9223372036854775807) s' := ⟨_, .cons rfl .nil⟩
    exact comes.goesOn (ahead_first false (by decide)) run.choose_spec
  exact ⟨bound, goes, forRange_panics bound bound goes (Int.le_refl _) (by decide)⟩

end MockOracle.Plsql
