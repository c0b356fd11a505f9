import MockOracle.Eval.Plain
import MockOracle.Eval.Literal
import MockOracle.Semantics.ThreeValued

/-!
# Membership and ranges

`v IN (c, ...)` stands for the disjunction of `v = c` and `v BETWEEN a AND b` for
`v >= a AND v <= b`, in three-valued logic. BETWEEN is its expansion wherever the NULLs are. IN
is, but for a NULL looked for among no candidates: the expansion is FALSE there, and the
evaluator answers UNKNOWN because it tests the operand for NULL first.
-/

namespace MockOracle

open Semantics (Truth)

/-- The condition `v op w`. -/
def comparison (dates : DateFormats) (format : String) (op : BinaryOp) (v w : Value) :
    Except OraError Truth :=
  (compareValues dates format v w).map (·.map op.accepts)

section Values

variable {dates : DateFormats} {format : String} {v : Value}

theorem comparison_ok {op : BinaryOp} {w : Value} {t : Truth}
    (compared : comparison dates format op v w = .ok t) :
    ∃ order, compareValues dates format v w = .ok order ∧ t = order.map op.accepts := by
  unfold comparison at compared
  cases order : compareValues dates format v w with
  | error e =>
      rw [order] at compared
      cases compared
  | ok order =>
      rw [order] at compared
      cases compared
      exact ⟨_, rfl, rfl⟩

theorem comparison_null {op : BinaryOp} {w : Value} {t : Truth}
    (compared : comparison dates format op .null w = .ok t) : t = none := by
  cases compared
  rfl

/-- The candidates with the truth of their equality with the operand. -/
def Equalities (dates : DateFormats) (format : String) (v : Value) : List Value → List Truth → Prop :=
  List.Forall₂ fun c t => comparison dates format .eq v c = .ok t

theorem Equalities.truths_of_null {candidates : List Value} {truths : List Truth}
    (equalities : Equalities dates format .null candidates truths) : ∀ t ∈ truths, t = none := by
  induction equalities with
  | nil => simp
  | cons first rest ih =>
      intro t member
      rcases List.mem_cons.mp member with rfl | later
      · exact comparison_null first
      · exact ih t later

/-- The search adds the equalities ahead to what is known so far. -/
theorem search_eq {candidates : List Value} {truths : List Truth}
    (equalities : Equalities dates format v candidates truths) (unknown : Bool) :
    inValues.search dates format v candidates unknown =
      .ok (Truth.or (if unknown then none else some false) (Truth.any truths)) := by
  induction equalities generalizing unknown with
  | nil => cases unknown <;> rfl
  | cons first rest ih =>
      obtain ⟨order, compared, rfl⟩ := comparison_ok first
      unfold inValues.search
      rw [compared]
      simp only [bind, Except.bind, Truth.any_cons]
      rcases order with _ | _ | _ | _
      · rw [ih, if_pos rfl]
        cases unknown
        · simp
        · simp [← Truth.or_assoc]
      · simpa [BinaryOp.accepts] using ih unknown
      · simp only [pure, Except.pure, Option.map_some, BinaryOp.accepts, decide_true,
          Truth.true_or]
        rw [Truth.or_comm, Truth.true_or]
      · simpa [BinaryOp.accepts] using ih unknown

/-- IN is the disjunction of the equalities, but for NULL among no candidates. -/
theorem inValues_eq_any_iff {candidates : List Value} {truths : List Truth}
    (equalities : Equalities dates format v candidates truths) :
    inValues dates format v candidates = .ok (Truth.any truths) ↔
      ¬ (v = .null ∧ candidates = []) := by
  by_cases null : v = .null
  · subst null
    have unknown := equalities.truths_of_null
    have unanswered : inValues dates format .null candidates = .ok none := rfl
    rw [unanswered]
    cases equalities with
    | nil => simp
    | cons first rest =>
        rw [Truth.any_unknown unknown (by simp)]
        simp
  · have searched : inValues dates format v candidates = inValues.search dates format v candidates false := by
      unfold inValues
      rw [if_neg (by cases v <;> simp_all [Value.isNull])]
    rw [searched, search_eq equalities]
    simp [null]

/-- The two comparisons of BETWEEN are joined by AND. -/
theorem bothBounds_eq_and (lo hi : Option Bool) : bothBounds lo hi = Truth.and lo hi := by
  rcases lo with _ | _ | _ <;> rcases hi with _ | _ | _ <;> rfl

end Values

/-! ## Conditions -/

/-- Where IN takes its candidates from. -/
inductive Candidates where
  | list (items : List Expr)
  | query (q : Query)

namespace Candidates

/-- `a [NOT] IN (candidates)`. -/
def condition (a : Expr) (negated : Bool) : Candidates → Expr
  | list items => .inList a items negated
  | query q => .inSubquery a q negated

/-- The candidates of one evaluation. -/
def values (self : Recur) (ex : Ex) (scope : Scope) : Candidates → EvalM (List Value)
  | list items => forEach (fun item => self.eval ex item scope) items
  | query q => singleColumn self ex q scope

end Candidates

section Conditions

variable {eng : Engine} {self : Recur} {ex : Ex} {scope : Scope} {a low high : Expr} {v : Value}
  {st s s₁ s₂ s₃ : EvalState}

/-- `a [NOT] IN (candidates)` is what `inValues` finds, or its negation. -/
theorem evalBoolStep_in {among : Candidates} {candidates : List Value} {negated : Bool}
    (operand : self.eval ex a scope st = .ok v s)
    (listed : among.values self ex scope s = .ok candidates s₁) :
    evalBoolStep eng self ex (among.condition a negated) scope st =
      EvalM.lift ((inValues eng.lib.dates s₁.env.nlsDateFormat v candidates).map
        (Truth.negateIf negated)) s₁ := by
  have found : ∀ result : Except OraError (Option Bool),
      (do return (← EvalM.lift result).map (· != negated) : EvalM (Option Bool)) s₁ =
        EvalM.lift (result.map (Truth.negateIf negated)) s₁ := by
    intro result
    cases result with
    | ok t => simp [EvalM.lift, bind, EStateM.bind, pure, EStateM.pure, Except.map,
        Truth.negateIf_eq_map]
    | error e => rfl
  rw [← found]
  cases among with
  | list items | query q =>
      simp only [Candidates.values] at listed
      simp only [Candidates.condition, evalBoolStep, dateFormat, bind, EStateM.bind, operand,
        listed]
      rfl

/-- `a [NOT] BETWEEN low AND high` is the conjunction of its comparisons, or its negation. -/
theorem evalBoolStep_between {l h : Value} {atLeast atMost : Truth} {negated : Bool}
    (operand : self.eval ex a scope st = .ok v s)
    (lower : self.eval ex low scope s = .ok l s₂)
    (above : comparison eng.lib.dates s₂.env.nlsDateFormat .gtEq v l = .ok atLeast)
    (upper : self.eval ex high scope s₂ = .ok h s₃)
    (below : comparison eng.lib.dates s₃.env.nlsDateFormat .ltEq v h = .ok atMost) :
    evalBoolStep eng self ex (.between a low high negated) scope st =
      .ok (Truth.negateIf negated (Truth.and atLeast atMost)) s₃ := by
  obtain ⟨lo, comparedLow, rfl⟩ := comparison_ok above
  obtain ⟨hi, comparedHigh, rfl⟩ := comparison_ok below
  have accepted : (fun order => BinaryOp.gtEq.accepts order) = fun order => order != .lt := by
    funext order
    cases order <;> rfl
  have limited : (fun order => BinaryOp.ltEq.accepts order) = fun order => order != .gt := by
    funext order
    cases order <;> rfl
  rw [Truth.negateIf_eq_map, ← bothBounds_eq_and]
  simp only [evalBoolStep, compareM, dateFormat, bind, EStateM.bind, operand, lower, upper, get,
    getThe, MonadStateOf.get, EStateM.get, pure, EStateM.pure, comparedLow, comparedHigh,
    EvalM.lift, ← accepted, ← limited]

/-- Where all comparisons succeed, `a [NOT] IN (c, ...)` is the three-valued disjunction of the
equalities, or its negation, unless the operand is NULL and there is no candidate; and
`a [NOT] BETWEEN low AND high` is `a >= low AND a <= high`, or its negation. -/
theorem membership_expansion_iff {among : Candidates} {candidates : List Value}
    {truths : List Truth} {l h : Value} {atLeast atMost : Truth} (negated : Bool)
    (operand : self.eval ex a scope st = .ok v s)
    (listed : among.values self ex scope s = .ok candidates s₁)
    (equalities : Equalities eng.lib.dates s₁.env.nlsDateFormat v candidates truths)
    (lower : self.eval ex low scope s = .ok l s₂)
    (above : comparison eng.lib.dates s₂.env.nlsDateFormat .gtEq v l = .ok atLeast)
    (upper : self.eval ex high scope s₂ = .ok h s₃)
    (below : comparison eng.lib.dates s₃.env.nlsDateFormat .ltEq v h = .ok atMost) :
    (evalBoolStep eng self ex (among.condition a negated) scope st =
        .ok (Truth.negateIf negated (Truth.any truths)) s₁ ↔
      ¬ (v = .null ∧ candidates = [])) ∧
    evalBoolStep eng self ex (.between a low high negated) scope st =
      .ok (Truth.negateIf negated (Truth.and atLeast atMost)) s₃ := by
  refine ⟨?_, evalBoolStep_between operand lower above upper below⟩
  rw [evalBoolStep_in operand listed, ← inValues_eq_any_iff equalities]
  cases inValues eng.lib.dates s₁.env.nlsDateFormat v candidates with
  | error e => simp [EvalM.lift, Except.map]
  | ok t =>
      simp only [EvalM.lift, Except.map, EStateM.Result.ok.injEq, and_true, Except.ok.injEq]
      exact ⟨Truth.negateIf_injective negated, fun equal => by rw [equal]⟩

end Conditions

namespace MembershipRun

def ex : Ex := ⟨.empty, [], .empty, none⟩

def start : EvalState := ⟨∅, ∅, Literal.env "HR"⟩

def one : Value := .ofInt 1

def two : Value := .ofInt 2

/-- `SELECT dummy FROM dual WHERE 1 = 2`. -/
def noRows : Query :=
  .mk (.select (.mk false [.expr (.column none "DUMMY") "DUMMY"] [.mk (.table "DUAL" none) []]
    (some (.binary .eq (.literal one) (.literal two))) [] none)) [] none none

/-- The result of a success. -/
def outcome {α : Type} : EStateM.Result OraError EvalState α → Option α
  | .ok a _ => some a
  | .error _ _ => none

theorem of_outcome {α : Type} {result : EStateM.Result OraError EvalState α} {a : α}
    (succeeded : outcome result = some a) : ∃ st, result = .ok a st := by
  cases result with
  | ok b st =>
      cases succeeded
      exact ⟨st, rfl⟩
  | error e st => cases succeeded

end MembershipRun

open MembershipRun in
/-- `1 NOT IN (NULL, 2)` is UNKNOWN, and `1 NOT BETWEEN NULL AND 2` is too. -/
theorem membership_expansion_unknown :
    evalBoolStep Engine.plain (Engine.plain.levels 1) ex
        (.inList (.literal one) [.literal .null, .literal two] true) (.empty none) start =
      .ok none start ∧
    evalBoolStep Engine.plain (Engine.plain.levels 1) ex
        (.between (.literal one) (.literal .null) (.literal two) true) (.empty none) start =
      .ok none start := by
  have equalities : Equalities Engine.plain.lib.dates start.env.nlsDateFormat one [.null, two]
      [none, some false] := .cons rfl (.cons (by decide +kernel) .nil)
  have below : comparison Engine.plain.lib.dates start.env.nlsDateFormat .ltEq one two =
      .ok (some true) := by decide +kernel
  have listed : (Candidates.list [.literal .null, .literal two]).values (Engine.plain.levels 1) ex
      (.empty none) start = .ok [.null, two] start := rfl
  have lower : (Engine.plain.levels 1).eval ex (.literal .null) (.empty none) start =
      .ok .null start := rfl
  have upper : (Engine.plain.levels 1).eval ex (.literal two) (.empty none) start =
      .ok two start := rfl
  have expansion := membership_expansion_iff (a := .literal one) true rfl listed equalities lower
    rfl upper below
  exact ⟨expansion.1.mpr (by simp), expansion.2⟩

open MembershipRun in
/-- `NULL IN (SELECT dummy FROM dual WHERE 1 = 2)` is UNKNOWN, where the disjunction of no
equalities is FALSE. -/
theorem null_in_no_rows :
    (∃ st, singleColumn (Engine.plain.levels 8) ex noRows (.empty none) start = .ok [] st ∧
      Equalities Engine.plain.lib.dates st.env.nlsDateFormat .null [] [] ∧
      evalBoolStep Engine.plain (Engine.plain.levels 8) ex
        (.inSubquery (.literal .null) noRows false) (.empty none) start = .ok none st) ∧
    Truth.negateIf false (Truth.any []) = some false := by
  have evaluated : outcome ((Candidates.query noRows).values (Engine.plain.levels 8) ex
      (.empty none) start) = some [] := by decide +kernel
  obtain ⟨st, none_⟩ := of_outcome evaluated
  have operand : (Engine.plain.levels 8).eval ex (.literal .null) (.empty none) start =
      .ok .null start := rfl
  exact ⟨⟨st, none_, .nil, evalBoolStep_in operand none_⟩, rfl⟩

end MockOracle
