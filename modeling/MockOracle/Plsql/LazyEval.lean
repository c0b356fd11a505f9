import MockOracle.Eval.SteadyQueries
import MockOracle.Plsql.Interp

/-!
# Lazy evaluation

The interpreter evaluates some operators itself when they contain calls, and leaves the others to
SQL once the calls in their operands are gone. Either way an expression has the value that SQL
gives it when every call is replaced by its result, whenever SQL gives it one.
-/

namespace MockOracle

open Std Semantics

namespace Interp

/-! ## States between calls -/

/-- The interpreters that differ from one in the numbers of the row at hand at most. -/
def Calm (it other : Interp) : Prop :=
  (∃ evalState, other = { it with evalState }) ∧ it.evalState.Alike other.evalState

variable {it : Interp} {eng : Engine} {levels : Nat} {call : Caller}

/-- An interpreter whose row is coherent is calm towards itself. -/
theorem calm_self (coherent : it.evalState.Coherent) : it.Calm it :=
  ⟨⟨it.evalState, rfl⟩, EvalState.alike_self coherent⟩

/-- What SQL returns, the interpreter returns when it asks SQL. -/
theorem returns_run {α : Type} {onError : OraError → OraError} {m : Interp → EvalM α} {a : α}
    (same : ∀ evalState, m { it with evalState } = m it)
    (returns : Returns it.evalState.Alike (m it) a) : Returns it.Calm (PlsqlM.run onError m) a := by
  rintro _ ⟨⟨evalState, rfl⟩, alike⟩
  obtain ⟨after, ran, kept⟩ := returns evalState alike
  refine ⟨{ it with evalState := after }, ?_, ⟨after, rfl⟩, kept⟩
  simp only [PlsqlM.run, same, ran]

/-- What SQL returns for an expression, the interpreter returns for it. -/
theorem returns_sqlEval {e : Expr} {v : Value}
    (returns : Returns it.evalState.Alike ((eng.levels levels).eval it.ex e (.empty none)) v) :
    Returns it.Calm (sqlEval eng levels e) v :=
  returns_run (fun _ => rfl) returns

/-- What SQL returns for a condition, the interpreter returns for it. -/
theorem returns_sqlEvalBool {e : Expr} {b : Option Bool}
    (returns : Returns it.evalState.Alike ((eng.levels levels).evalBool it.ex e (.empty none)) b) :
    Returns it.Calm (sqlEvalBool eng levels e) b :=
  returns_run (fun _ => rfl) returns

/-- The interpreter compares as SQL does. -/
theorem returns_equal {a b : Value} {order : Option Ordering}
    (returns : Returns it.evalState.Alike (compareM eng a b) order) :
    Returns it.Calm (equal eng a b) (order == some .eq) :=
  Returns.bind_ (returns_run (fun _ => rfl) returns) (Returns.pure_ _)

/-- Reading the interpreter's own fields. -/
theorem returns_get {α : Type} {f : Interp → PlsqlM α} {a : α}
    (same : ∀ evalState, f { it with evalState } = f it) (returns : Returns it.Calm (f it) a) :
    Returns it.Calm (get >>= f) a := by
  refine Returns.get_ ?_
  rintro _ ⟨⟨evalState, rfl⟩, -⟩
  rw [same]
  exact returns

/-! ## Calls -/

/-- Whether the expression itself is a call that the interpreter runs. -/
def isCall (it : Interp) : Expr → Bool
  | .column none name => !it.isVar name && (it.findRoutine name).isSome
  | .function name _ _ => (it.findRoutine name).isSome
  | _ => false

/-- An expression without calls is resolved as it is. -/
theorem resolveCalls_plain {e : Expr} (plain : it.hasCall e = false) :
    Returns it.Calm (resolveCalls eng levels call e) e := by
  rw [resolveCalls]
  refine returns_get (fun _ => rfl) ?_
  rw [plain]
  exact Returns.pure_ e

/-- A lazy expression is resolved by its value. -/
theorem resolveCalls_lazy {e : Expr} {v : Value} (calls : it.hasCall e = true)
    (lazy : Returns it.Calm (evalLazy eng levels call e) (some v)) :
    Returns it.Calm (resolveCalls eng levels call e) (.literal v) := by
  rw [resolveCalls]
  refine returns_get (fun _ => rfl) ?_
  rw [calls]
  exact Returns.bind_ lazy (Returns.pure_ _)

/-- A strict expression is resolved by its operands. -/
theorem resolveCalls_strict {e e' : Expr} (calls : it.hasCall e = true)
    (strict : Returns it.Calm (evalLazy eng levels call e) none)
    (resolved : Returns it.Calm (resolveOperands eng levels call e) e') :
    Returns it.Calm (resolveCalls eng levels call e) e' := by
  rw [resolveCalls]
  refine returns_get (fun _ => rfl) ?_
  rw [calls]
  exact Returns.bind_ strict resolved

/-! ## Expressions in place of others -/

section Replacing

variable (eng) (it)

/-- SQL's value of an expression of the interpreter, to some levels. -/
def value (k : Nat) (e : Expr) : EvalM Value := (eng.levels k).eval it.ex e (.empty none)

/-- SQL's truth of a condition of the interpreter. -/
def truth (k : Nat) (e : Expr) : EvalM (Option Bool) := (eng.levels k).evalBool it.ex e (.empty none)

/-- The second expression has every value that the first one has. -/
def Replaces (e e' : Expr) : Prop :=
  ∀ k, Follows it.evalState.Alike (it.value eng k e) (it.value eng k e') ∧
    Follows it.evalState.Alike (it.truth eng k e) (it.truth eng k e')

end Replacing

section Values

variable {e e' : Expr} {v : Value} {k : Nat}

/-- Without levels nothing is given. -/
theorem not_gives_zero : ¬ Gives it.evalState.Alike (it.value eng 0 e) v := Gives.not_throw

/-- What is given takes a level. -/
theorem pos_of_gives (gives : Gives it.evalState.Alike (it.value eng k e) v) : ∃ m, k = m + 1 := by
  cases k with
  | zero => exact absurd gives not_gives_zero
  | succ m => exact ⟨m, rfl⟩

variable (quiet : eng.Quiet it.evalState)
include quiet

/-- An expression without NEXTVAL has a steady value. -/
theorem steady_value (drawless : e.Drawless) : Steady it.evalState.Alike (it.value eng k e) :=
  (steady_levels quiet k).eval drawless _ _

/-- A condition without NEXTVAL has a steady truth. -/
theorem steady_truth (drawless : e.Drawless) : Steady it.evalState.Alike (it.truth eng k e) :=
  (steady_levels quiet k).evalBool drawless _ _

/-- A value does not change with more levels at hand. -/
theorem returns_of_le {m : Nat} (drawless : e.Drawless) (le : m ≤ k)
    (returns : Gives it.evalState.Alike (it.value eng m e) v) :
    Returns it.evalState.Alike (it.value eng k e) v := by
  obtain ⟨more, rfl⟩ := Nat.exists_eq_add_of_le le
  exact ((follows_levels quiet m more).eval drawless it.ex (.empty none)).of_gives returns

/-- More levels give the same truth. -/
theorem truth_of_le {m : Nat} {b : Option Bool} (drawless : e.Drawless) (le : m ≤ k)
    (returns : Gives it.evalState.Alike (it.truth eng m e) b) :
    Returns it.evalState.Alike (it.truth eng k e) b := by
  obtain ⟨more, rfl⟩ := Nat.exists_eq_add_of_le le
  exact ((follows_levels quiet m more).evalBool drawless it.ex (.empty none)).of_gives returns

/-- Operators over operands that replace others. -/
theorem Replaces.of_matches (matched : Expr.Matches (it.Replaces eng) e e') :
    it.Replaces eng e e' := by
  intro k
  induction k with
  | zero => exact ⟨Follows.throw_ _ _, Follows.throw_ _ _⟩
  | succ k ih =>
      have below := steady_levels quiet k
      have operands : Operands it.evalState.Alike it.ex (eng.levels k) (eng.levels k)
          (fun scope a b => scope = .empty none ∧
            Follows it.evalState.Alike (it.value eng k a) (it.value eng k b) ∧
            Follows it.evalState.Alike (it.truth eng k a) (it.truth eng k b)) := by
        refine ⟨?_, ?_, ?_⟩
        · rintro scope a b ⟨rfl, values, -⟩
          exact values
        · rintro scope a b ⟨rfl, -, truths⟩
          exact truths
        · rintro scope a b ⟨rfl, -⟩ grouped
          cases grouped
      constructor
      · exact operands.value quiet below ⟨rfl, ih⟩
          (matched.imp fun a _ b _ replaces => ⟨rfl, replaces k⟩)
      · exact operands.condition below ⟨rfl, ih⟩
          (matched.imp fun a _ b _ replaces => ⟨rfl, replaces k⟩)

/-- An expression without NEXTVAL replaces itself. -/
theorem Replaces.refl (drawless : e.Drawless) : it.Replaces eng e e :=
  fun _ => ⟨steady_value quiet drawless, steady_truth quiet drawless⟩

/-- An expression has one value, however many levels it is given from. -/
theorem gives_unique (coherent : it.evalState.Coherent) (drawless : e.Drawless) {m : Nat} {w : Value}
    (gives : Gives it.evalState.Alike (it.value eng k e) v)
    (gives' : Gives it.evalState.Alike (it.value eng m e) w) : v = w := by
  refine Returns.unique (EvalState.alike_self coherent)
    (returns_of_le quiet drawless (Nat.le_max_left k m) gives) ?_
  exact returns_of_le quiet drawless (Nat.le_max_right k m) gives'

/-- A value that is taken as a condition. -/
theorem gives_asBool {b : Option Bool} (drawless : e.Drawless)
    (gives : Gives it.evalState.Alike
      (evalBoolStep.asBool (eng.levels k) it.ex (.empty none) e) b) :
    Returns it.evalState.Alike (it.value eng k e) (boolValue b) := by
  obtain ⟨v, returns, rest⟩ := gives.of_bind (steady_value quiet drawless)
  cases v with
  | boolean c =>
      cases rest.of_pure
      exact returns
  | null =>
      cases rest.of_pure
      exact returns
  | number | varchar2 | date | timestamp => exact absurd rest Gives.not_throw

/-- A condition is its value, and needs two levels. -/
theorem value_of_truth {b : Option Bool} (drawless : e.Drawless)
    (gives : Gives it.evalState.Alike (it.truth eng k e) b) :
    Returns it.evalState.Alike (it.value eng k e) (boolValue b) ∧ 2 ≤ k := by
  have returns := (steady_truth quiet drawless).of_gives gives
  cases k with
  | zero => exact absurd gives Gives.not_throw
  | succ k =>
      have asBool : Gives it.evalState.Alike
          (evalBoolStep.asBool (eng.levels k) it.ex (.empty none) e) b →
            Returns it.evalState.Alike (it.value eng (k + 1) e) (boolValue b) ∧ 2 ≤ k + 1 := by
        intro gives
        have below := gives_asBool quiet drawless gives
        obtain ⟨s, s', alike, -⟩ := gives
        obtain ⟨s'', ran, -⟩ := below s alike
        refine ⟨returns_of_le quiet drawless (Nat.le_succ k) ⟨s, s'', alike, ran⟩, ?_⟩
        obtain ⟨m, rfl⟩ := pos_of_gives ⟨s, s'', alike, ran⟩
        omega
      have condition : Returns it.evalState.Alike
          (conditionValue (evalBoolStep eng (eng.levels k) it.ex e (.empty none))) (boolValue b) :=
        Returns.bind_ returns (Returns.pure_ _)
      have two : k ≠ 0 → 2 ≤ k + 1 := by omega
      cases e with
      | literal | bind | column | rowNum | countStar | sequence | neg | «case» | function | subquery =>
          exact asBool gives
      | binary op a b =>
          cases op with
          | add | sub | mul | div | concat => exact asBool gives
          | eq | notEq | lt | ltEq | gt | gtEq | and | or =>
              refine ⟨condition, two ?_⟩
              rintro rfl
              exact absurd gives Gives.not_throw_bind
      | not | isNull | between | inList | inSubquery | «exists» | like =>
          refine ⟨condition, two ?_⟩
          rintro rfl
          exact absurd gives Gives.not_throw_bind

/-- A literal in place of an expression that has its value. -/
theorem Replaces.of_literal (coherent : it.evalState.Coherent) (drawless : e.Drawless)
    (gives : Gives it.evalState.Alike (it.value eng k e) v) : it.Replaces eng e (.literal v) := by
  intro m
  constructor
  · intro s w s' alike ran
    refine ⟨((steady_value quiet drawless) s w s' alike ran).1, ?_⟩
    obtain rfl := gives_unique quiet coherent drawless gives ⟨s, s', alike, ran⟩
    obtain ⟨m, rfl⟩ := pos_of_gives ⟨s, s', alike, ran⟩
    exact Returns.pure_ v
  · intro s b s' alike ran
    refine ⟨((steady_truth quiet drawless) s b s' alike ran).1, ?_⟩
    obtain ⟨returns, two⟩ := value_of_truth quiet drawless ⟨s, s', alike, ran⟩
    obtain ⟨after, ranValue, -⟩ := returns s alike
    obtain rfl := gives_unique quiet coherent drawless gives ⟨s, after, alike, ranValue⟩
    obtain ⟨m, rfl⟩ := Nat.exists_eq_add_of_le' two
    refine Returns.bind_ (Returns.pure_ (boolValue b)) ?_
    rcases b with _ | b
    · exact Returns.pure_ _
    · exact Returns.pure_ _

end Values

/-! ## Answered calls -/

section Answers

variable (eng levels call it)

/-- The second expression is the first one with each call that the interpreter runs replaced by
the literal of its result. Calls change nothing. -/
inductive Answered : Expr → Expr → Prop
  | plain {e : Expr} : it.hasCall e = false → Answered e e
  | call {c : Expr} {v : Value} : it.isCall c = true →
      Returns it.Calm (resolveCalls eng levels call c) (.literal v) → Answered c (.literal v)
  | operator {e e' : Expr} : it.hasCall e = true → it.isCall e = false →
      Expr.Matches Answered e e' → Answered e e'

/-- The interpreter evaluates the first expression to what SQL evaluates the second one to. -/
structure Settled (e e' : Expr) : Prop where
  drawless : e'.Drawless
  resolves : ∀ {v}, Gives it.evalState.Alike (it.value eng levels e') v →
    ∃ e'', Returns it.Calm (resolveCalls eng levels call e) e'' ∧ it.Replaces eng e' e''
  evalBool : Realizes it.evalState.Alike it.Calm (it.truth eng levels e') (evalBool eng levels call e)

end Answers

/-- Operators for which `evalBool` evaluates the operands. -/
def isLogic : Expr → Bool
  | .binary .and _ _ | .binary .or _ _ | .not _ => true
  | _ => false

/-- What is no logical operator is a condition by its resolved expression. -/
theorem evalBool_default {e e' : Expr} {b : Option Bool} (notLogic : isLogic e = false)
    (resolved : Returns it.Calm (resolveCalls eng levels call e) e')
    (returns : Returns it.Calm (sqlEvalBool eng levels e') b) :
    Returns it.Calm (evalBool eng levels call e) b := by
  rw [Interp.evalBool]
  · refine returns_get (fun _ => rfl) ?_
    split
    · exact Returns.bind_ resolved returns
    · exact Returns.bind_ resolved returns
  · rintro a b rfl
    cases notLogic
  · rintro a b rfl
    cases notLogic
  · rintro a rfl
    cases notLogic

namespace Settled

variable {e e' : Expr}

/-- An expression whose values survive its resolution is settled. -/
theorem of_resolves (notLogic : isLogic e = false) (drawless : e'.Drawless)
    (quiet : eng.Quiet it.evalState) (coherent : it.evalState.Coherent)
    (resolves : ∀ {v}, Gives it.evalState.Alike (it.value eng levels e') v →
      ∃ e'', Returns it.Calm (resolveCalls eng levels call e) e'' ∧ it.Replaces eng e' e'') :
    it.Settled eng levels call e e' := by
  refine ⟨drawless, resolves, fun gives => ?_⟩
  obtain ⟨value, -⟩ := value_of_truth quiet drawless gives
  obtain ⟨e'', resolved, replaces⟩ := resolves (value.gives (EvalState.alike_self coherent))
  exact evalBool_default notLogic resolved
    (returns_sqlEvalBool ((replaces levels).2.of_gives gives))

/-! ### Operands -/

section Operand

variable (settled : it.Settled eng levels call e e') (quiet : eng.Quiet it.evalState) {m : Nat}
  (le : m ≤ levels)
include settled quiet le

/-- An expression that is resolved with fewer levels is resolved with these. -/
theorem resolves_of_le (coherent : it.evalState.Coherent) {v : Value}
    (returns : Returns it.evalState.Alike (it.value eng m e') v) :
    ∃ e'', Returns it.Calm (resolveCalls eng levels call e) e'' ∧ it.Replaces eng e' e'' := by
  have here := EvalState.alike_self coherent
  exact settled.resolves ((returns_of_le quiet settled.drawless le (returns.gives here)).gives here)

/-- The interpreter evaluates to what SQL gives with fewer levels. -/
theorem eval_of_le :
    Realizes it.evalState.Alike it.Calm (it.value eng m e') (eval eng levels call e) := by
  intro v gives
  have returns := returns_of_le quiet settled.drawless le gives
  obtain ⟨s, -, alike, -⟩ := gives
  obtain ⟨e'', resolved, replaces⟩ := settled.resolves (returns.gives alike)
  rw [Interp.eval]
  exact Returns.bind_ resolved
    (returns_sqlEval ((replaces levels).1.of_gives (returns.gives alike)))

/-- The interpreter decides what SQL decides with fewer levels. -/
theorem evalBool_of_le :
    Realizes it.evalState.Alike it.Calm (it.truth eng m e') (Interp.evalBool eng levels call e) := by
  intro b gives
  have returns := truth_of_le quiet settled.drawless le gives
  obtain ⟨s, -, alike, -⟩ := gives
  exact settled.evalBool (returns.gives alike)

end Operand

variable (quiet : eng.Quiet it.evalState) (coherent : it.evalState.Coherent)
include quiet coherent

/-- An operator that the interpreter evaluates itself. -/
theorem of_lazy (calls : it.hasCall e = true) (notLogic : isLogic e = false)
    (drawless : e'.Drawless)
    (lazy : ∀ {v}, Gives it.evalState.Alike (it.value eng levels e') v →
      Returns it.Calm (evalLazy eng levels call e) (some v)) :
    it.Settled eng levels call e e' := by
  refine .of_resolves notLogic drawless quiet coherent fun gives => ?_
  exact ⟨_, resolveCalls_lazy calls (lazy gives), .of_literal quiet coherent drawless gives⟩

/-- An operator that is left to SQL. -/
theorem of_strict (calls : it.hasCall e = true) (notLogic : isLogic e = false)
    (drawless : e'.Drawless) (strict : Returns it.Calm (evalLazy eng levels call e) none)
    (operands : ∀ {v}, Gives it.evalState.Alike (it.value eng levels e') v →
      ∃ e'', Returns it.Calm (resolveOperands eng levels call e) e'' ∧
        Expr.Matches (it.Replaces eng) e' e'') :
    it.Settled eng levels call e e' := by
  refine .of_resolves notLogic drawless quiet coherent fun gives => ?_
  obtain ⟨e'', resolved, matched⟩ := operands gives
  exact ⟨e'', resolveCalls_strict calls strict resolved, .of_matches quiet matched⟩

end Settled

end Interp

end MockOracle
