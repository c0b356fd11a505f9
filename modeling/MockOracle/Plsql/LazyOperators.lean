import MockOracle.Eval.Literal
import MockOracle.Eval.Plain
import MockOracle.Plsql.LazyOperands

/-!
# Lazy evaluation refines SQL

One lemma for each operator: if the operands are evaluated as SQL evaluates them once their calls
have been answered, then so is the operator. By induction over expressions the interpreter returns
whatever SQL returns.
-/

namespace MockOracle

open Std Semantics

namespace Interp

variable {it : Interp} {eng : Engine} {m : Nat} {call : Caller}

/-! ## Operators -/

/-- Operators that the interpreter may evaluate itself. -/
def isLazy : Expr → Bool
  | .binary .and _ _ | .binary .or _ _ | .case .. | .function .. => true
  | _ => false

/-- Only lazy operators are evaluated by the interpreter itself. -/
theorem evalLazy_strict {levels : Nat} {e : Expr} (strict : isLazy e = false) :
    Returns it.Calm (evalLazy eng levels call e) none := by
  have none_ : evalLazy eng levels call e = pure none := by
    rw [evalLazy]
    · rintro a b rfl
      cases strict
    · rintro a b rfl
      cases strict
    · rintro operand whens else_ rfl
      cases strict
    · rintro name args distinct rfl
      cases strict
  rw [none_]
  exact Returns.pure_ none

/-- The value of a condition is there when its truth is. -/
theorem gives_truth {e : Expr} {v : Value}
    (condition : it.value eng (m + 1) e = conditionValue (it.truth eng (m + 1) e))
    (gives : Gives it.evalState.Alike (it.value eng (m + 1) e) v) :
    ∃ b, Gives it.evalState.Alike (it.truth eng (m + 1) e) b := by
  rw [condition] at gives
  exact gives.first

section Operators

variable (quiet : eng.Quiet it.evalState) (coherent : it.evalState.Coherent) {a a' b b' : Expr}
include quiet coherent

/-- A condition that `evalBool` does not evaluate itself, or a value: SQL evaluates it. -/
theorem settled_strict {e e' : Expr} (calls : it.hasCall e = true) (notLogic : isLogic e = false)
    (strict : isLazy e = false) (drawless : e'.Drawless)
    (operands : ∀ {v}, Gives it.evalState.Alike (it.value eng (m + 1) e') v →
      ∃ e'', Returns it.Calm (resolveOperands eng (m + 1) call e) e'' ∧
        Expr.Matches (it.Replaces eng) e' e'') :
    it.Settled eng (m + 1) call e e' :=
  .of_strict quiet coherent calls notLogic drawless (evalLazy_strict strict) operands

/-- A minus sign is settled when its operand is. -/
theorem settled_neg (calls : it.hasCall (.neg a) = true) (operand : it.Settled eng (m + 1) call a a') :
    it.Settled eng (m + 1) call (.neg a) (.neg a') := by
  refine settled_strict quiet coherent calls rfl rfl (.neg operand.drawless) fun gives => ?_
  obtain ⟨x, value, -⟩ := gives.of_bind (steady_value quiet operand.drawless)
  obtain ⟨r, resolved, replaces⟩ := operand.resolves_of_le quiet (Nat.le_succ m) coherent value
  refine ⟨.neg r, ?_, .neg replaces⟩
  rw [resolveOperands]
  exact Returns.bind_ resolved (Returns.pure_ _)

/-- IS NULL is settled when its operand is. -/
theorem settled_isNull {negated : Bool} (calls : it.hasCall (.isNull a negated) = true)
    (operand : it.Settled eng (m + 1) call a a') :
    it.Settled eng (m + 1) call (.isNull a negated) (.isNull a' negated) := by
  have drawless : (Expr.isNull a' negated).Drawless := .isNull operand.drawless
  refine settled_strict quiet coherent calls rfl rfl drawless fun gives => ?_
  obtain ⟨truth, gives⟩ := gives_truth rfl gives
  obtain ⟨x, value, -⟩ := gives.of_bind (steady_value quiet operand.drawless)
  obtain ⟨r, resolved, replaces⟩ := operand.resolves_of_le quiet (Nat.le_succ m) coherent value
  refine ⟨.isNull r negated, ?_, .isNull replaces⟩
  rw [resolveOperands]
  exact Returns.bind_ resolved (Returns.pure_ _)

/-- BETWEEN is settled when its operands are. -/
theorem settled_between {c c' : Expr} {negated : Bool} (calls : it.hasCall (.between a b c negated) = true)
    (first : it.Settled eng (m + 1) call a a') (low : it.Settled eng (m + 1) call b b')
    (high : it.Settled eng (m + 1) call c c') :
    it.Settled eng (m + 1) call (.between a b c negated) (.between a' b' c' negated) := by
  have drawless : (Expr.between a' b' c' negated).Drawless :=
    .between first.drawless low.drawless high.drawless
  refine settled_strict quiet coherent calls rfl rfl drawless fun gives => ?_
  obtain ⟨truth, gives⟩ := gives_truth rfl gives
  obtain ⟨x, value, gives⟩ := gives.of_bind (steady_value quiet first.drawless)
  obtain ⟨lo, valueLow, gives⟩ := gives.of_bind (steady_value quiet low.drawless)
  obtain ⟨order, -, gives⟩ := gives.of_bind (steady_compareM x lo)
  obtain ⟨hi, valueHigh, -⟩ := gives.of_bind (steady_value quiet high.drawless)
  obtain ⟨r, resolved, replaces⟩ := first.resolves_of_le quiet (Nat.le_succ m) coherent value
  obtain ⟨rl, resolvedLow, replacesLow⟩ := low.resolves_of_le quiet (Nat.le_succ m) coherent valueLow
  obtain ⟨rh, resolvedHigh, replacesHigh⟩ :=
    high.resolves_of_le quiet (Nat.le_succ m) coherent valueHigh
  refine ⟨.between r rl rh negated, ?_, .between replaces replacesLow replacesHigh⟩
  rw [resolveOperands]
  refine Returns.bind_ resolved (Returns.bind_ resolvedLow (Returns.bind_ resolvedHigh ?_))
  exact Returns.pure_ _

/-- IN is settled when its operands are. -/
theorem settled_inList {list list' : List Expr} {negated : Bool}
    (calls : it.hasCall (.inList a list negated) = true)
    (first : it.Settled eng (m + 1) call a a')
    (items : List.Forall₂ (it.Settled eng (m + 1) call) list list') :
    it.Settled eng (m + 1) call (.inList a list negated) (.inList a' list' negated) := by
  have drawlessItems : ∀ e ∈ list', e.Drawless := forall_of_forall₂ items fun _ _ s => s.drawless
  have drawless : (Expr.inList a' list' negated).Drawless := .inList first.drawless drawlessItems
  refine settled_strict quiet coherent calls rfl rfl drawless fun gives => ?_
  obtain ⟨truth, gives⟩ := gives_truth rfl gives
  obtain ⟨x, value, gives⟩ := gives.of_bind (steady_value quiet first.drawless)
  obtain ⟨values, gives⟩ := gives.first
  have returned := returns_of_forEach (fun e member => steady_value quiet (drawlessItems e member)) gives
  obtain ⟨r, resolved, replaces⟩ := first.resolves_of_le quiet (Nat.le_succ m) coherent value
  obtain ⟨rs, resolvedItems, replacesItems⟩ := resolveAll_of_values items returned quiet coherent
  refine ⟨.inList r rs negated, ?_, .inList replaces replacesItems⟩
  rw [resolveOperands]
  exact Returns.bind_ resolved (Returns.bind_ resolvedItems (Returns.pure_ _))

/-- LIKE is settled when its operands are. -/
theorem settled_like {escape escape' : Option Expr} {negated : Bool}
    (calls : it.hasCall (.like a b escape negated) = true)
    (first : it.Settled eng (m + 1) call a a') (pattern : it.Settled eng (m + 1) call b b')
    (escapes : Option.Rel (it.Settled eng (m + 1) call) escape escape') :
    it.Settled eng (m + 1) call (.like a b escape negated) (.like a' b' escape' negated) := by
  have drawlessEscape : ∀ e ∈ escape', e.Drawless := by
    rintro e member
    cases escapes with
    | none => cases member
    | some settled =>
        cases member
        exact settled.drawless
  have drawless : (Expr.like a' b' escape' negated).Drawless :=
    .like first.drawless pattern.drawless drawlessEscape
  refine settled_strict quiet coherent calls rfl rfl drawless fun gives => ?_
  obtain ⟨truth, gives⟩ := gives_truth rfl gives
  obtain ⟨x, value, gives⟩ := gives.of_bind (steady_value quiet first.drawless)
  obtain ⟨y, valuePattern, gives⟩ := gives.of_bind (steady_value quiet pattern.drawless)
  obtain ⟨r, resolved, replaces⟩ := first.resolves_of_le quiet (Nat.le_succ m) coherent value
  obtain ⟨rp, resolvedPattern, replacesPattern⟩ :=
    pattern.resolves_of_le quiet (Nat.le_succ m) coherent valuePattern
  have resolvedEscape : ∃ re, Returns it.Calm (resolveOption eng (m + 1) call escape) re ∧
      Option.Rel (it.Replaces eng) escape' re := by
    cases escapes with
    | none =>
        refine ⟨none, ?_, .none⟩
        rw [resolveOption]
        exact Returns.pure_ none
    | some settled =>
        obtain ⟨c, gives⟩ := gives.first
        obtain ⟨z, valueEscape, -⟩ := gives.of_bind (steady_value quiet settled.drawless)
        obtain ⟨re, resolved, replaces⟩ :=
          settled.resolves_of_le quiet (Nat.le_succ m) coherent valueEscape
        refine ⟨some re, ?_, .some replaces⟩
        rw [resolveOption]
        exact Returns.map_ some resolved
  obtain ⟨re, resolvedEscape, replacesEscape⟩ := resolvedEscape
  refine ⟨.like r rp re negated, ?_, .like replaces replacesPattern replacesEscape⟩
  rw [resolveOperands]
  refine Returns.bind_ resolved (Returns.bind_ resolvedPattern (Returns.bind_ resolvedEscape ?_))
  exact Returns.pure_ _

/-- A strict operator is settled when its operands are. -/
theorem settled_binary {op : BinaryOp} (calls : it.hasCall (.binary op a b) = true)
    (strict : isLazy (.binary op a b) = false) (left : it.Settled eng (m + 1) call a a')
    (right : it.Settled eng (m + 1) call b b') :
    it.Settled eng (m + 1) call (.binary op a b) (.binary op a' b') := by
  have notLogic : isLogic (.binary op a b) = false := by
    cases op with
    | and | or => cases strict
    | _ => rfl
  refine settled_strict quiet coherent calls notLogic strict (.binary left.drawless right.drawless)
    fun gives => ?_
  have operands : ∃ x y, Returns it.evalState.Alike (it.value eng m a') x ∧
      Returns it.evalState.Alike (it.value eng m b') y := by
    cases op with
    | and | or => cases strict
    | add | sub | mul | div | concat =>
        obtain ⟨x, value, gives⟩ := gives.of_bind (steady_value quiet left.drawless)
        obtain ⟨y, value', -⟩ := gives.of_bind (steady_value quiet right.drawless)
        exact ⟨x, y, value, value'⟩
    | eq | notEq | lt | ltEq | gt | gtEq =>
        obtain ⟨truth, gives⟩ := gives_truth rfl gives
        obtain ⟨x, value, gives⟩ := gives.of_bind (steady_value quiet left.drawless)
        obtain ⟨y, value', -⟩ := gives.of_bind (steady_value quiet right.drawless)
        exact ⟨x, y, value, value'⟩
  obtain ⟨x, y, value, value'⟩ := operands
  obtain ⟨r, resolved, replaces⟩ := left.resolves_of_le quiet (Nat.le_succ m) coherent value
  obtain ⟨r', resolved', replaces'⟩ := right.resolves_of_le quiet (Nat.le_succ m) coherent value'
  refine ⟨.binary op r r', ?_, .binary replaces replaces'⟩
  rw [resolveOperands]
  exact Returns.bind_ resolved (Returns.bind_ resolved' (Returns.pure_ _))

/-- NOT is settled when its operand is. -/
theorem settled_not (calls : it.hasCall (.not a) = true) (operand : it.Settled eng (m + 1) call a a') :
    it.Settled eng (m + 1) call (.not a) (.not a') := by
  have drawless : (Expr.not a').Drawless := .not operand.drawless
  refine ⟨drawless, fun gives => ?_, fun gives => ?_⟩
  · obtain ⟨truth, gives⟩ := gives_truth rfl gives
    obtain ⟨x, returns, -⟩ := gives.of_bind (steady_truth quiet operand.drawless)
    obtain ⟨value, -⟩ := value_of_truth quiet operand.drawless
      (returns.gives (EvalState.alike_self coherent))
    obtain ⟨r, resolved, replaces⟩ := operand.resolves_of_le quiet (Nat.le_succ m) coherent value
    refine ⟨.not r, resolveCalls_strict calls (evalLazy_strict rfl) ?_,
      .of_matches quiet (.not replaces)⟩
    rw [resolveOperands]
    exact Returns.bind_ resolved (Returns.pure_ _)
  · rw [evalBool]
    refine returns_get (fun _ => rfl) ?_
    rw [if_pos calls]
    exact Realizes.bind_ (steady_truth quiet operand.drawless)
      (operand.evalBool_of_le quiet (Nat.le_succ m)) (fun _ => Realizes.pure_ _) gives

/-- AND and OR, which `evalLazy` and `evalBool` both evaluate from the truths of the operands. -/
theorem settled_logic {e e' : Expr} {logic : PlsqlM (Option Bool)} (calls : it.hasCall e = true)
    (drawless : e'.Drawless)
    (condition : it.value eng (m + 1) e' = conditionValue (it.truth eng (m + 1) e'))
    (lazy : evalLazy eng (m + 1) call e = do return some (boolValue (← logic)))
    (evalBool : ∀ {b}, Returns it.Calm logic b → Returns it.Calm (evalBool eng (m + 1) call e) b)
    (realizes : Realizes it.evalState.Alike it.Calm (it.truth eng (m + 1) e') logic) :
    it.Settled eng (m + 1) call e e' := by
  refine ⟨drawless, fun {v} given => ?_, fun gives => evalBool (realizes gives)⟩
  have gives := given
  rw [condition] at gives
  obtain ⟨truth, returns, rest⟩ := gives.of_bind (steady_truth quiet drawless)
  cases rest.of_pure
  refine ⟨_, resolveCalls_lazy calls ?_, .of_literal quiet coherent drawless given⟩
  rw [lazy]
  exact Returns.bind_ (realizes (returns.gives (EvalState.alike_self coherent))) (Returns.pure_ _)

/-- AND is settled when its operands are: the right one is not run where SQL would not evaluate it.
-/
theorem settled_and (calls : it.hasCall (.binary .and a b) = true)
    (left : it.Settled eng (m + 1) call a a') (right : it.Settled eng (m + 1) call b b') :
    it.Settled eng (m + 1) call (.binary .and a b) (.binary .and a' b') := by
  refine settled_logic quiet coherent calls (.binary left.drawless right.drawless) rfl
    (by rw [evalLazy]) (fun returns => ?_) ?_
  · rw [evalBool]
    refine returns_get (fun _ => rfl) ?_
    rw [if_pos calls]
    exact returns
  · exact realizes_both (steady_truth quiet left.drawless) (steady_truth quiet right.drawless)
      (left.evalBool_of_le quiet (Nat.le_succ m)) (right.evalBool_of_le quiet (Nat.le_succ m))

/-- OR is settled when its operands are: the right one is not run where SQL would not evaluate it.
-/
theorem settled_or (calls : it.hasCall (.binary .or a b) = true)
    (left : it.Settled eng (m + 1) call a a') (right : it.Settled eng (m + 1) call b b') :
    it.Settled eng (m + 1) call (.binary .or a b) (.binary .or a' b') := by
  refine settled_logic quiet coherent calls (.binary left.drawless right.drawless) rfl
    (by rw [evalLazy]) (fun returns => ?_) ?_
  · rw [evalBool]
    refine returns_get (fun _ => rfl) ?_
    rw [if_pos calls]
    exact returns
  · exact realizes_either (steady_truth quiet left.drawless) (steady_truth quiet right.drawless)
      (left.evalBool_of_le quiet (Nat.le_succ m)) (right.evalBool_of_le quiet (Nat.le_succ m))

/-- CASE is settled when its operands are: only the branches that SQL would evaluate are run. -/
theorem settled_case {operand operand' else_ else_' : Option Expr} {whens whens' : List (Expr × Expr)}
    (calls : it.hasCall (.case operand whens else_) = true)
    (drawless : (Expr.case operand' whens' else_').Drawless)
    (subject : Option.Rel (it.Settled eng (m + 1) call) operand operand')
    (conditions : List.Forall₂ (fun w w' => it.Settled eng (m + 1) call w.1 w'.1) whens whens')
    (results : List.Forall₂ (fun w w' => it.Settled eng (m + 1) call w.2 w'.2) whens whens')
    (otherwise : Option.Rel (it.Settled eng (m + 1) call) else_ else_') :
    it.Settled eng (m + 1) call (.case operand whens else_) (.case operand' whens' else_') := by
  refine .of_lazy quiet coherent calls rfl drawless fun gives => ?_
  cases subject with
  | none =>
      rw [evalLazy]
      exact Returns.map_ some (realizes_whens quiet otherwise conditions results gives)
  | some settled =>
      rw [evalLazy]
      have here := EvalState.alike_self coherent
      have steady := steady_value (k := m) quiet settled.drawless
      obtain ⟨x, returns, gives⟩ := gives.of_bind (Follows.map_ some steady)
      obtain ⟨v, value, rfl⟩ := (returns.gives here).of_map steady
      have subject := settled.eval_of_le quiet (Nat.le_succ m) (value.gives here)
      exact Returns.bind_ (Returns.map_ some subject)
        (Returns.map_ some (realizes_whens quiet otherwise conditions results gives))

end Operators

/-! ## Functions -/

section Functions

variable {name : String} {args args' : List Expr} {distinct : Bool}

/-- The value of a built-in function, in the settings of some state at hand. -/
theorem value_of_call {values : List Value} {v : Value} {f : Env → List Value → Except OraError Value}
    (builtins : ∀ env, builtin eng.lib env eng.scalar name = some (f env))
    (gives : Gives it.evalState.Alike (MockOracle.call eng (eng.levels m) it.ex name values) v) :
    ∃ s, it.evalState.Alike s ∧ f s.env values = .ok v := by
  obtain ⟨s, s', alike, ran⟩ := gives
  simp only [MockOracle.call, bind, EStateM.bind, get, getThe, MonadStateOf.get, EStateM.get,
    builtins] at ran
  exact ⟨s, alike, (lift_ok ran).1⟩

variable (settled : List.Forall₂ (it.Settled eng (m + 1) call) args args')
  (quiet : eng.Quiet it.evalState)
include settled quiet

/-- SQL evaluates all arguments of a function. There are no aggregates outside queries. -/
theorem values_of_function {v : Value}
    (gives : Gives it.evalState.Alike (it.value eng (m + 1) (.function name args' distinct)) v) :
    ∃ values, List.Forall₂ (fun a v => Returns it.evalState.Alike (it.value eng m a) v) args' values ∧
      Gives it.evalState.Alike (MockOracle.call eng (eng.levels m) it.ex name values) v := by
  have drawless : ∀ e ∈ args', e.Drawless := forall_of_forall₂ settled fun _ _ s => s.drawless
  have steady : ∀ e ∈ args', Steady it.evalState.Alike (it.value eng m e) :=
    fun e member => steady_value quiet (drawless e member)
  have unfolded : it.value eng (m + 1) (.function name args' distinct) =
      if isAggregate name then
        aggregate eng (eng.levels m) it.ex name args' distinct (.empty none)
      else forEach (fun a => it.value eng m a) args' >>=
        fun values => MockOracle.call eng (eng.levels m) it.ex name values := rfl
  rw [unfolded] at gives
  split at gives
  · exact absurd gives Gives.not_throw
  · obtain ⟨values, returns, rest⟩ := gives.of_bind (steady_forEach steady)
    obtain ⟨s, s', alike, ran⟩ := rest
    exact ⟨values, returns_of_forEach steady (returns.gives alike), s, s', alike, ran⟩

variable (coherent : it.evalState.Coherent) (calls : it.hasCall (.function name args distinct) = true)
include coherent calls

/-- A function that evaluates all of its arguments is settled when they are. -/
theorem settled_strict_function (notRoutine : it.findRoutine name = none)
    (strict : Returns it.Calm (evalLazy eng (m + 1) call (.function name args distinct)) none) :
    it.Settled eng (m + 1) call (.function name args distinct) (.function name args' distinct) := by
  refine .of_strict quiet coherent calls rfl
    (.function (forall_of_forall₂ settled fun _ _ s => s.drawless)) strict fun gives => ?_
  obtain ⟨values, returned, -⟩ := values_of_function settled quiet gives
  obtain ⟨rs, resolved, replaces⟩ := resolveAll_of_values settled returned quiet coherent
  refine ⟨.function name rs distinct, ?_, .function replaces⟩
  rw [resolveOperands]
  refine returns_get (fun _ => rfl) ?_
  rw [notRoutine]
  exact Returns.bind_ resolved (Returns.pure_ _)

end Functions

/-- What `evalLazy` does for a function that is no routine. -/
def lazyFunction (eng : Engine) (levels : Nat) (call : Caller) (name : String) (args : List Expr) :
    PlsqlM (Option Value) :=
  if name = "NVL" ∧ args.length = 2 ∨ name = "COALESCE" ∧ 1 ≤ args.length then
    some <$> firstNonNull eng levels call args
  else if name = "NVL2" then
    match args with
    | [a, b, c] => do
        if (← eval eng levels call a).isNull then some <$> eval eng levels call c
        else some <$> eval eng levels call b
    | _ => return none
  else if name = "DECODE" then
    match args with
    | subject :: pairs =>
        if pairs.length < 2 then return none
        else do
          let v ← eval eng levels call subject
          some <$> lazyPairs eng levels call v pairs
    | [] => return none
  else return none

/-- A built-in function is evaluated as its lazy arguments are. -/
theorem evalLazy_function {levels : Nat} {name : String} {args : List Expr} {distinct : Bool}
    {r : Option Value} (notRoutine : it.findRoutine name = none)
    (rest : Returns it.Calm (lazyFunction eng levels call name args) r) :
    Returns it.Calm (evalLazy eng levels call (.function name args distinct)) r := by
  rw [evalLazy.eq_def]
  refine returns_get (fun _ => rfl) ?_
  rw [notRoutine]
  exact rest

section Builtins

variable {name : String} {args args' : List Expr} {values : List Value} {v : Value} {s : EvalState}
  (settled : List.Forall₂ (it.Settled eng (m + 1) call) args args')
  (returned : List.Forall₂ (fun a v => Returns it.evalState.Alike (it.value eng m a) v) args' values)
  (quiet : eng.Quiet it.evalState) (coherent : it.evalState.Coherent)
include settled returned quiet coherent

/-- NVL returns what SQL's NVL returns. -/
theorem lazyFunction_nvl (computed : nvl values = .ok v) :
    Returns it.Calm (lazyFunction eng (m + 1) call "NVL" args) (some v) := by
  have found := firstNonNull_of_values settled returned quiet coherent
  have length := settled.length_eq.trans returned.length_eq
  obtain ⟨x, y, rfl⟩ : ∃ x y, values = [x, y] := by
    rcases values with _ | ⟨x, _ | ⟨y, _ | ⟨z, more⟩⟩⟩
    · cases computed
    · cases computed
    · exact ⟨x, y, rfl⟩
    · cases computed
  have first : (([x, y].find? fun v => !v.isNull).getD .null) = v := by
    cases computed
    cases left : x.isNull with
    | false => simp [left]
    | true =>
        cases right : y.isNull with
        | false => simp [left, right]
        | true => simp [left, Value.isNull_iff.mp right]
  unfold lazyFunction
  rw [if_pos (Or.inl ⟨rfl, length⟩)]
  rw [first] at found
  exact Returns.map_ some found

/-- COALESCE returns what SQL's COALESCE returns. -/
theorem lazyFunction_coalesce (computed : coalesce values = .ok v) :
    Returns it.Calm (lazyFunction eng (m + 1) call "COALESCE" args) (some v) := by
  have found := firstNonNull_of_values settled returned quiet coherent
  have length := settled.length_eq.trans returned.length_eq
  unfold coalesce at computed
  split at computed
  · cases computed
  · cases computed
    unfold lazyFunction
    rw [if_pos (Or.inr ⟨rfl, by omega⟩)]
    exact Returns.map_ some found

/-- NVL2 returns what SQL's NVL2 returns. -/
theorem lazyFunction_nvl2 (computed : nvl2 values = .ok v) :
    Returns it.Calm (lazyFunction eng (m + 1) call "NVL2" args) (some v) := by
  have here := EvalState.alike_self coherent
  rcases returned with _ | ⟨a, _ | ⟨b, _ | ⟨c, _ | ⟨d, more⟩⟩⟩⟩
  · cases computed
  · cases computed
  · cases computed
  · cases computed
    rcases settled with _ | ⟨first, _ | ⟨second, _ | ⟨third, _ | _⟩⟩⟩
    unfold lazyFunction
    rw [if_neg (by simp), if_pos rfl]
    refine Returns.bind_ (first.eval_of_le quiet (Nat.le_succ m) (a.gives here)) ?_
    split
    · exact Returns.map_ some (third.eval_of_le quiet (Nat.le_succ m) (c.gives here))
    · exact Returns.map_ some (second.eval_of_le quiet (Nat.le_succ m) (b.gives here))
  · cases computed

omit coherent in
/-- DECODE returns what SQL's DECODE returns. -/
theorem lazyFunction_decode (alike : it.evalState.Alike s)
    (computed : decode eng.lib s.env values = .ok v) :
    Returns it.Calm (lazyFunction eng (m + 1) call "DECODE" args) (some v) := by
  rcases returned with _ | ⟨value, rest⟩
  · cases computed
  · rcases settled with _ | ⟨first, others⟩
    have length := others.length_eq.trans rest.length_eq
    rw [decode] at computed
    split at computed
    · cases computed
    · next few =>
        unfold lazyFunction
        rw [if_neg (by simp), if_neg (by simp), if_pos rfl]
        dsimp only
        rw [if_neg (by omega)]
        refine Returns.bind_ (first.eval_of_le quiet (Nat.le_succ m) (value.gives alike)) ?_
        exact Returns.map_ some (lazyPairs_of_values quiet alike _ _ _ others rest computed)

end Builtins

/-- A function that is no routine. -/
theorem settled_function {name : String} {args args' : List Expr} {distinct : Bool}
    (settled : List.Forall₂ (it.Settled eng (m + 1) call) args args')
    (quiet : eng.Quiet it.evalState) (coherent : it.evalState.Coherent)
    (calls : it.hasCall (.function name args distinct) = true)
    (notRoutine : it.findRoutine name = none) :
    it.Settled eng (m + 1) call (.function name args distinct) (.function name args' distinct) := by
  have drawless : (Expr.function name args' distinct).Drawless :=
    .function (forall_of_forall₂ settled fun _ _ s => s.drawless)
  have lazy : ∀ {f : Env → List Value → Except OraError Value},
      (∀ env, builtin eng.lib env eng.scalar name = some (f env)) →
      (∀ {values v s}, List.Forall₂
          (fun a v => Returns it.evalState.Alike (it.value eng m a) v) args' values →
        it.evalState.Alike s → f s.env values = .ok v →
        Returns it.Calm (lazyFunction eng (m + 1) call name args) (some v)) →
      it.Settled eng (m + 1) call (.function name args distinct) (.function name args' distinct) := by
    intro f builtins computes
    refine .of_lazy quiet coherent calls rfl drawless fun gives => ?_
    obtain ⟨values, returned, called⟩ := values_of_function settled quiet gives
    obtain ⟨s, alike, computed⟩ := value_of_call builtins called
    exact evalLazy_function notRoutine (computes returned alike computed)
  by_cases nvl_ : name = "NVL"
  · subst nvl_
    exact lazy (f := fun _ => nvl) (fun _ => rfl) fun returned _ computed =>
      lazyFunction_nvl settled returned quiet coherent computed
  by_cases coalesce_ : name = "COALESCE"
  · subst coalesce_
    exact lazy (f := fun _ => coalesce) (fun _ => rfl) fun returned _ computed =>
      lazyFunction_coalesce settled returned quiet coherent computed
  by_cases nvl2_ : name = "NVL2"
  · subst nvl2_
    exact lazy (f := fun _ => nvl2) (fun _ => rfl) fun returned _ computed =>
      lazyFunction_nvl2 settled returned quiet coherent computed
  by_cases decode_ : name = "DECODE"
  · subst decode_
    exact lazy (f := decode eng.lib) (fun _ => rfl) fun returned alike computed =>
      lazyFunction_decode settled returned quiet alike computed
  refine settled_strict_function settled quiet coherent calls notRoutine
    (evalLazy_function notRoutine ?_)
  simp only [lazyFunction, nvl_, coalesce_, nvl2_, decode_, false_and, or_self, if_false]
  exact Returns.pure_ none

/-! ## Expressions -/

section Expressions

variable (quiet : eng.Quiet it.evalState) (coherent : it.evalState.Coherent)
include quiet coherent

/-- An operator whose operands are evaluated as SQL evaluates them. -/
theorem settled_of_matches {e e' : Expr} (calls : it.hasCall e = true) (notCall : it.isCall e = false)
    (matched : Expr.Matches (it.Settled eng (m + 1) call) e e') : it.Settled eng (m + 1) call e e' := by
  have drawless : e'.Drawless := matched.drawless fun _ _ settled => settled.drawless
  cases matched with
  | literal | bind | rowNum | countStar | currval | inSubquery | «exists» | subquery => cases calls
  | column table name =>
      cases table with
      | none => exact absurd (calls.symm.trans notCall) (by decide)
      | some qualifier => cases calls
  | neg a => exact settled_neg quiet coherent calls a
  | not a => exact settled_not quiet coherent calls a
  | @binary op _ _ _ _ left right =>
      cases op with
      | and => exact settled_and quiet coherent calls left right
      | or => exact settled_or quiet coherent calls left right
      | _ => exact settled_binary quiet coherent calls rfl left right
  | isNull a => exact settled_isNull quiet coherent calls a
  | between a low high => exact settled_between quiet coherent calls a low high
  | inList a list => exact settled_inList quiet coherent calls a list
  | like a pattern escape => exact settled_like quiet coherent calls a pattern escape
  | «case» operand whens thens otherwise =>
      exact settled_case quiet coherent calls drawless operand whens thens otherwise
  | function args =>
      exact settled_function args quiet coherent calls (Option.not_isSome_iff_eq_none.mp (by
        rw [isCall] at notCall
        simp [notCall]))

omit coherent in
/-- An expression without calls is left to SQL. -/
theorem settled_plain {e : Expr} (plain : it.hasCall e = false) (drawless : e.Drawless) :
    it.Settled eng (m + 1) call e e := by
  refine ⟨drawless, fun _ => ⟨e, resolveCalls_plain plain, .refl quiet drawless⟩, fun gives => ?_⟩
  have returns := returns_sqlEvalBool ((steady_truth quiet drawless).of_gives gives)
  rw [evalBool.eq_def]
  refine returns_get (fun _ => rfl) ?_
  rw [plain]
  exact Returns.bind_ (resolveCalls_plain plain) returns

/-- A call is settled by its result. -/
theorem settled_call {c : Expr} {v : Value} (calls : it.isCall c = true)
    (result : Returns it.Calm (resolveCalls eng (m + 1) call c) (.literal v)) :
    it.Settled eng (m + 1) call c (.literal v) := by
  have notLogic : isLogic c = false := by
    cases c with
    | column | function => rfl
    | _ => cases calls
  refine .of_resolves notLogic (.literal v) quiet coherent fun _ => ?_
  exact ⟨.literal v, result, .refl quiet (.literal v)⟩

/-- What each call answers is answered by the whole expression: the induction over it. -/
theorem settled_of_answered {e e' : Expr} (drawless : e.Drawless)
    (answered : it.Answered eng (m + 1) call e e') : it.Settled eng (m + 1) call e e' := by
  induction size : sizeOf e using Nat.strong_induction_on generalizing e e' with
  | _ n ih =>
      subst size
      cases answered with
      | plain plain => exact settled_plain quiet plain drawless
      | call calls result => exact settled_call quiet coherent calls result
      | operator calls notCall matched =>
          refine settled_of_matches quiet coherent calls notCall (matched.imp ?_)
          intro a child b _ answered
          exact ih _ (Expr.sizeOf_children child) (drawless.children a child) answered rfl

/-- The interpreter evaluates an expression without NEXTVAL to what SQL evaluates it to once each
call has been replaced by the literal of its result, as a value and as a condition. -/
theorem eval_refines {levels : Nat} {e e' : Expr} (drawless : e.Drawless)
    (answered : it.Answered eng levels call e e') :
    (∀ v st, (eng.levels levels).eval it.ex e' (.empty none) it.evalState = .ok v st →
      ∃ it', eval eng levels call e it = .ok v it') ∧
    (∀ b st, (eng.levels levels).evalBool it.ex e' (.empty none) it.evalState = .ok b st →
      ∃ it', evalBool eng levels call e it = .ok b it') := by
  have here := EvalState.alike_self coherent
  cases levels with
  | zero => exact ⟨fun v st ran => (nomatch ran), fun b st ran => (nomatch ran)⟩
  | succ m =>
      have settled := settled_of_answered quiet coherent drawless answered
      constructor
      · intro v st ran
        obtain ⟨it', evaluated, -⟩ :=
          settled.eval_of_le quiet (Nat.le_refl _) ⟨_, st, here, ran⟩ it (calm_self coherent)
        exact ⟨it', evaluated⟩
      · intro b st ran
        obtain ⟨it', evaluated, -⟩ := settled.evalBool ⟨_, st, here, ran⟩ it (calm_self coherent)
        exact ⟨it', evaluated⟩

end Expressions

/-! ### A call of a local function -/

namespace LocalFunction

/-- A block that declares a function without parameters. -/
def block : Interp where
  cat := .empty
  committed := .empty
  binds := []
  frames := [⟨[], [], [.mk "F" [] (some .integer) (.mk [] [] [])]⟩]
  rowcount := none
  handling := []
  evalState := ⟨∅, ∅, Literal.env "SCOTT"⟩

/-- The function returns 5. -/
def five : Caller := fun _ _ => return some (.ofInt 5)

/-- There are no stored functions to draw numbers. -/
theorem quiet : Engine.plain.Quiet block.evalState :=
  ⟨fun _ _ _ _ => rfl, fun _ _ _ _ => Follows.throw_ _ _⟩

/-- There is no row at hand at the start. -/
theorem coherent : block.evalState.Coherent := fun _ _ found => by simp [block, Literal.env] at found

/-- The call of F is answered by 5. -/
theorem five_answers (levels : Nat) :
    block.Answered Engine.plain levels five (.column none "F") (.literal (.ofInt 5)) := by
  refine .call (by decide) (resolveCalls_strict (by decide) (evalLazy_strict rfl) ?_)
  rw [resolveOperands]
  exact returns_get (fun _ => rfl) (Returns.bind_ (Returns.pure_ _) (Returns.pure_ _))

end LocalFunction

open LocalFunction in
/-- `NVL(F, 7)` is 5. -/
theorem eval_refines_nvl : ∃ it',
    eval Engine.plain 3 five (.function "NVL" [.column none "F", .literal (.ofInt 7)] false) block =
      .ok (.ofInt 5) it' := by
  have drawless : (Expr.function "NVL" [.column none "F", .literal (.ofInt 7)] false).Drawless :=
    .function (by simp [Expr.Drawless.column, Expr.Drawless.literal])
  have answered : block.Answered Engine.plain 3 five
      (.function "NVL" [.column none "F", .literal (.ofInt 7)] false)
      (.function "NVL" [.literal (.ofInt 5), .literal (.ofInt 7)] false) :=
    .operator (by decide) (by decide)
      (.function (.cons (five_answers 3) (.cons (.plain (by decide)) .nil)))
  exact (eval_refines quiet coherent drawless answered).1 _ block.evalState rfl

end Interp

end MockOracle
