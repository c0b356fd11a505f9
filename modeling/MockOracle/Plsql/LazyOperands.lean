import MockOracle.Plsql.LazyEval

/-!
# Operands with calls

What the interpreter does with the operands of an operator, given that each of them is evaluated as
SQL evaluates it once its calls have been answered. It evaluates the operands of CASE, AND, OR, NVL,
COALESCE and DECODE as they are needed, and resolves the calls in those of other operators.
-/

namespace MockOracle

open Std Semantics

/-- A loop is steady if what it does with each member is. -/
theorem steady_forEach {C : EvalState → Prop} {α β : Type} {f : α → EvalM β} {as : List α}
    (steady : ∀ a ∈ as, Steady C (f a)) : Steady C (forEach f as) := by
  refine follows_forEach (R := fun a b => a = b ∧ a ∈ as) ?_ ?_
  · rintro a _ ⟨rfl, member⟩
    exact steady a member
  · exact List.forall₂_same.mpr fun a member => ⟨rfl, member⟩

/-- The values of a list that has been evaluated from left to right. -/
theorem returns_of_forEach {C : EvalState → Prop} {α β : Type} {f : α → EvalM β} {as : List α}
    {bs : List β} (steady : ∀ a ∈ as, Steady C (f a)) (gives : Gives C (forEach f as) bs) :
    List.Forall₂ (fun a b => Returns C (f a) b) as bs := by
  induction as generalizing bs with
  | nil =>
      cases gives.of_pure
      exact .nil
  | cons a as ih =>
      have rest : ∀ a ∈ as, Steady C (f a) := fun a member => steady a (List.mem_cons_of_mem _ member)
      obtain ⟨b, first, gives⟩ := gives.of_bind (steady a List.mem_cons_self)
      obtain ⟨bs', returns, s, s', alike, ran⟩ := gives.of_bind (steady_forEach rest)
      cases ran
      exact .cons first (ih rest (returns.gives alike))

namespace Interp

variable {it : Interp} {eng : Engine} {m : Nat} {call : Caller}

/-! ## Conditions -/

section Logic

variable {C : EvalState → Prop} {left right : EvalM (Option Bool)}
  {left' right' : PlsqlM (Option Bool)} (steadyLeft : Steady C left) (steadyRight : Steady C right)
  (first : Realizes C it.Calm left left') (second : Realizes C it.Calm right right')
include steadyLeft steadyRight first second

/-- The short-circuiting AND of PL/SQL is realized by the one of SQL. -/
theorem realizes_both : Realizes C it.Calm (evalAnd left right) (PlsqlM.both left' right') := by
  refine Realizes.bind_ steadyLeft first fun x => ?_
  rcases x with _ | _ | _
  · refine Realizes.bind_ steadyRight second fun y => ?_
    rcases y with _ | _ | _ <;> exact Realizes.pure_ _
  · exact Realizes.pure_ _
  · refine Realizes.bind_ steadyRight second fun y => ?_
    rcases y with _ | _ | _ <;> exact Realizes.pure_ _

/-- The short-circuiting OR of PL/SQL is realized by the one of SQL. -/
theorem realizes_either : Realizes C it.Calm (evalOr left right) (PlsqlM.either left' right') := by
  refine Realizes.bind_ steadyLeft first fun x => ?_
  rcases x with _ | _ | _
  · refine Realizes.bind_ steadyRight second fun y => ?_
    rcases y with _ | _ | _ <;> exact Realizes.pure_ _
  · refine Realizes.bind_ steadyRight second fun y => ?_
    rcases y with _ | _ | _ <;> exact Realizes.pure_ _
  · exact Realizes.pure_ _

end Logic

/-- Equality of two values in PL/SQL is realized by the engine's comparison. -/
theorem realizes_equal (a b : Value) :
    Realizes it.evalState.Alike it.Calm (do return (← compareM eng a b) == some .eq)
      (equal eng a b) := by
  refine Realizes.bind_ (steady_compareM a b) (fun gives => ?_) fun _ => Realizes.pure_ _
  exact returns_run (fun _ => rfl) ((steady_compareM a b).of_gives gives)

/-! ## Lists of operands -/

section Lists

variable {args args' : List Expr} {values : List Value}
  (settled : List.Forall₂ (it.Settled eng (m + 1) call) args args')
  (returned : List.Forall₂ (fun a v => Returns it.evalState.Alike (it.value eng m a) v) args' values)
  (quiet : eng.Quiet it.evalState) (coherent : it.evalState.Coherent)
include settled returned quiet coherent

/-- Arguments that settle to values are resolved, each to an expression that replaces it. -/
theorem resolveAll_of_values : ∃ args'', Returns it.Calm (resolveAll eng (m + 1) call args) args'' ∧
    List.Forall₂ (it.Replaces eng) args' args'' := by
  induction settled generalizing values with
  | nil =>
      refine ⟨[], ?_, .nil⟩
      rw [resolveAll]
      exact Returns.pure_ _
  | cons first _ ih =>
      cases returned with
      | cons value values =>
          obtain ⟨e, resolved, replaces⟩ := first.resolves_of_le quiet (Nat.le_succ m) coherent value
          obtain ⟨es, resolvedRest, replacesRest⟩ := ih values
          refine ⟨e :: es, ?_, .cons replaces replacesRest⟩
          rw [resolveAll]
          exact Returns.bind_ resolved (Returns.bind_ resolvedRest (Returns.pure_ _))

/-- NVL and COALESCE do not evaluate what follows the value they find. -/
theorem firstNonNull_of_values : Returns it.Calm (firstNonNull eng (m + 1) call args)
    ((values.find? fun v => !v.isNull).getD .null) := by
  have here := EvalState.alike_self coherent
  induction settled generalizing values with
  | nil =>
      cases returned
      rw [firstNonNull]
      exact Returns.pure_ _
  | cons first _ ih =>
      cases returned with
      | @cons _ v _ values value rest =>
          rw [firstNonNull]
          refine Returns.bind_ (first.eval_of_le quiet (Nat.le_succ m) (value.gives here)) ?_
          rw [List.find?_cons]
          cases v.isNull with
          | true => exact ih rest
          | false => exact Returns.pure_ v

end Lists

/-! ## DECODE -/

/-- A comparison that the engine decides is decided the same by the interpreter. -/
theorem returns_compare {s : EvalState} (alike : it.evalState.Alike s) {a b : Value}
    {order : Option Ordering}
    (compared : compareValues eng.lib.dates s.env.nlsDateFormat a b = .ok order) :
    Returns it.Calm (equal eng a b) (order == some .eq) := by
  refine returns_equal ((steady_compareM a b).of_gives ⟨s, s, alike, ?_⟩)
  simp only [compareM, dateFormat, bind, EStateM.bind, get, getThe, MonadStateOf.get, EStateM.get,
    pure, EStateM.pure, compared, EvalM.lift]

/-- Comparing with NULL gives no order. -/
theorem compareValues_null {dates : DateFormats} {format : String} {a b : Value}
    (null : a.isNull = true ∨ b.isNull = true) : compareValues dates format a b = .ok none := by
  rcases null with null | null
  · rw [Value.isNull_iff.mp null, compareValues]
  · rw [Value.isNull_iff.mp null]
    cases a <;> rfl

/-- Whether DECODE finds its subject. -/
def decodeHit (lib : Library) (env : Env) (subject search : Value) : Except OraError Bool :=
  match subject.isNull, search.isNull with
  | true, true => pure true
  | false, false => (· == some .eq) <$> compareValues lib.dates env.nlsDateFormat subject search
  | _, _ => pure false

/-- Whether DECODE hits a search value is decided the same by the interpreter. -/
theorem returns_hit {s : EvalState} (alike : it.evalState.Alike s) {subject search : Value} {hit : Bool}
    (found : decodeHit eng.lib s.env subject search = .ok hit) :
    Returns it.Calm (if subject.isNull && search.isNull then pure true else equal eng subject search)
      hit := by
  unfold decodeHit at found
  cases left : subject.isNull <;> cases right : search.isNull <;> rw [left, right] at found
  · cases compared : compareValues eng.lib.dates s.env.nlsDateFormat subject search with
    | error e =>
        rw [compared] at found
        cases found
    | ok order =>
        rw [compared] at found
        cases found
        exact returns_compare alike compared
  · cases found
    exact returns_compare alike (compareValues_null (.inr right))
  · cases found
    exact returns_compare alike (compareValues_null (.inl left))
  · cases found
    exact Returns.pure_ true

/-- DECODE on a pair and the pairs after it. -/
theorem decodePairs_cons (lib : Library) (env : Env) (subject search result : Value)
    (rest : List Value) : decodePairs lib env subject (search :: result :: rest) = (do
      if ← decodeHit lib env subject search then return result
      else decodePairs lib env subject rest) := by
  rw [decodePairs, decodeHit]
  cases subject.isNull <;> cases search.isNull <;> rfl

/-- The interpreter's DECODE on a pair and the pairs after it. -/
theorem lazyPairs_cons (subject : Value) (search result : Expr) (rest : List Expr) :
    lazyPairs eng (m + 1) call subject (search :: result :: rest) = (do
      let s ← eval eng (m + 1) call search
      let hit ← (if subject.isNull && s.isNull then pure true else equal eng subject s)
      if hit then eval eng (m + 1) call result else lazyPairs eng (m + 1) call subject rest) := by
  rw [lazyPairs]
  refine congrArg _ (funext fun s => ?_)
  cases subject.isNull && s.isNull <;> rfl

/-- Where its arguments settle to values, the interpreter's DECODE picks what the function picks. -/
theorem lazyPairs_of_values (quiet : eng.Quiet it.evalState) {s : EvalState}
    (alike : it.evalState.Alike s) {subject v : Value} :
    (args args' : List Expr) → (values : List Value) →
      List.Forall₂ (it.Settled eng (m + 1) call) args args' →
      List.Forall₂ (fun a v => Returns it.evalState.Alike (it.value eng m a) v) args' values →
      decodePairs eng.lib s.env subject values = .ok v →
      Returns it.Calm (lazyPairs eng (m + 1) call subject args) v := by
  intro args
  induction args using List.twoStepInduction with
  | nil =>
      intro args' values settled returns decoded
      cases settled
      cases returns
      cases decoded
      rw [lazyPairs]
      exact Returns.pure_ _
  | singleton arg =>
      intro args' values settled returns decoded
      obtain _ | ⟨default, ⟨⟩⟩ := settled
      obtain _ | ⟨value, ⟨⟩⟩ := returns
      cases decoded
      rw [lazyPairs]
      exact default.eval_of_le quiet (Nat.le_succ m) (value.gives alike)
  | cons_cons first second args ih _ =>
      intro args' values settled returns decoded
      obtain _ | ⟨search, _ | ⟨result, rest⟩⟩ := settled
      obtain _ | ⟨value, _ | ⟨value', values⟩⟩ := returns
      rw [lazyPairs_cons]
      rw [decodePairs_cons] at decoded
      refine Returns.bind_ (search.eval_of_le quiet (Nat.le_succ m) (value.gives alike)) ?_
      cases hit : decodeHit eng.lib s.env subject _ with
      | error e =>
          rw [hit] at decoded
          cases decoded
      | ok taken =>
          rw [hit] at decoded
          refine Returns.bind_ (returns_hit alike hit) ?_
          cases taken with
          | true =>
              cases decoded
              exact result.eval_of_le quiet (Nat.le_succ m) (value'.gives alike)
          | false => exact ih _ _ rest values decoded

/-! ## CASE -/

section Case

/-- The interpreter's CASE on a branch and the branches after it. -/
theorem lazyWhens_cons (subject : Option Value) (else_ : Option Expr) (w t : Expr)
    (rest : List (Expr × Expr)) :
    lazyWhens eng (m + 1) call subject else_ ((w, t) :: rest) = (do
      let hit ← (match subject with
        | some s => do equal eng s (← eval eng (m + 1) call w)
        | none => (· == some true) <$> evalBool eng (m + 1) call w)
      if hit then eval eng (m + 1) call t else lazyWhens eng (m + 1) call subject else_ rest) := by
  cases subject with
  | some s => rw [lazyWhens, bind_assoc]
  | none => rw [lazyWhens]

variable (quiet : eng.Quiet it.evalState)
include quiet

/-- Whether a WHEN hits is decided the same by the engine, once the condition is settled. -/
theorem realizes_hit {w w' : Expr} (settled : it.Settled eng (m + 1) call w w')
    (subject : Option Value) :
    Realizes it.evalState.Alike it.Calm
      (whenHits eng (eng.levels m) it.ex subject (.empty none) w')
      (match subject with
        | some s => do equal eng s (← eval eng (m + 1) call w)
        | none => (· == some true) <$> evalBool eng (m + 1) call w) := by
  cases subject with
  | some s =>
      exact Realizes.bind_ (steady_value quiet settled.drawless)
        (settled.eval_of_le quiet (Nat.le_succ m)) fun v => realizes_equal s v
  | none =>
      dsimp only
      rw [← bind_pure_comp]
      exact Realizes.bind_ (steady_truth quiet settled.drawless)
        (settled.evalBool_of_le quiet (Nat.le_succ m)) fun b => Realizes.pure_ _

/-- Deciding whether a WHEN without draws hits is steady. -/
theorem steady_hit {w : Expr} (drawless : w.Drawless) (subject : Option Value) :
    Steady it.evalState.Alike (whenHits eng (eng.levels m) it.ex subject (.empty none) w) := by
  cases subject with
  | some s =>
      refine Follows.bind_ (steady_value quiet drawless) fun v => ?_
      exact Follows.bind_ (steady_compareM s v) fun _ => Follows.pure_ _
  | none => exact Follows.bind_ (steady_truth quiet drawless) fun _ => Follows.pure_ _

/-- The interpreter's CASE is realized by the engine's on the settled branches. -/
theorem realizes_whens {subject : Option Value} {else_ else_' : Option Expr}
    (otherwise : Option.Rel (it.Settled eng (m + 1) call) else_ else_')
    {whens whens' : List (Expr × Expr)}
    (conditions : List.Forall₂ (fun w w' => it.Settled eng (m + 1) call w.1 w'.1) whens whens')
    (results : List.Forall₂ (fun w w' => it.Settled eng (m + 1) call w.2 w'.2) whens whens') :
    Realizes it.evalState.Alike it.Calm
      (evalWhens eng (eng.levels m) it.ex subject (.empty none) else_' whens')
      (lazyWhens eng (m + 1) call subject else_ whens) := by
  induction conditions with
  | nil =>
      cases otherwise with
      | none => 
          rw [lazyWhens]
          exact Realizes.pure_ _
      | some settled =>
          rw [lazyWhens]
          exact settled.eval_of_le quiet (Nat.le_succ m)
  | cons condition _ ih =>
      obtain ⟨result, results⟩ := List.forall₂_cons.mp results
      rw [lazyWhens_cons]
      refine Realizes.bind_ (steady_hit quiet condition.drawless subject)
        (realizes_hit quiet condition subject) fun hit => ?_
      cases hit with
      | true => exact result.eval_of_le quiet (Nat.le_succ m)
      | false => exact ih results

end Case

end Interp

end MockOracle
