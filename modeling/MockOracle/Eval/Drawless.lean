import MockOracle.Eval.RowSequences
import MockOracle.Semantics.Steady

/-!
# Expressions without NEXTVAL

What draws no number changes nothing but the numbers of the row at hand, which computing other
rows forgets, and these are also the session's current ones. So an expression without NEXTVAL is
steady: it has the same value whether or not other expressions have been evaluated before it.
It also has the same value with more levels at hand, and when its operands are replaced by
others of the same values.
-/

namespace MockOracle

open Std Semantics

/-! ## Syntax -/

mutual

/-- No NEXTVAL occurs in the expression, nor in its subqueries. -/
inductive Expr.Drawless : Expr → Prop
  | literal (v : Value) : Expr.Drawless (.literal v)
  | bind (i : Nat) : Expr.Drawless (.bind i)
  | column (table : Option String) (name : String) : Expr.Drawless (.column table name)
  | rowNum : Expr.Drawless .rowNum
  | countStar : Expr.Drawless .countStar
  | currval (name : String) : Expr.Drawless (.sequence name false)
  | neg {a : Expr} : a.Drawless → Expr.Drawless (.neg a)
  | not {a : Expr} : a.Drawless → Expr.Drawless (.not a)
  | binary {op : BinaryOp} {a b : Expr} : a.Drawless → b.Drawless → Expr.Drawless (.binary op a b)
  | isNull {a : Expr} {negated : Bool} : a.Drawless → Expr.Drawless (.isNull a negated)
  | between {a low high : Expr} {negated : Bool} : a.Drawless → low.Drawless → high.Drawless →
      Expr.Drawless (.between a low high negated)
  | inList {a : Expr} {list : List Expr} {negated : Bool} : a.Drawless →
      (∀ e ∈ list, e.Drawless) → Expr.Drawless (.inList a list negated)
  | inSubquery {a : Expr} {q : Query} {negated : Bool} : a.Drawless → q.Drawless →
      Expr.Drawless (.inSubquery a q negated)
  | exists {q : Query} : q.Drawless → Expr.Drawless (.exists q)
  | like {a pattern : Expr} {escape : Option Expr} {negated : Bool} : a.Drawless →
      pattern.Drawless → (∀ e ∈ escape, e.Drawless) → Expr.Drawless (.like a pattern escape negated)
  | case {operand : Option Expr} {whens : List (Expr × Expr)} {else_ : Option Expr} :
      (∀ e ∈ operand, e.Drawless) → (∀ w ∈ whens, w.1.Drawless) → (∀ w ∈ whens, w.2.Drawless) →
      (∀ e ∈ else_, e.Drawless) → Expr.Drawless (.case operand whens else_)
  | function {name : String} {args : List Expr} {distinct : Bool} : (∀ e ∈ args, e.Drawless) →
      Expr.Drawless (.function name args distinct)
  | subquery {q : Query} : q.Drawless → Expr.Drawless (.subquery q)

/-- No NEXTVAL occurs in the query. -/
inductive Query.Drawless : Query → Prop
  | mk {body : SetExpr} {orderBy : List OrderItem} {offset fetch : Option Expr} :
      body.Drawless → (∀ o ∈ orderBy, o.Drawless) → (∀ e ∈ offset, e.Drawless) →
      (∀ e ∈ fetch, e.Drawless) → Query.Drawless (.mk body orderBy offset fetch)

/-- No NEXTVAL occurs in the body of a query. -/
inductive SetExpr.Drawless : SetExpr → Prop
  | select {s : Select} : s.Drawless → SetExpr.Drawless (.select s)
  | setOp {op : SetOp} {left right : SetExpr} : left.Drawless → right.Drawless →
      SetExpr.Drawless (.setOp op left right)

/-- No NEXTVAL occurs in the SELECT block. -/
inductive Select.Drawless : Select → Prop
  | mk {distinct : Bool} {items : List SelectItem} {fromItems : List FromItem}
      {where_ : Option Expr} {groupBy : List Expr} {having : Option Expr} :
      (∀ i ∈ items, i.Drawless) → (∀ f ∈ fromItems, f.Drawless) → (∀ e ∈ where_, e.Drawless) →
      (∀ e ∈ groupBy, e.Drawless) → (∀ e ∈ having, e.Drawless) →
      Select.Drawless (.mk distinct items fromItems where_ groupBy having)

/-- No NEXTVAL occurs in the entry of a SELECT list. -/
inductive SelectItem.Drawless : SelectItem → Prop
  | expr {e : Expr} {name : String} : e.Drawless → SelectItem.Drawless (.expr e name)
  | star : SelectItem.Drawless .star
  | qualifiedStar (qualifier : String) : SelectItem.Drawless (.qualifiedStar qualifier)

/-- No NEXTVAL occurs in the tables of a FROM clause. -/
inductive FromItem.Drawless : FromItem → Prop
  | mk {factor : TableFactor} {joins : List Join} : factor.Drawless → (∀ j ∈ joins, j.Drawless) →
      FromItem.Drawless (.mk factor joins)

/-- No NEXTVAL occurs in the table. -/
inductive TableFactor.Drawless : TableFactor → Prop
  | table (name : String) (alias_ : Option String) : TableFactor.Drawless (.table name alias_)
  | subquery {q : Query} {alias_ : Option String} : q.Drawless → TableFactor.Drawless (.subquery q alias_)

/-- No NEXTVAL occurs in the join. -/
inductive Join.Drawless : Join → Prop
  | mk {kind : JoinKind} {factor : TableFactor} {on : Option Expr} : factor.Drawless →
      (∀ e ∈ on, e.Drawless) → Join.Drawless (.mk kind factor on)

/-- No NEXTVAL occurs in the ORDER BY key. -/
inductive OrderItem.Drawless : OrderItem → Prop
  | mk {e : Expr} {desc : Bool} {nullsFirst : Option Bool} : e.Drawless →
      OrderItem.Drawless (.mk e desc nullsFirst)

end

/-- The same operator over operands that are related. -/
inductive Expr.Matches (R : Expr → Expr → Prop) : Expr → Expr → Prop
  | literal (v : Value) : Matches R (.literal v) (.literal v)
  | bind (i : Nat) : Matches R (.bind i) (.bind i)
  | column (table : Option String) (name : String) : Matches R (.column table name) (.column table name)
  | rowNum : Matches R .rowNum .rowNum
  | countStar : Matches R .countStar .countStar
  | currval (name : String) : Matches R (.sequence name false) (.sequence name false)
  | neg {a a' : Expr} : R a a' → Matches R (.neg a) (.neg a')
  | not {a a' : Expr} : R a a' → Matches R (.not a) (.not a')
  | binary {op : BinaryOp} {a b a' b' : Expr} : R a a' → R b b' →
      Matches R (.binary op a b) (.binary op a' b')
  | isNull {a a' : Expr} {negated : Bool} : R a a' → Matches R (.isNull a negated) (.isNull a' negated)
  | between {a low high a' low' high' : Expr} {negated : Bool} : R a a' → R low low' →
      R high high' → Matches R (.between a low high negated) (.between a' low' high' negated)
  | inList {a a' : Expr} {list list' : List Expr} {negated : Bool} : R a a' →
      List.Forall₂ R list list' → Matches R (.inList a list negated) (.inList a' list' negated)
  | inSubquery {a a' : Expr} {q : Query} {negated : Bool} : R a a' → q.Drawless →
      Matches R (.inSubquery a q negated) (.inSubquery a' q negated)
  | exists {q : Query} : q.Drawless → Matches R (.exists q) (.exists q)
  | like {a pattern a' pattern' : Expr} {escape escape' : Option Expr} {negated : Bool} : R a a' →
      R pattern pattern' → Option.Rel R escape escape' →
      Matches R (.like a pattern escape negated) (.like a' pattern' escape' negated)
  | case {operand operand' : Option Expr} {whens whens' : List (Expr × Expr)}
      {else_ else_' : Option Expr} : Option.Rel R operand operand' →
      List.Forall₂ (fun w w' => R w.1 w'.1) whens whens' →
      List.Forall₂ (fun w w' => R w.2 w'.2) whens whens' → Option.Rel R else_ else_' →
      Matches R (.case operand whens else_) (.case operand' whens' else_')
  | function {name : String} {args args' : List Expr} {distinct : Bool} :
      List.Forall₂ R args args' → Matches R (.function name args distinct) (.function name args' distinct)
  | subquery {q : Query} : q.Drawless → Matches R (.subquery q) (.subquery q)

/-- A relation between the members of two lists may use that they are members. -/
theorem forall₂_imp_mem {α β : Type} {R S : α → β → Prop} {as : List α} {bs : List β}
    (related : List.Forall₂ R as bs) (stronger : ∀ a ∈ as, ∀ b ∈ bs, R a b → S a b) :
    List.Forall₂ S as bs := by
  induction related with
  | nil => exact .nil
  | @cons a b as bs first _ ih =>
      refine .cons (stronger a List.mem_cons_self b List.mem_cons_self first) (ih ?_)
      exact fun a inLeft b inRight =>
        stronger a (List.mem_cons_of_mem _ inLeft) b (List.mem_cons_of_mem _ inRight)

/-- Operands may be related otherwise. -/
theorem Expr.Matches.imp {R S : Expr → Expr → Prop} {e e' : Expr} (matched : Expr.Matches R e e')
    (stronger : ∀ a ∈ e.children, ∀ b ∈ e'.children, R a b → S a b) : Expr.Matches S e e' := by
  have optional : ∀ {o o' : Option Expr}, Option.Rel R o o' →
      (∀ a ∈ o, a ∈ e.children) → (∀ b ∈ o', b ∈ e'.children) → Option.Rel S o o' := by
    intro o o' related left right
    cases related with
    | none => exact .none
    | some related => exact .some (stronger _ (left _ rfl) _ (right _ rfl) related)
  cases matched with
  | literal v => exact .literal v
  | bind i => exact .bind i
  | column table name => exact .column table name
  | rowNum => exact .rowNum
  | countStar => exact .countStar
  | currval name => exact .currval name
  | neg a => exact .neg (stronger _ (by simp [children]) _ (by simp [children]) a)
  | not a => exact .not (stronger _ (by simp [children]) _ (by simp [children]) a)
  | binary a b =>
      exact .binary (stronger _ (by simp [children]) _ (by simp [children]) a)
        (stronger _ (by simp [children]) _ (by simp [children]) b)
  | isNull a => exact .isNull (stronger _ (by simp [children]) _ (by simp [children]) a)
  | between a low high =>
      exact .between (stronger _ (by simp [children]) _ (by simp [children]) a)
        (stronger _ (by simp [children]) _ (by simp [children]) low)
        (stronger _ (by simp [children]) _ (by simp [children]) high)
  | inList a list =>
      refine .inList (stronger _ (by simp [children]) _ (by simp [children]) a)
        (forall₂_imp_mem list fun x left y right => ?_)
      exact stronger x (by simp [children, left]) y (by simp [children, right])
  | inSubquery a q => exact .inSubquery (stronger _ (by simp [children]) _ (by simp [children]) a) q
  | «exists» q => exact .exists q
  | like a pattern escape =>
      refine .like (stronger _ (by simp [children]) _ (by simp [children]) a)
        (stronger _ (by simp [children]) _ (by simp [children]) pattern) (optional escape ?_ ?_)
      · exact fun x member => by simp [children, Option.mem_def.mp member]
      · exact fun x member => by simp [children, Option.mem_def.mp member]
  | «case» operand whens thens otherwise =>
      have branch : ∀ {w : Expr × Expr} {whens : List (Expr × Expr)} {operand else_ : Option Expr},
          w ∈ whens → w.1 ∈ (Expr.case operand whens else_).children ∧
            w.2 ∈ (Expr.case operand whens else_).children := by
        intro w whens operand else_ member
        simp only [children, List.mem_append, List.mem_flatMap, List.mem_cons]
        exact ⟨Or.inl (Or.inr ⟨w, member, Or.inl rfl⟩),
          Or.inl (Or.inr ⟨w, member, Or.inr (Or.inl rfl)⟩)⟩
      refine .case (optional operand ?_ ?_) (forall₂_imp_mem whens fun w left w' right => ?_)
        (forall₂_imp_mem thens fun w left w' right => ?_) (optional otherwise ?_ ?_)
      · exact fun x member => by simp [children, Option.mem_def.mp member]
      · exact fun x member => by simp [children, Option.mem_def.mp member]
      · exact stronger _ (branch left).1 _ (branch right).1
      · exact stronger _ (branch left).2 _ (branch right).2
      · exact fun x member => by simp [children, Option.mem_def.mp member]
      · exact fun x member => by simp [children, Option.mem_def.mp member]
  | function args =>
      refine .function (forall₂_imp_mem args fun x left y right => ?_)
      exact stronger x (by simp [children, left]) y (by simp [children, right])
  | subquery q => exact .subquery q

/-- What holds of everything that something is related to holds of a related list. -/
theorem forall_of_forall₂ {α β : Type} {R : α → β → Prop} {P : β → Prop} {as : List α} {bs : List β}
    (related : List.Forall₂ R as bs) (holds : ∀ a b, R a b → P b) : ∀ b ∈ bs, P b := by
  induction related with
  | nil => exact fun b member => absurd member List.not_mem_nil
  | cons first _ ih => exact List.forall_mem_cons.mpr ⟨holds _ _ first, ih⟩

/-- An operator draws no number if its operands draw none. -/
theorem Expr.Matches.drawless {R : Expr → Expr → Prop} {e e' : Expr} (matched : Expr.Matches R e e')
    (operands : ∀ a b, R a b → b.Drawless) : e'.Drawless := by
  have optional : ∀ {o o' : Option Expr}, Option.Rel R o o' → ∀ b ∈ o', b.Drawless := by
    rintro _ _ (related | _) b member
    · cases member
      exact operands _ _ related
    · cases member
  cases matched with
  | literal v => exact .literal v
  | bind i => exact .bind i
  | column table name => exact .column table name
  | rowNum => exact .rowNum
  | countStar => exact .countStar
  | currval name => exact .currval name
  | neg a => exact .neg (operands _ _ a)
  | not a => exact .not (operands _ _ a)
  | binary a b => exact .binary (operands _ _ a) (operands _ _ b)
  | isNull a => exact .isNull (operands _ _ a)
  | between a low high => exact .between (operands _ _ a) (operands _ _ low) (operands _ _ high)
  | inList a list => exact .inList (operands _ _ a) (forall_of_forall₂ list operands)
  | inSubquery a q => exact .inSubquery (operands _ _ a) q
  | «exists» q => exact .exists q
  | like a pattern escape => exact .like (operands _ _ a) (operands _ _ pattern) (optional escape)
  | «case» operand whens thens otherwise =>
      exact .case (optional operand) (forall_of_forall₂ whens fun _ _ => operands _ _)
        (forall_of_forall₂ thens fun _ _ => operands _ _) (optional otherwise)
  | function args => exact .function (forall_of_forall₂ args operands)
  | subquery q => exact .subquery q

/-! ## States -/

namespace EvalState

/-- The numbers of the row at hand are the session's current ones. -/
def Coherent (st : EvalState) : Prop :=
  ∀ (name : String) (n : Int), st.env.rowSequences[name]? = some n → st.env.currval[name]? = some n

/-- The states that differ from one in the numbers of the row at hand at most. -/
def Alike (st t : EvalState) : Prop := t.endRow = st.endRow ∧ t.Coherent

variable {st s t : EvalState}

/-- A coherent state is alike to itself. -/
theorem alike_self (coherent : st.Coherent) : st.Alike st := ⟨rfl, coherent⟩

/-- After a row there are no numbers left that could be out of date. -/
theorem coherent_endRow (st : EvalState) : st.endRow.Coherent := by
  intro name n found
  simp [endRow] at found

/-- What does not look at the numbers of the row is the same in all of them. -/
theorem read_of_alike {α : Type} (g : Env → α)
    (ignores : ∀ env rows, g { env with rowSequences := rows } = g env) (left : st.Alike s)
    (right : st.Alike t) : g s.env = g t.env := by
  have same : s.endRow.env = t.endRow.env := by rw [left.1, right.1]
  calc g s.env = g s.endRow.env := (ignores s.env ∅).symm
    _ = g t.endRow.env := by rw [same]
    _ = g t.env := ignores t.env ∅

/-- Alike states have the same current numbers. -/
theorem currval_of_alike (left : st.Alike s) (right : st.Alike t) : s.env.currval = t.env.currval :=
  read_of_alike Env.currval (fun _ _ => rfl) left right

end EvalState

/-! ## What evaluation reads -/

section Reads

variable {st : EvalState} {eng : Engine}

/-- Passing on a result reads no state. -/
theorem steady_lift {C : EvalState → Prop} {α : Type} (result : Except OraError α) :
    Steady C (EvalM.lift result) := by
  intro s a s' holds ran
  obtain ⟨rfl, rfl⟩ := lift_ok ran
  exact ⟨holds, fun t held => ⟨t, rfl, held⟩⟩

/-- A computation that reads the settings of the session. -/
theorem follows_env {α : Type} (f f' : Env → EvalM α)
    (ignores : ∀ env rows, f' { env with rowSequences := rows } = f' env)
    (rest : ∀ env, Follows st.Alike (f env) (f' env)) :
    Follows st.Alike (do f (← get).env) (do f' (← get).env) :=
  Follows.get_ (fun _ _ left right => EvalState.read_of_alike f' ignores left right)
    fun s _ => rest s.env

/-- The date format is the same in alike states. -/
theorem steady_dateFormat : Steady st.Alike dateFormat :=
  follows_env (fun env => pure env.nlsDateFormat) _ (fun _ _ => rfl) fun _ => Follows.pure_ _

/-- The text of a value does not depend on the numbers of the row. -/
theorem toText_rows (dates : DateFormats) (env : Env) (rows : ExtTreeMap String Int) (v : Value) :
    toText dates { env with rowSequences := rows } v = toText dates env v := by
  cases v <;> rfl

/-- The text of a value is the same in alike states. -/
theorem steady_textOf (v : Value) : Steady st.Alike (textOf eng v) :=
  follows_env (fun env => pure (toText eng.lib.dates env v)) _
    (fun env rows => by rw [toText_rows]) fun _ => Follows.pure_ _

/-- Comparing two values is the same in alike states. -/
theorem steady_compareM (a b : Value) : Steady st.Alike (compareM eng a b) :=
  Follows.bind_ steady_dateFormat fun _ => steady_lift _

/-- DECODE compares alike whatever the numbers of the row are. -/
theorem decodePairs_rows (lib : Library) (env : Env) (rows : ExtTreeMap String Int)
    (subject : Value) : (pairs : List Value) →
      decodePairs lib { env with rowSequences := rows } subject pairs =
        decodePairs lib env subject pairs
  | search :: result :: rest => by
      simp only [decodePairs, decodePairs_rows lib env rows subject rest]
  | [_] => rfl
  | [] => rfl

/-- GREATEST and LEAST choose alike whatever the numbers of the row are. -/
theorem bestOf_rows (lib : Library) (env : Env) (rows : ExtTreeMap String Int) (wanted : Ordering)
    (best : Value) (values : List Value) :
    bestOf lib { env with rowSequences := rows } wanted best values =
      bestOf lib env wanted best values := by
  induction values generalizing best with
  | nil => rfl
  | cons v rest ih => simp only [bestOf, ih]

/-- A built-in function does not look at the numbers of the row. -/
theorem builtin_rows {scalar : Scalar}
    (ignores : ∀ env rows name args,
      scalar { env with rowSequences := rows } name args = scalar env name args)
    (lib : Library) (env : Env) (rows : ExtTreeMap String Int) (name : String) :
    builtin lib { env with rowSequences := rows } scalar name = builtin lib env scalar name := by
  have decodes : decode lib { env with rowSequences := rows } = decode lib env := by
    funext args
    cases args with
    | nil => rfl
    | cons subject pairs => rw [decode, decode, decodePairs_rows]
  have extremes : ∀ wanted,
      extreme lib { env with rowSequences := rows } wanted = extreme lib env wanted := by
    intro wanted
    funext args
    cases args with
    | nil => rfl
    | cons first rest => simp only [extreme, bestOf_rows]
  have others : scalar { env with rowSequences := rows } name = scalar env name :=
    funext (ignores env rows name)
  unfold builtin
  rw [decodes, extremes, extremes, others]
  rfl

/-- Converting a row does not depend on the numbers of the row at hand. -/
theorem coerceRow_rows (dates : DateFormats) (env : Env) (rows : ExtTreeMap String Int)
    (cols : List RelCol) (row : Row) :
    coerceRow dates { env with rowSequences := rows } cols row = coerceRow dates env cols row := by
  induction cols generalizing row with
  | nil => rfl
  | cons c cols ih =>
      cases row with
      | nil => rfl
      | cons v row =>
          simp only [coerceRow, ih]
          rfl

/-- An aggregate does not depend on the numbers of the row at hand. -/
theorem aggregateValues_rows (env : Env) (rows : ExtTreeMap String Int) (name : String)
    (values : List Value) :
    aggregateValues eng { env with rowSequences := rows } name values =
      aggregateValues eng env name values := by
  simp only [aggregateValues, bestOf_rows]

end Reads

/-! ## Following one level down -/

/-- What one evaluator gives for expressions and queries without NEXTVAL, the other gives. -/
structure Recur.Follows (C : EvalState → Prop) (first second : Recur) : Prop where
  eval : ∀ {e : Expr}, e.Drawless → ∀ ex scope,
    Semantics.Follows C (first.eval ex e scope) (second.eval ex e scope)
  evalBool : ∀ {e : Expr}, e.Drawless → ∀ ex scope,
    Semantics.Follows C (first.evalBool ex e scope) (second.evalBool ex e scope)
  query : ∀ {q : Query}, q.Drawless → ∀ ex scope,
    Semantics.Follows C (first.query ex q scope) (second.query ex q scope)

/-- Stored functions called from SQL draw no numbers, and the other built-in functions do not
look at those of the row. -/
structure Engine.Quiet (eng : Engine) (st : EvalState) : Prop where
  scalar : ∀ env rows name args,
    eng.scalar { env with rowSequences := rows } name args = eng.scalar env name args
  callFunction : ∀ {self other : Recur}, Recur.Follows st.Alike self other → ∀ ex routine args,
    Follows st.Alike (eng.callFunction self ex routine args) (eng.callFunction other ex routine args)

section Step

variable {st : EvalState} {eng : Engine} {self other : Recur} {ex : Ex} {scope : Scope}

/-- Evaluations that follow each other item by item follow each other over the list. -/
theorem follows_forEach {C : EvalState → Prop} {α β γ : Type} {R : α → β → Prop} {f : α → EvalM γ}
    {g : β → EvalM γ} (each : ∀ a b, R a b → Follows C (f a) (g b)) {as : List α} {bs : List β}
    (related : List.Forall₂ R as bs) : Follows C (forEach f as) (forEach g bs) := by
  induction related with
  | nil => exact Follows.pure_ _
  | cons first _ ih =>
      exact Follows.bind_ (each _ _ first) fun _ => Follows.bind_ ih fun _ => Follows.pure_ _

/-- The call of a function follows, when stored functions draw nothing. -/
theorem follows_call (quiet : eng.Quiet st) (below : Recur.Follows st.Alike self other)
    (name : String) (args : List Value) :
    Follows st.Alike (call eng self ex name args) (call eng other ex name args) := by
  refine Follows.get_ (fun s t left right => ?_) fun s _ => ?_
  · have same : builtin eng.lib s.env eng.scalar name = builtin eng.lib t.env eng.scalar name :=
      EvalState.read_of_alike (fun env => builtin eng.lib env eng.scalar name)
        (fun env rows => builtin_rows quiet.scalar eng.lib env rows name) left right
    simp only [same]
  · cases builtin eng.lib s.env eng.scalar name with
    | some f => exact steady_lift _
    | none =>
        cases ex.committed.routines[shortName name]? with
        | some routine => exact quiet.callFunction below ex routine args
        | none => exact Follows.throw_ _ _

/-- The lookup of a name follows: a column, a variable or a function without arguments. -/
theorem follows_resolve (quiet : eng.Quiet st) (below : Recur.Follows st.Alike self other)
    (table : Option String) (name : String) :
    Follows st.Alike (resolve eng self ex scope table name)
      (resolve eng other ex scope table name) := by
  refine Follows.bind_ (steady_lift _) fun found => ?_
  cases found with
  | some v => exact Follows.pure_ _
  | none =>
      cases ex.vars.bind fun lookup => lookup table name with
      | some v => exact Follows.pure_ _
      | none =>
          dsimp only
          split
          · exact follows_call quiet below name []
          · exact Follows.throw_ _ _

/-- CURRVAL is the session's current number, whether or not the row has one. -/
theorem sequenceValue_currval {s : EvalState} (coherent : s.Coherent) (name : String) :
    sequenceValue ex name false s =
      if (ex.committed.sequences[shortName name]?).isNone then .error noSequence s
      else
        match s.env.currval[shortName name]? with
        | some n => .ok (.ofInt n) s
        | none => .error ⟨8002, "sequence " ++ shortName name ++
            ".CURRVAL is not yet defined in this session"⟩ s := by
  unfold sequenceValue
  by_cases missing : (ex.committed.sequences[shortName name]?).isNone = true
  · simp [missing, bind, EStateM.bind, throw, throwThe, MonadExceptOf.throw, EStateM.throw]
  · simp only [missing, Bool.false_eq_true, if_false, bind, EStateM.bind, get, getThe,
      MonadStateOf.get, EStateM.get, pure]
    cases row : s.env.rowSequences[shortName name]? with
    | some n =>
        rw [coherent _ n row]
        rfl
    | none =>
        cases s.env.currval[shortName name]? with
        | some n => rfl
        | none => rfl

/-- CURRVAL is the same in alike states. -/
theorem steady_currval (name : String) : Steady st.Alike (sequenceValue ex name false) := by
  intro s a s' alike ran
  rw [sequenceValue_currval alike.2] at ran
  split at ran
  · cases ran
  · next present =>
      cases current : s.env.currval[shortName name]? with
      | none =>
          rw [current] at ran
          cases ran
      | some n =>
          rw [current] at ran
          cases ran
          refine ⟨alike, fun t right => ⟨t, ?_, right⟩⟩
          rw [sequenceValue_currval right.2, if_neg present,
            EvalState.currval_of_alike right alike, current]

/-! ### Conditions -/

/-- AND follows when its operands do. -/
theorem follows_evalAnd {C : EvalState → Prop} {left right left' right' : EvalM (Option Bool)}
    (first : Follows C left left') (second : Follows C right right') :
    Follows C (evalAnd left right) (evalAnd left' right') := by
  refine Follows.bind_ first fun x => ?_
  rcases x with _ | _ | _
  · exact Follows.bind_ second fun y => by rcases y with _ | _ | _ <;> exact Follows.pure_ _
  · exact Follows.pure_ _
  · exact Follows.bind_ second fun y => by rcases y with _ | _ | _ <;> exact Follows.pure_ _

/-- OR follows when its operands do. -/
theorem follows_evalOr {C : EvalState → Prop} {left right left' right' : EvalM (Option Bool)}
    (first : Follows C left left') (second : Follows C right right') :
    Follows C (evalOr left right) (evalOr left' right') := by
  refine Follows.bind_ first fun x => ?_
  rcases x with _ | _ | _
  · exact Follows.bind_ second fun y => by rcases y with _ | _ | _ <;> exact Follows.pure_ _
  · exact Follows.bind_ second fun y => by rcases y with _ | _ | _ <;> exact Follows.pure_ _
  · exact Follows.pure_ _

/-- Related operands have the same values one level down. The operand of an aggregate is evaluated
for the rows of the group. -/
structure Operands (C : EvalState → Prop) (ex : Ex) (first second : Recur)
    (R : Scope → Expr → Expr → Prop) : Prop where
  eval : ∀ {scope a b}, R scope a b → Follows C (first.eval ex a scope) (second.eval ex b scope)
  evalBool : ∀ {scope a b}, R scope a b →
    Follows C (first.evalBool ex a scope) (second.evalBool ex b scope)
  inner : ∀ {scope a b}, R scope a b → scope.group.isSome = true → ∀ row, R (scope.inner row) a b

namespace Operands

variable {R : Scope → Expr → Expr → Prop}

/-- An expression as a condition follows. -/
theorem asBool (operands : Operands st.Alike ex self other R) {e e' : Expr} (related : R scope e e') :
    Follows st.Alike (evalBoolStep.asBool self ex scope e)
      (evalBoolStep.asBool other ex scope e') := by
  refine Follows.bind_ (operands.eval related) fun value => ?_
  cases value with
  | boolean b => exact Follows.pure_ _
  | null => exact Follows.pure_ _
  | number | varchar2 | date | timestamp => exact Follows.throw_ _ _

/-- The escape character of LIKE follows. -/
theorem escape (operands : Operands st.Alike ex self other R) {esc esc' : Option Expr}
    (related : Option.Rel (R scope) esc esc') :
    Follows st.Alike (evalEscape eng self ex esc scope) (evalEscape eng other ex esc' scope) := by
  cases related with
  | none => exact Follows.pure_ _
  | some related =>
      refine Follows.bind_ (operands.eval related) fun value => ?_
      refine Follows.bind_ (steady_textOf value) fun text => ?_
      rcases text.map String.toList with _ | _ | ⟨c, _ | ⟨d, more⟩⟩
      · exact Follows.throw_ _ _
      · exact Follows.throw_ _ _
      · exact Follows.pure_ _
      · exact Follows.throw_ _ _

/-- The values of a subquery with one column follow. -/
theorem singleColumn (below : Recur.Follows st.Alike self other) {q : Query} (drawless : q.Drawless) :
    Follows st.Alike (MockOracle.singleColumn self ex q scope)
      (MockOracle.singleColumn other ex q scope) := by
  refine Follows.bind_ (below.query drawless ex _) fun rel => ?_
  split
  · exact Follows.bind_ (Follows.throw_ _ _) fun _ => Follows.pure_ _
  · exact Follows.bind_ (Follows.pure_ _) fun _ => Follows.pure_ _

/-- A condition, when its operands are replaced by related ones. -/
theorem condition (operands : Operands st.Alike ex self other R)
    (below : Recur.Follows st.Alike self other) {e e' : Expr} (related : R scope e e')
    (matched : Expr.Matches (R scope) e e') :
    Follows st.Alike (evalBoolStep eng self ex e scope) (evalBoolStep eng other ex e' scope) := by
  cases matched with
  | literal | bind | column | rowNum | countStar | currval | neg | «case» | function | subquery =>
      exact operands.asBool related
  | @binary op _ _ _ _ left right =>
      cases op with
      | and => exact follows_evalAnd (operands.evalBool left) (operands.evalBool right)
      | or => exact follows_evalOr (operands.evalBool left) (operands.evalBool right)
      | eq | notEq | lt | ltEq | gt | gtEq =>
          refine Follows.bind_ (operands.eval left) fun x => ?_
          refine Follows.bind_ (operands.eval right) fun y => ?_
          exact Follows.bind_ (steady_compareM x y) fun _ => Follows.pure_ _
      | add | sub | mul | div | concat => exact operands.asBool related
  | not a => exact Follows.bind_ (operands.evalBool a) fun _ => Follows.pure_ _
  | isNull a => exact Follows.bind_ (operands.eval a) fun _ => Follows.pure_ _
  | between a low high =>
      refine Follows.bind_ (operands.eval a) fun x => ?_
      refine Follows.bind_ (operands.eval low) fun lo => ?_
      refine Follows.bind_ (steady_compareM x lo) fun _ => ?_
      refine Follows.bind_ (operands.eval high) fun hi => ?_
      exact Follows.bind_ (steady_compareM x hi) fun _ => Follows.pure_ _
  | inList a list =>
      refine Follows.bind_ (operands.eval a) fun x => ?_
      refine Follows.bind_ (follows_forEach (fun _ _ item => operands.eval item) list) fun _ => ?_
      refine Follows.bind_ steady_dateFormat fun _ => ?_
      exact Follows.bind_ (steady_lift _) fun _ => Follows.pure_ _
  | inSubquery a q =>
      refine Follows.bind_ (operands.eval a) fun x => ?_
      refine Follows.bind_ (singleColumn below q) fun _ => ?_
      refine Follows.bind_ steady_dateFormat fun _ => ?_
      exact Follows.bind_ (steady_lift _) fun _ => Follows.pure_ _
  | «exists» q => exact Follows.bind_ (below.query q ex _) fun _ => Follows.pure_ _
  | like a pattern esc =>
      refine Follows.bind_ (operands.eval a) fun x => ?_
      refine Follows.bind_ (operands.eval pattern) fun p => ?_
      refine Follows.bind_ (operands.escape esc) fun c => ?_
      refine Follows.bind_ (steady_textOf x) fun text => ?_
      refine Follows.bind_ (steady_textOf p) fun pattern => ?_
      rcases text with _ | text <;> rcases pattern with _ | pattern
      · exact Follows.pure_ _
      · exact Follows.pure_ _
      · exact Follows.pure_ _
      · exact Follows.bind_ (steady_lift _) fun _ => Follows.pure_ _

/-! ### Values -/

/-- The match of a WHEN follows. -/
theorem whenHits (operands : Operands st.Alike ex self other R) {subject : Option Value}
    {w w' : Expr} (related : R scope w w') :
    Follows st.Alike (whenHits eng self ex subject scope w)
      (MockOracle.whenHits eng other ex subject scope w') := by
  cases subject with
  | none => exact Follows.bind_ (operands.evalBool related) fun _ => Follows.pure_ _
  | some s =>
      refine Follows.bind_ (operands.eval related) fun value => ?_
      exact Follows.bind_ (steady_compareM s value) fun _ => Follows.pure_ _

/-- The branches of CASE follow. -/
theorem whens (operands : Operands st.Alike ex self other R) {subject : Option Value}
    {else_ else_' : Option Expr} (otherwise : Option.Rel (R scope) else_ else_')
    {branches branches' : List (Expr × Expr)}
    (conditions : List.Forall₂ (fun w w' => R scope w.1 w'.1) branches branches')
    (results : List.Forall₂ (fun w w' => R scope w.2 w'.2) branches branches') :
    Follows st.Alike (evalWhens eng self ex subject scope else_ branches)
      (evalWhens eng other ex subject scope else_' branches') := by
  induction conditions with
  | nil =>
      cases otherwise with
      | none => exact Follows.pure_ _
      | some related => exact operands.eval related
  | @cons w w' _ _ condition _ ih =>
      obtain ⟨result, results⟩ := List.forall₂_cons.mp results
      refine Follows.bind_ (operands.whenHits condition) fun hit => ?_
      cases hit with
      | true => exact operands.eval result
      | false => exact ih results

/-- An aggregate over related arguments follows. -/
theorem aggregate (operands : Operands st.Alike ex self other R) {name : String}
    {args args' : List Expr} (related : List.Forall₂ (R scope) args args') {distinct : Bool} :
    Follows st.Alike (aggregate eng self ex name args distinct scope)
      (MockOracle.aggregate eng other ex name args' distinct scope) := by
  unfold MockOracle.aggregate
  cases grouped : scope.group with
  | none => exact Follows.throw_ _ _
  | some group =>
      cases related with
      | nil => exact Follows.throw_ _ _
      | @cons arg arg' _ _ first rest =>
          cases rest with
          | cons => exact Follows.throw_ _ _
          | nil =>
              have inner : ∀ row row', row = row' →
                  Follows st.Alike (self.eval ex arg (scope.inner row))
                    (other.eval ex arg' (scope.inner row')) := by
                rintro row _ rfl
                exact operands.eval (operands.inner first (by simp [grouped]) row)
              refine Follows.bind_ (follows_forEach inner (List.forall₂_same.mpr fun _ _ => rfl))
                fun values => ?_
              exact follows_env (fun env => EvalM.lift (aggregateValues eng env name _)) _
                (fun env rows => by rw [aggregateValues_rows]) fun _ => steady_lift _

/-- A value, when the operands are replaced by related ones. -/
theorem value (operands : Operands st.Alike ex self other R) (quiet : eng.Quiet st)
    (below : Recur.Follows st.Alike self other) {e e' : Expr} (related : R scope e e')
    (matched : Expr.Matches (R scope) e e') :
    Follows st.Alike (evalStep eng self ex e scope) (evalStep eng other ex e' scope) := by
  have conditionValue : Follows st.Alike (conditionValue (evalBoolStep eng self ex e scope))
      (MockOracle.conditionValue (evalBoolStep eng other ex e' scope)) :=
    Follows.bind_ (operands.condition below related matched) fun _ => Follows.pure_ _
  cases matched with
  | literal | bind | rowNum => exact Follows.pure_ _
  | column table name => exact follows_resolve quiet below table name
  | currval name => exact steady_currval name
  | neg a =>
      refine Follows.bind_ (operands.eval a) fun x => ?_
      refine Follows.bind_ (steady_lift _) fun number => ?_
      cases number <;> exact Follows.pure_ _
  | @binary op _ _ _ _ left right =>
      cases op with
      | concat =>
          refine Follows.bind_ (operands.eval left) fun x => ?_
          refine Follows.bind_ (operands.eval right) fun y => ?_
          refine Follows.bind_ (steady_textOf x) fun _ => ?_
          exact Follows.bind_ (steady_textOf y) fun _ => Follows.pure_ _
      | add | sub | mul | div =>
          refine Follows.bind_ (operands.eval left) fun x => ?_
          exact Follows.bind_ (operands.eval right) fun y => steady_lift _
      | eq | notEq | lt | ltEq | gt | gtEq | and | or => exact conditionValue
  | «case» operand whens thens otherwise =>
      cases operand with
      | none => exact Follows.bind_ (Follows.pure_ _) fun _ => operands.whens otherwise whens thens
      | some o =>
          exact Follows.bind_ (Follows.map_ some (operands.eval o)) fun _ =>
            operands.whens otherwise whens thens
  | countStar =>
      unfold evalStep
      cases scope.group with
      | none => exact Follows.throw_ _ _
      | some group => exact Follows.pure_ _
  | @function name _ _ distinct args =>
      by_cases grouped : isAggregate name = true
      · simp only [evalStep, if_pos grouped]
        exact operands.aggregate args
      · simp only [evalStep, if_neg grouped]
        refine Follows.bind_ (follows_forEach (fun _ _ arg => operands.eval arg) args) fun values => ?_
        exact follows_call quiet below name values
  | subquery q =>
      refine Follows.bind_ (singleColumn below q) fun values => ?_
      rcases values with _ | ⟨v, _ | ⟨w, more⟩⟩
      · exact Follows.pure_ _
      · exact Follows.pure_ _
      · exact Follows.throw_ _ _
  | not | isNull | between | inList | inSubquery | «exists» | like => exact conditionValue

end Operands

end Step

end MockOracle
