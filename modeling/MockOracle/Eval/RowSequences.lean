import MockOracle.Eval.Select
import MockOracle.Semantics.Watching

/-!
# Sequence values of a row

Within a row every NEXTVAL and CURRVAL of a sequence the row mentions should be one number:
evaluating the row is evaluating it with these numbers written in their place. The numbers live
in the session, and computing other rows, as subqueries and stored functions do, forgets them and
may draw further ones. So evaluation is watched: a NEXTVAL whose number is forgotten is refused, and
so are other rows that draw from a sequence the row mentions. What the watch lets pass is what the
row is with its numbers written in, and nothing more is drawn for it.
-/

namespace MockOracle

open Std Semantics

/-- The numbers of a row, by sequence. -/
abbrev RowValues := ExtTreeMap String Int

/-! ## Writing the numbers into expressions -/

namespace Expr

mutual

/-- The expression with the row's numbers in place of NEXTVAL and CURRVAL, outside
subqueries. -/
def fixing (v : RowValues) : Expr → Expr
  | .sequence name next =>
      match v[shortName name]? with
      | some n => .literal (.ofInt n)
      | none => .sequence name next
  | .neg a => .neg (fixing v a)
  | .not a => .not (fixing v a)
  | .binary op a b => .binary op (fixing v a) (fixing v b)
  | .isNull a negated => .isNull (fixing v a) negated
  | .between a low high negated => .between (fixing v a) (fixing v low) (fixing v high) negated
  | .inList a list negated => .inList (fixing v a) (fixingList v list) negated
  | .inSubquery a q negated => .inSubquery (fixing v a) q negated
  | .like a pattern escape negated =>
      .like (fixing v a) (fixing v pattern) (fixingOption v escape) negated
  | .case operand whens else_ =>
      .case (fixingOption v operand) (fixingWhens v whens) (fixingOption v else_)
  | .function name args distinct => .function name (fixingList v args) distinct
  | e => e
termination_by structural e => e

/-- The expressions with the row's numbers in them. -/
def fixingList (v : RowValues) : List Expr → List Expr
  | [] => []
  | e :: es => fixing v e :: fixingList v es
termination_by structural es => es

/-- The expression with the row's numbers in it, if there is one. -/
def fixingOption (v : RowValues) : Option Expr → Option Expr
  | none => none
  | some e => some (fixing v e)
termination_by structural e => e

/-- The branches with the row's numbers in them. -/
def fixingWhens (v : RowValues) : List (Expr × Expr) → List (Expr × Expr)
  | [] => []
  | (w, t) :: whens => (fixing v w, fixing v t) :: fixingWhens v whens
termination_by structural whens => whens

end

end Expr

/-! ## Watching a row -/

/-- Nothing was drawn from the named sequences, and the row still has its numbers of them, or has
forgotten them. -/
def undrawn (names : List String) (st st' : EvalState) : Bool :=
  names.all fun s =>
    st'.sequences[s]? == st.sequences[s]? && st'.env.currval[s]? == st.env.currval[s]? &&
      (st'.env.rowSequences[s]?.isNone || st'.env.rowSequences[s]? == st.env.rowSequences[s]?)

/-- What the watch refuses has no error of its own in the source. -/
def drawnAgain : OraError := ⟨600, "sequence is drawn from again"⟩

section Watch

variable (names : List String)

/-- NEXTVAL, refused where the row has no number of the sequence any more: then it would draw. -/
def watchNextval (ex : Ex) (name : String) : EvalM Value := do
  if names.contains (shortName name) && ((← get).env.rowSequences[shortName name]?).isNone then
    throw drawnAgain
  sequenceValue ex name true

/-- One step of the watched evaluator: NEXTVAL is watched, and the rest is as in the source. -/
def watchStep (eng : Engine) (self : Recur) (ex : Ex) (e : Expr) (scope : Scope) : EvalM Value :=
  match e with
  | .sequence name true => watchNextval names ex name
  | e => evalStep eng self ex e scope

/-- Stored functions are run as they are, and refused if they drew. -/
def Engine.watching (eng : Engine) (levels : Nat) : Engine :=
  { eng with
    callFunction := fun _ ex routine args =>
      watch (undrawn names) drawnAgain (eng.callFunction (eng.levels levels) ex routine args) }

/-- The evaluator that watches the expressions of one row. Queries are run as they are, and refused
if they drew. -/
def Engine.watched (eng : Engine) : Nat → Recur
  | 0 => eng.levels 0
  | n + 1 =>
      { eval := watchStep names (eng.watching names n) (eng.watched n)
        evalBool := evalBoolStep (eng.watching names n) (eng.watched n)
        query := fun ex q parent =>
          watch (undrawn names) drawnAgain (queryStep eng (eng.levels n) ex parent q) }

end Watch

/-! ## What does not change the state -/

/-- Passing on a result only reads. -/
theorem EvalM.reads_lift {α : Type} (result : Except OraError α) : Reads (EvalM.lift result) :=
  fun _ _ _ success => (lift_ok success).2

/-- The date format is only read. -/
theorem reads_dateFormat : Reads dateFormat := Reads.bind_ .get_ fun _ => .pure_ _

/-- The text of a value is only read. -/
theorem reads_textOf (eng : Engine) (v : Value) : Reads (textOf eng v) :=
  Reads.bind_ .get_ fun _ => .pure_ _

/-- Comparing two values only reads. -/
theorem reads_compareM (eng : Engine) (a b : Value) : Reads (compareM eng a b) :=
  Reads.bind_ reads_dateFormat fun _ => EvalM.reads_lift _

/-! ## Drawing -/

/-- A name without a point is its own short name. -/
theorem shortName_shortName (name : String) : shortName (shortName name) = shortName name := by
  unfold shortName
  rw [String.toList_ofList, List.reverse_reverse, List.takeWhile_eq_self_iff.mpr]
  intro c member
  have other := List.mem_takeWhile_imp member
  exact other

/-- Drawing a number changes no session. -/
theorem nextSequence_env {name : String} {def_ : SequenceDef} {n : Int} {st st' : EvalState}
    (drawn : nextSequence name def_ st = .ok n st') : st'.env = st.env := by
  unfold nextSequence at drawn
  simp only at drawn
  split at drawn
  · cases drawn
  · cases drawn
    rfl

/-- Drawing moves one counter and makes the number the session's current one. -/
theorem advanceSequence_ok {ex : Ex} {name : String} {n : Int} {st st' : EvalState}
    (advanced : advanceSequence ex name st = .ok n st') :
    ∃ def_ next, ex.committed.sequences[shortName name]? = some def_ ∧
      def_.draw (st.sequences.getD (shortName name) def_.start) = some (n, next) ∧
      st'.sequences = st.sequences.insert (shortName name) next ∧
      st'.env = { st.env with currval := st.env.currval.insert (shortName name) n } := by
  unfold advanceSequence at advanced
  cases found : ex.committed.sequences[shortName name]? with
  | none =>
      rw [found] at advanced
      cases advanced
  | some def_ =>
      rw [found] at advanced
      obtain ⟨drawn, st₁, drew, rest⟩ := bind_ok advanced
      obtain ⟨_, st₂, modified, last⟩ := bind_ok rest
      cases modified
      obtain ⟨rfl, rfl⟩ := pure_ok last
      have env := nextSequence_env drew
      cases draws : def_.draw (st.sequences.getD (shortName name) def_.start) with
      | none =>
          simp only [nextSequence, draws] at drew
          cases drew
      | some result =>
          obtain ⟨m, next⟩ := result
          simp only [nextSequence, draws] at drew
          cases drew
          exact ⟨def_, next, rfl, draws, rfl, rfl⟩

/-- Reading a sequence does nothing but, for a NEXTVAL without a number of the row, draw from it. -/
theorem sequenceValue_ok {ex : Ex} {name : String} {next : Bool} {value : Value}
    {st st' : EvalState} (result : sequenceValue ex name next st = .ok value st') :
    st' = st ∨ ∃ n, advanceSequence ex (shortName name) st = .ok n st' := by
  unfold sequenceValue at result
  simp only at result
  split at result
  · obtain ⟨_, _, thrown, -⟩ := bind_ok result
    cases thrown
  · obtain ⟨_, _, got, result⟩ := bind_ok result
    cases got
    cases cached : st.env.rowSequences[shortName name]? with
    | some n =>
        rw [cached] at result
        exact Or.inl (pure_ok result).2
    | none =>
        rw [cached] at result
        cases next with
        | true =>
            obtain ⟨n, st₁, advanced, last⟩ := bind_ok result
            obtain ⟨-, rfl⟩ := pure_ok last
            exact Or.inr ⟨n, advanced⟩
        | false =>
            cases current : st.env.currval[shortName name]? with
            | some n =>
                rw [current] at result
                exact Or.inl (pure_ok result).2
            | none =>
                rw [current] at result
                cases result

/-- A sequence whose number the row has gives that number. -/
theorem sequenceValue_cached {ex : Ex} {name : String} {next : Bool} {n : Int} {st : EvalState}
    (exists_ : (ex.committed.sequences[shortName name]?).isNone = false)
    (cached : st.env.rowSequences[shortName name]? = some n) :
    sequenceValue ex name next st = .ok (.ofInt n) st := by
  simp only [sequenceValue, exists_, Bool.false_eq_true, if_false]
  simp [bind, EStateM.bind, get, getThe, MonadStateOf.get, EStateM.get, cached, pure, EStateM.pure]

/-- CURRVAL of a sequence whose number the row has not is the session's current one. -/
theorem sequenceValue_current {ex : Ex} {name : String} {n : Int} {st : EvalState}
    (exists_ : (ex.committed.sequences[shortName name]?).isNone = false)
    (forgotten : st.env.rowSequences[shortName name]? = none)
    (current : st.env.currval[shortName name]? = some n) :
    sequenceValue ex name false st = .ok (.ofInt n) st := by
  simp only [sequenceValue, exists_, Bool.false_eq_true, if_false]
  simp [bind, EStateM.bind, get, getThe, MonadStateOf.get, EStateM.get, forgotten, current, pure,
    EStateM.pure]

/-! ## While a row is evaluated -/

/-- The sequences a row has numbers of. -/
def mentions (v : RowValues) (name : String) : Bool := (v[name]?).isSome

/-- Since the row began, with these numbers, nothing was drawn from its sequences: the counters
stand, the current numbers are the row's, and the row has no others. -/
def Undrawn (v : RowValues) (begun st : EvalState) : Prop :=
  ∀ (s : String) (n : Int), v[s]? = some n →
    st.sequences[s]? = begun.sequences[s]? ∧ st.env.currval[s]? = some n ∧
      ∀ k : Int, st.env.rowSequences[s]? = some k → k = n

section Undrawn

variable {ex : Ex} {v : RowValues} {begun st st' : EvalState} {names : List String}

/-- What changes neither the counters nor the session draws nothing. -/
theorem Undrawn.of_same (undrawn : Undrawn v begun st) (sequences : st'.sequences = st.sequences)
    (env : st'.env = st.env) : Undrawn v begun st' := by
  intro s n number
  rw [sequences, env]
  exact undrawn s n number

/-- What the watch accepts of other rows leaves the row's numbers standing. -/
theorem Undrawn.accepted (named : ∀ s, names.contains s = mentions v s)
    (stands : Undrawn v begun st) (accepted : undrawn names st st' = true) :
    Undrawn v begun st' := by
  intro s n number
  obtain ⟨counter, current, numbers⟩ := stands s n number
  have member : s ∈ names := by
    rw [← List.contains_iff_mem, named, mentions, number]
    rfl
  have kept := List.all_eq_true.mp accepted s member
  simp only [Bool.and_eq_true, Bool.or_eq_true, beq_iff_eq, Option.isNone_iff_eq_none] at kept
  obtain ⟨⟨sameCounter, sameCurrent⟩, forgotten⟩ := kept
  refine ⟨sameCounter.trans counter, sameCurrent.trans current, fun k own => ?_⟩
  rcases forgotten with none_ | same
  · rw [none_] at own
    cases own
  · exact numbers k (same ▸ own)

/-- So does drawing from a sequence that the row does not mention. -/
theorem Undrawn.advance {name : String} {n : Int} (stands : Undrawn v begun st)
    (other : v[shortName name]? = none) (advanced : advanceSequence ex name st = .ok n st') :
    Undrawn v begun st' := by
  obtain ⟨def_, next, -, -, sequences, env⟩ := advanceSequence_ok advanced
  intro s k number
  have different : shortName name ≠ s := by
    rintro rfl
    rw [other] at number
    cases number
  have apart : compare (shortName name) s ≠ .eq := by
    rwa [ne_eq, Std.compare_eq_iff_eq]
  rw [sequences, env, ExtTreeMap.getElem?_insert, if_neg apart]
  refine ⟨(stands s k number).1, ?_, (stands s k number).2.2⟩
  show (st.env.currval.insert (shortName name) n)[s]? = some k
  rw [ExtTreeMap.getElem?_insert, if_neg apart]
  exact (stands s k number).2.1

end Undrawn

/-! ## Watched evaluation -/

/-- The watched evaluator vouches for evaluation, and for evaluation with the row's numbers in
place of its sequences. -/
structure Vouched (v : RowValues) (begun : EvalState) (ex : Ex) (watched plain : Recur) :
    Prop where
  eval : ∀ e scope, Vouches (Undrawn v begun) (watched.eval ex e scope) (plain.eval ex e scope)
    (plain.eval ex (e.fixing v) scope)
  evalBool : ∀ e scope, Vouches (Undrawn v begun) (watched.evalBool ex e scope)
    (plain.evalBool ex e scope) (plain.evalBool ex (e.fixing v) scope)
  query : ∀ q parent, Vouches (Undrawn v begun) (watched.query ex q parent)
    (plain.query ex q parent) (plain.query ex q parent)

/-- The row's sequences exist. -/
def Known (ex : Ex) (v : RowValues) : Prop :=
  ∀ (s : String) (n : Int), v[s]? = some n → (ex.committed.sequences[s]?).isSome

/-- A list of evaluations that are vouched for is vouched for. -/
theorem vouches_forEach {α β : Type} {w m m' : α → EvalM β} {C : EvalState → Prop} {as : List α}
    (each : ∀ a ∈ as, Vouches C (w a) (m a) (m' a)) :
    Vouches C (forEach w as) (forEach m as) (forEach m' as) := by
  induction as with
  | nil => exact .pure_ _
  | cons a as ih =>
      exact .bind_ (each a List.mem_cons_self) fun _ =>
        .bind_ (ih fun b member => each b (List.mem_cons_of_mem _ member)) fun _ => .pure_ _

/-- Passing on a result is vouched for. -/
theorem vouches_lift {α : Type} {C : EvalState → Prop} (result : Except OraError α) :
    Vouches C (EvalM.lift result) (EvalM.lift result) (EvalM.lift result) :=
  .of_reads (EvalM.reads_lift result)

section Watched

variable {eng : Engine} {watched : Recur} {levels : Nat} {ex : Ex} {v : RowValues}
  {begun : EvalState} {scope : Scope} {names : List String}

/-- AND is vouched for when its operands are. -/
theorem vouches_evalAnd {C : EvalState → Prop} {wl wr l r l' r' : EvalM (Option Bool)}
    (left : Vouches C wl l l') (right : Vouches C wr r r') :
    Vouches C (evalAnd wl wr) (evalAnd l r) (evalAnd l' r') := by
  refine .bind_ left fun x => ?_
  rcases x with _ | _ | _
  · exact .bind_ right fun y => .of_reads (by rcases y with _ | _ | _ <;> exact .pure_ _)
  · exact .pure_ _
  · exact .bind_ right fun y => .of_reads (by rcases y with _ | _ | _ <;> exact .pure_ _)

/-- OR is vouched for when its operands are. -/
theorem vouches_evalOr {C : EvalState → Prop} {wl wr l r l' r' : EvalM (Option Bool)}
    (left : Vouches C wl l l') (right : Vouches C wr r r') :
    Vouches C (evalOr wl wr) (evalOr l r) (evalOr l' r') := by
  refine .bind_ left fun x => ?_
  rcases x with _ | _ | _
  · exact .bind_ right fun y => .of_reads (by rcases y with _ | _ | _ <;> exact .pure_ _)
  · exact .bind_ right fun y => .of_reads (by rcases y with _ | _ | _ <;> exact .pure_ _)
  · exact .pure_ _

/-- A call of a built-in function changes nothing, and a stored function is watched. -/
theorem vouches_call (named : ∀ s, names.contains s = mentions v s) (name : String)
    (args : List Value) :
    Vouches (Undrawn v begun) (call (eng.watching names levels) watched ex name args)
      (call eng (eng.levels levels) ex name args) (call eng (eng.levels levels) ex name args) := by
  refine .bind_ (.of_reads .get_) fun st => ?_
  have same : builtin (eng.watching names levels).lib st.env (eng.watching names levels).scalar name =
      builtin eng.lib st.env eng.scalar name := rfl
  rw [same]
  cases builtin eng.lib st.env eng.scalar name with
  | some f => exact vouches_lift _
  | none =>
      cases ex.committed.routines[shortName name]? with
      | none => exact .throw_ _ _ _
      | some routine => exact .of_watch fun _ _ stands accepted => stands.accepted named accepted

/-- The lookup of a name is vouched for. -/
theorem vouches_resolve (named : ∀ s, names.contains s = mentions v s) (table : Option String)
    (name : String) :
    Vouches (Undrawn v begun) (resolve (eng.watching names levels) watched ex scope table name)
      (resolve eng (eng.levels levels) ex scope table name)
      (resolve eng (eng.levels levels) ex scope table name) := by
  refine .bind_ (vouches_lift _) fun found => ?_
  cases found with
  | some value => exact .pure_ _
  | none =>
      cases ex.vars.bind fun lookup => lookup table name with
      | some value => exact .pure_ _
      | none =>
          by_cases stored : (table.isNone && (ex.committed.routines[name]?).isSome) = true
          · simp only [if_pos stored]
            exact vouches_call named name []
          · simp only [if_neg stored]
            exact .throw_ _ _ _

/-- Reading a sequence of the row gives the row's number, where the watch lets it. -/
theorem vouches_sequence (named : ∀ s, names.contains s = mentions v s) (known : Known ex v)
    (name : String) (next : Bool) :
    Vouches (Undrawn v begun)
      (watchStep names (eng.watching names levels) watched ex (.sequence name next) scope)
      (sequenceValue ex name next)
      (evalStep eng (eng.levels levels) ex (Expr.fixing v (.sequence name next)) scope) := by
  rw [Expr.fixing]
  cases number : v[shortName name]? with
  | none =>
      -- A sequence the row does not mention is read as it is.
      have unnamed : names.contains (shortName name) = false := by
        rw [named, mentions, number]
        rfl
      have same : watchStep names (eng.watching names levels) watched ex (.sequence name next)
          scope = sequenceValue ex name next := by
        cases next with
        | false => rfl
        | true =>
            simp only [watchStep, watchNextval, unnamed, Bool.false_and, Bool.false_eq_true,
              if_false]
            rfl
      rw [same]
      refine .of_keeps fun st stands value st' read => ?_
      rcases sequenceValue_ok read with rfl | ⟨n, advanced⟩
      · exact stands
      · exact stands.advance (by rw [shortName_shortName]; exact number) advanced
  | some n =>
      have exists_ : (ex.committed.sequences[shortName name]?).isNone = false := by
        rw [← Option.not_isSome, known _ _ number]
        rfl
      intro st stands value st' read
      obtain ⟨-, current, numbers⟩ := stands _ _ number
      have plain : sequenceValue ex name next st = .ok (.ofInt n) st := by
        cases cached : st.env.rowSequences[shortName name]? with
        | some k => exact sequenceValue_cached exists_ (numbers k cached ▸ cached)
        | none =>
            cases next with
            | false => exact sequenceValue_current exists_ cached current
            | true =>
                -- The number is forgotten, and the watch refuses to draw another one.
                have member : names.contains (shortName name) = true := by
                  rw [named, mentions, number]
                  rfl
                obtain ⟨_, _, got, later⟩ := bind_ok read
                cases got
                simp only [member, cached, Option.isNone_none, Bool.and_self, if_true] at later
                cases later
      have same : sequenceValue ex name next st = .ok value st' := by
        cases next with
        | false => exact read
        | true =>
            obtain ⟨_, _, got, later⟩ := bind_ok read
            cases got
            split at later
            · cases later
            · exact later
      rw [plain] at same
      cases same
      exact ⟨plain, rfl, stands⟩

/-! ## Expressions -/

namespace Vouched

variable (below : Vouched v begun ex watched (eng.levels levels))

include below

/-- A list of operands is vouched for. -/
theorem list (es : List Expr) :
    Vouches (Undrawn v begun) (forEach (fun e => watched.eval ex e scope) es)
      (forEach (fun e => (eng.levels levels).eval ex e scope) es)
      (forEach (fun e => (eng.levels levels).eval ex e scope) (Expr.fixingList v es)) := by
  induction es with
  | nil => exact .pure_ _
  | cons e es ih => exact .bind_ (below.eval e scope) fun _ => .bind_ ih fun _ => .pure_ _

/-- A subquery with one column is vouched for: it is refused if it drew. -/
theorem singleColumn (q : Query) :
    Vouches (Undrawn v begun) (singleColumn watched ex q scope)
      (MockOracle.singleColumn (eng.levels levels) ex q scope)
      (MockOracle.singleColumn (eng.levels levels) ex q scope) :=
  .bind_ (below.query q (some scope)) fun rel => by
    by_cases single : rel.cols.length ≠ 1
    · simp only [if_pos single]
      exact .throw_ _ _ _
    · simp only [if_neg single]
      exact .pure_ _

/-- An expression as a condition is vouched for. -/
theorem asBool (e : Expr) :
    Vouches (Undrawn v begun) (evalBoolStep.asBool watched ex scope e)
      (evalBoolStep.asBool (eng.levels levels) ex scope e)
      (evalBoolStep.asBool (eng.levels levels) ex scope (e.fixing v)) := by
  refine .bind_ (below.eval e scope) fun value => ?_
  cases value with
  | boolean b => exact .pure_ _
  | null => exact .pure_ _
  | number | varchar2 | date | timestamp => exact .throw_ _ _ _

/-- A comparison is vouched for. -/
theorem comparison (op : BinaryOp) (a b : Expr) :
    Vouches (Undrawn v begun)
      (do let x ← watched.eval ex a scope
          let y ← watched.eval ex b scope
          return (← compareM (eng.watching names levels) x y).map op.accepts)
      (do let x ← (eng.levels levels).eval ex a scope
          let y ← (eng.levels levels).eval ex b scope
          return (← compareM eng x y).map op.accepts)
      (do let x ← (eng.levels levels).eval ex (a.fixing v) scope
          let y ← (eng.levels levels).eval ex (b.fixing v) scope
          return (← compareM eng x y).map op.accepts) :=
  .bind_ (below.eval a scope) fun x => .bind_ (below.eval b scope) fun y =>
    .of_reads (.bind_ (reads_compareM eng x y) fun _ => .pure_ _)

/-- The escape character of LIKE is vouched for. -/
theorem escape (esc : Option Expr) :
    Vouches (Undrawn v begun) (evalEscape (eng.watching names levels) watched ex esc scope)
      (evalEscape eng (eng.levels levels) ex esc scope)
      (evalEscape eng (eng.levels levels) ex (Expr.fixingOption v esc) scope) := by
  cases esc with
  | none => exact .pure_ _
  | some e =>
      refine .bind_ (below.eval e scope) fun value =>
        .bind_ (.of_reads (reads_textOf eng value)) fun text => ?_
      rcases text.map String.toList with _ | _ | ⟨c, _ | ⟨d, more⟩⟩
      · exact .throw_ _ _ _
      · exact .throw_ _ _ _
      · exact .pure_ _
      · exact .throw_ _ _ _

/-- Conditions, by the form of the condition. -/
theorem condition (e : Expr) :
    Vouches (Undrawn v begun) (evalBoolStep (eng.watching names levels) watched ex e scope)
      (evalBoolStep eng (eng.levels levels) ex e scope)
      (evalBoolStep eng (eng.levels levels) ex (e.fixing v) scope) := by
  cases e with
  | literal | bind | column | neg | «case» | function | countStar | subquery | rowNum =>
      exact below.asBool _
  | sequence name next =>
      have boolean := @asBool eng watched levels ex v begun scope below (.sequence name next)
      rw [Expr.fixing] at boolean ⊢
      split at boolean <;> exact boolean
  | binary op a b =>
      cases op with
      | and => exact vouches_evalAnd (below.evalBool a scope) (below.evalBool b scope)
      | or => exact vouches_evalOr (below.evalBool a scope) (below.evalBool b scope)
      | eq | notEq | lt | ltEq | gt | gtEq => exact below.comparison _ a b
      | add | sub | mul | div | concat => exact below.asBool _
  | not a => exact .bind_ (below.evalBool a scope) fun _ => .pure_ _
  | isNull a negated => exact .bind_ (below.eval a scope) fun _ => .pure_ _
  | between a low high negated =>
      refine .bind_ (below.eval a scope) fun x => ?_
      refine .bind_ (below.eval low scope) fun lo => ?_
      refine .bind_ (.of_reads (reads_compareM eng x lo)) fun _ => ?_
      refine .bind_ (below.eval high scope) fun hi => ?_
      exact .of_reads (.bind_ (reads_compareM eng x hi) fun _ => .pure_ _)
  | inList a list negated =>
      refine .bind_ (below.eval a scope) fun x => ?_
      refine .bind_ (below.list list) fun candidates => .of_reads ?_
      exact .bind_ reads_dateFormat fun _ => .bind_ (EvalM.reads_lift _) fun _ => .pure_ _
  | inSubquery a q negated =>
      refine .bind_ (below.eval a scope) fun x => ?_
      refine .bind_ (below.singleColumn q) fun candidates => .of_reads ?_
      exact .bind_ reads_dateFormat fun _ => .bind_ (EvalM.reads_lift _) fun _ => .pure_ _
  | «exists» q => exact .bind_ (below.query q (some scope)) fun _ => .pure_ _
  | like a pattern esc negated =>
      refine .bind_ (below.eval a scope) fun x => ?_
      refine .bind_ (below.eval pattern scope) fun p => ?_
      refine .bind_ (below.escape esc) fun c => .of_reads ?_
      refine .bind_ (reads_textOf eng x) fun text => .bind_ (reads_textOf eng p) fun pattern => ?_
      rcases text with _ | text <;> rcases pattern with _ | pattern
      · exact .pure_ _
      · exact .pure_ _
      · exact .pure_ _
      · exact .bind_ (EvalM.reads_lift _) fun _ => .pure_ _

/-- The match of a WHEN is vouched for. -/
theorem whenHits (subject : Option Value) (w : Expr) :
    Vouches (Undrawn v begun) (whenHits (eng.watching names levels) watched ex subject scope w)
      (MockOracle.whenHits eng (eng.levels levels) ex subject scope w)
      (MockOracle.whenHits eng (eng.levels levels) ex subject scope (w.fixing v)) := by
  cases subject with
  | none => exact .bind_ (below.evalBool w scope) fun _ => .pure_ _
  | some s =>
      exact .bind_ (below.eval w scope) fun value =>
        .of_reads (.bind_ (reads_compareM eng s value) fun _ => .pure_ _)

/-- Only the branches of CASE that are come to are watched. -/
theorem whens (subject : Option Value) (else_ : Option Expr) (branches : List (Expr × Expr)) :
    Vouches (Undrawn v begun)
      (evalWhens (eng.watching names levels) watched ex subject scope else_ branches)
      (evalWhens eng (eng.levels levels) ex subject scope else_ branches)
      (evalWhens eng (eng.levels levels) ex subject scope (Expr.fixingOption v else_)
        (Expr.fixingWhens v branches)) := by
  induction branches with
  | nil =>
      cases else_ with
      | none => exact .pure_ _
      | some e => exact below.eval e scope
  | cons branch branches ih =>
      obtain ⟨w, t⟩ := branch
      refine .bind_ (below.whenHits subject w) fun hit => ?_
      cases hit with
      | true => exact below.eval t scope
      | false => exact ih

/-- An aggregate is vouched for. -/
theorem aggregate (name : String) (args : List Expr) (distinct : Bool) :
    Vouches (Undrawn v begun)
      (aggregate (eng.watching names levels) watched ex name args distinct scope)
      (MockOracle.aggregate eng (eng.levels levels) ex name args distinct scope)
      (MockOracle.aggregate eng (eng.levels levels) ex name (Expr.fixingList v args) distinct
        scope) := by
  unfold MockOracle.aggregate
  cases scope.group with
  | none => exact .throw_ _ _ _
  | some rows =>
      rcases args with _ | ⟨arg, _ | ⟨other, more⟩⟩
      · exact .throw_ _ _ _
      · exact .bind_ (vouches_forEach fun row _ => below.eval arg (scope.inner row)) fun values =>
          .of_reads (.bind_ .get_ fun _ => EvalM.reads_lift _)
      · exact .throw_ _ _ _

/-- Values, by the form of the expression. -/
theorem value (named : ∀ s, names.contains s = mentions v s) (known : Known ex v) (e : Expr) :
    Vouches (Undrawn v begun) (watchStep names (eng.watching names levels) watched ex e scope)
      (evalStep eng (eng.levels levels) ex e scope)
      (evalStep eng (eng.levels levels) ex (e.fixing v) scope) := by
  have conditionValue : Vouches (Undrawn v begun)
      (conditionValue (evalBoolStep (eng.watching names levels) watched ex e scope))
      (MockOracle.conditionValue (evalBoolStep eng (eng.levels levels) ex e scope))
      (MockOracle.conditionValue (evalBoolStep eng (eng.levels levels) ex (e.fixing v) scope)) :=
    .bind_ (below.condition e) fun _ => .pure_ _
  cases e with
  | literal | bind | rowNum => exact .pure_ _
  | column table name => exact vouches_resolve named table name
  | sequence name next => exact vouches_sequence named known name next
  | neg a =>
      refine .bind_ (below.eval a scope) fun x => .bind_ (vouches_lift _) fun number => ?_
      cases number <;> exact .pure_ _
  | binary op a b =>
      cases op with
      | concat =>
          refine .bind_ (below.eval a scope) fun x => .bind_ (below.eval b scope) fun y => ?_
          exact .of_reads (.bind_ (reads_textOf eng x) fun _ =>
            .bind_ (reads_textOf eng y) fun _ => .pure_ _)
      | add | sub | mul | div =>
          exact .bind_ (below.eval a scope) fun x => .bind_ (below.eval b scope) fun y =>
            vouches_lift _
      | eq | notEq | lt | ltEq | gt | gtEq | and | or => exact conditionValue
  | «case» operand branches else_ =>
      cases operand with
      | none => exact .bind_ (.pure_ _) fun subject => below.whens subject else_ branches
      | some o =>
          exact .bind_ (.map_ some (below.eval o scope)) fun subject =>
            below.whens subject else_ branches
  | countStar =>
      have reads : Reads (evalStep eng (eng.levels levels) ex .countStar scope) := by
        unfold evalStep
        cases scope.group with
        | none => exact .throw_ _
        | some group => exact .pure_ _
      exact .of_reads reads
  | function name args distinct =>
      by_cases grouped : isAggregate name = true
      · simp only [watchStep, Expr.fixing, evalStep, if_pos grouped]
        exact below.aggregate name args distinct
      · simp only [watchStep, Expr.fixing, evalStep, if_neg grouped]
        exact .bind_ (below.list args) fun values => vouches_call named name values
  | subquery q =>
      refine .bind_ (below.singleColumn q) fun values => ?_
      rcases values with _ | ⟨value, _ | ⟨other, more⟩⟩
      · exact .pure_ _
      · exact .pure_ _
      · exact .throw_ _ _ _
  | not | isNull | between | inList | inSubquery | «exists» | like => exact conditionValue

end Vouched

/-- At every level the watched evaluator vouches for the plain one. -/
theorem vouched_levels (eng : Engine) (named : ∀ s, names.contains s = mentions v s)
    (known : Known ex v) (levels : Nat) :
    Vouched v begun ex (eng.watched names levels) (eng.levels levels) := by
  induction levels with
  | zero => exact ⟨fun _ _ => .throw_ _ _ _, fun _ _ => .throw_ _ _ _, fun _ _ => .throw_ _ _ _⟩
  | succ levels ih =>
      exact ⟨fun e _ => ih.value named known e, fun e _ => ih.condition e,
        fun _ _ => .of_watch fun _ _ stands accepted => stands.accepted named accepted⟩

end Watched

end MockOracle
