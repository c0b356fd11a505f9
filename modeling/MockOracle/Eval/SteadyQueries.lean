import MockOracle.Eval.Drawless
import MockOracle.Eval.ResultTypes

/-!
# Queries without NEXTVAL

A query without NEXTVAL is steady, and it has the same result with more levels at hand. Each row
starts and ends by forgetting the numbers of the row before it, and draws none of its own. So the
engine, to any number of levels, is followed by the engine with more of them.
-/

namespace MockOracle

open Std Semantics

/-! ## Rows without NEXTVAL -/

/-- The operands of an expression without NEXTVAL have none. -/
theorem Expr.Drawless.children {e : Expr} (drawless : e.Drawless) :
    ∀ child ∈ e.children, child.Drawless := by
  cases drawless with
  | literal | bind | column | rowNum | countStar | currval | subquery | «exists» =>
      simp [Expr.children]
  | neg a | not a | isNull a | inSubquery a =>
      simp only [Expr.children, List.mem_singleton, forall_eq]
      exact a
  | binary a b =>
      simp only [Expr.children, List.forall_mem_cons]
      exact ⟨a, b, by simp⟩
  | between a low high =>
      simp only [Expr.children, List.forall_mem_cons]
      exact ⟨a, low, high, by simp⟩
  | inList a list =>
      simp only [Expr.children, List.forall_mem_cons]
      exact ⟨a, list⟩
  | like a pattern escape =>
      simp only [Expr.children, List.forall_mem_cons]
      exact ⟨a, pattern, fun e member => escape e (Option.mem_toList.mp member)⟩
  | «case» operand whens thens otherwise =>
      intro child member
      simp only [Expr.children, List.mem_append, Option.mem_toList, List.mem_flatMap, List.mem_cons,
        List.not_mem_nil, or_false] at member
      rcases member with (first | ⟨w, among, rfl | rfl⟩) | last
      · exact operand child first
      · exact whens w among
      · exact thens w among
      · exact otherwise child last
  | function args => exact args

/-- There is no NEXTVAL to collect in such an expression. -/
theorem nextvalNames_drawless (found : List String) {e : Expr} (drawless : e.Drawless) :
    nextvalNames found e = found := by
  have each : ∀ (children : List { c // c ∈ e.children }), children.foldl
      (fun found c => nextvalNames found c.1) found = found := by
    intro children
    induction children with
    | nil => rfl
    | cons child rest ih =>
        have smaller := Expr.sizeOf_children child.2
        rw [List.foldl_cons, nextvalNames_drawless found (drawless.children child.1 child.2), ih]
  unfold nextvalNames
  cases drawless with
  | literal | bind | column | rowNum | countStar | currval | neg | not | binary | isNull | between
  | inList | inSubquery | «exists» | like | «case» | function | subquery => exact each _
termination_by sizeOf e

/-- There is no NEXTVAL to collect in such expressions. -/
theorem nextvals_drawless {exprs : List Expr} (drawless : ∀ e ∈ exprs, e.Drawless) :
    exprs.foldl nextvalNames [] = [] := by
  induction exprs with
  | nil => rfl
  | cons e rest ih =>
      rw [List.foldl_cons, nextvalNames_drawless [] (drawless e List.mem_cons_self)]
      exact ih fun other member => drawless other (List.mem_cons_of_mem _ member)

section Queries

variable {st : EvalState} {eng : Engine} {self other : Recur} {ex : Ex} {parent : Option Scope}

/-- A row without NEXTVAL draws no numbers: it only forgets those of the row before. -/
theorem rowGuard_drawless {α : Type} {exprs : List Expr} (drawless : ∀ e ∈ exprs, e.Drawless)
    (body : EvalM α) (s : EvalState) : rowGuard ex exprs body s =
      match body s.endRow with
      | .ok a t => .ok a t.endRow
      | .error e t => .error e t.endRow := by
  have started : startRow ex exprs s = .ok () s.endRow := by
    unfold startRow
    rw [nextvals_drawless drawless]
    rfl
  cases ran : body s.endRow with
  | ok a t => simp only [rowGuard, started, ran]
  | error e t => simp only [rowGuard, started, ran]

/-- A row that draws no number starts and ends with none. -/
theorem follows_rowGuard {α : Type} {exprs : List Expr} (drawless : ∀ e ∈ exprs, e.Drawless)
    {body body' : EvalM α} (follows : Follows st.Alike body body') :
    Follows st.Alike (rowGuard ex exprs body) (rowGuard ex exprs body') := by
  have ended : ∀ s : EvalState, st.Alike s → st.Alike s.endRow := fun s alike =>
    ⟨alike.1, s.coherent_endRow⟩
  intro s a s' alike ran
  rw [rowGuard_drawless drawless] at ran
  split at ran
  · next b t bodyRan =>
      cases ran
      obtain ⟨kept, returns⟩ := follows _ _ _ (ended s alike) bodyRan
      refine ⟨ended t kept, fun u held => ?_⟩
      obtain ⟨t', bodyRan', kept'⟩ := returns u.endRow (ended u held)
      refine ⟨t'.endRow, ?_, ended t' kept'⟩
      rw [rowGuard_drawless drawless, bodyRan']
  · cases ran

/-- Filtering follows when the condition does. -/
theorem follows_keepWhere {C : EvalState → Prop} {α : Type} {accept accept' : α → EvalM Bool}
    (each : ∀ a, Follows C (accept a) (accept' a)) (as : List α) :
    Follows C (keepWhere accept as) (keepWhere accept' as) := by
  induction as with
  | nil => exact Follows.pure_ _
  | cons a rest ih =>
      exact Follows.bind_ (each a) fun _ => Follows.bind_ ih fun _ => Follows.pure_ _

/-- Evaluating a list follows when each item does. -/
theorem follows_each {C : EvalState → Prop} {α β : Type} {f g : α → EvalM β} {as : List α}
    (each : ∀ a ∈ as, Follows C (f a) (g a)) : Follows C (forEach f as) (forEach g as) := by
  refine follows_forEach (R := fun a b => a = b ∧ a ∈ as) ?_ (List.forall₂_same.mpr fun a member => ⟨rfl, member⟩)
  rintro a _ ⟨rfl, member⟩
  exact each a member

/-! ## FROM -/

section From

variable (below : Recur.Follows st.Alike self other)
include below

/-- A join follows when its condition draws nothing. -/
theorem follows_join (kind : JoinKind) (left right : Relation) {on : Option Expr}
    (drawless : ∀ e ∈ on, e.Drawless) :
    Follows st.Alike (join self ex parent kind left right on)
      (join other ex parent kind left right on) := by
  refine Follows.bind_ (follows_each fun l _ => follows_keepWhere (fun r => ?_) _) fun _ =>
    Follows.pure_ _
  cases on with
  | none => exact Follows.pure_ _
  | some on => exact Follows.bind_ (below.evalBool (drawless on rfl) ex _) fun _ => Follows.pure_ _

/-- A table or a subquery of a FROM clause follows. -/
theorem follows_tableFactor {factor : TableFactor} (drawless : factor.Drawless) :
    Follows st.Alike (tableFactor self ex parent factor) (tableFactor other ex parent factor) := by
  cases drawless with
  | table name alias_ =>
      simp only [tableFactor]
      split
      · exact Follows.pure_ _
      · split
        · exact Follows.pure_ _
        · exact Follows.throw_ _ _
  | subquery q => exact Follows.bind_ (below.query q ex parent) fun _ => Follows.pure_ _

/-- A join to one table follows. -/
theorem follows_joinOne (kind : JoinKind) (left right : Relation) {on : Option Expr}
    (drawless : ∀ e ∈ on, e.Drawless) :
    Follows st.Alike (joinOne self ex parent kind left right on)
      (joinOne other ex parent kind left right on) := by
  cases kind with
  | cross => exact Follows.pure_ _
  | inner | left | right | full => exact follows_join below _ left right drawless

/-- Joins one after another follow. -/
theorem follows_joinAll {joins : List Join} (drawless : ∀ j ∈ joins, j.Drawless) (left : Relation) :
    Follows st.Alike (joinAll self ex parent left joins) (joinAll other ex parent left joins) := by
  induction joins generalizing left with
  | nil => exact Follows.pure_ _
  | cons j rest ih =>
      obtain ⟨kind, factor, on⟩ := j
      obtain ⟨factorDrawless, onDrawless⟩ := drawless _ List.mem_cons_self
      refine Follows.bind_ (follows_tableFactor below factorDrawless) fun right => ?_
      refine Follows.bind_ (follows_joinOne below kind left right onDrawless) fun joined => ?_
      exact ih (fun other member => drawless other (List.mem_cons_of_mem _ member)) joined

/-- The tables of a FROM clause follow. -/
theorem follows_sourceItems {items : List FromItem} (drawless : ∀ i ∈ items, i.Drawless)
    (source : Option Relation) :
    Follows st.Alike (sourceItems self ex parent source items)
      (sourceItems other ex parent source items) := by
  induction items generalizing source with
  | nil => exact Follows.pure_ _
  | cons item rest ih =>
      obtain ⟨factor, joins⟩ := item
      obtain ⟨factorDrawless, joinsDrawless⟩ := drawless _ List.mem_cons_self
      refine Follows.bind_ (Follows.bind_ (follows_tableFactor below factorDrawless) fun left =>
        follows_joinAll below joinsDrawless left) fun rel => ?_
      exact ih (fun other member => drawless other (List.mem_cons_of_mem _ member)) _

end From

/-! ## SELECT blocks -/

section Block

variable (below : Recur.Follows st.Alike self other)
include below

/-- A condition over a row follows. -/
theorem follows_holds {condition : Option Expr} (drawless : ∀ e ∈ condition, e.Drawless)
    (scope : Scope) :
    Follows st.Alike (holds self ex condition scope) (holds other ex condition scope) := by
  cases condition with
  | none => exact Follows.pure_ _
  | some c => exact Follows.map_ _ (below.evalBool (drawless c rfl) ex scope)

/-- The rows that a WHERE clause accepts follow. -/
theorem follows_acceptRows {cols : List RelCol} {where_ : Option Expr}
    (drawless : ∀ e ∈ where_, e.Drawless) (rows : List Row) (accepted : List (Int × Row)) :
    Follows st.Alike (acceptRows self ex parent cols where_ rows accepted)
      (acceptRows other ex parent cols where_ rows accepted) := by
  induction rows generalizing accepted with
  | nil => exact Follows.pure_ _
  | cons row rest ih =>
      unfold acceptRows
      dsimp only
      split
      · exact Follows.throw_ _ _
      · exact Follows.bind_ (follows_holds below drawless _) fun kept => ih _

/-- The expressions of a row draw nothing. -/
def RowDrawless (items : List (Item × String)) (keys : List SortKey) : Prop :=
  ∀ e ∈ rowExprs items keys, e.Drawless

omit below in
/-- The expressions of a SELECT list draw nothing if its rows do not. -/
theorem RowDrawless.item {items : List (Item × String)} {keys : List SortKey}
    (drawless : RowDrawless items keys) {e : Expr} {name : String}
    (member : (Item.expr e, name) ∈ items) : e.Drawless := by
  refine drawless e (List.mem_append_left _ (List.mem_filterMap.mpr ⟨_, member, rfl⟩))

omit below in
/-- The keys of a row draw nothing if it does not. -/
theorem RowDrawless.key {items : List (Item × String)} {keys : List SortKey}
    (drawless : RowDrawless items keys) {e : Expr} (member : SortKey.expr e ∈ keys) : e.Drawless := by
  refine drawless e (List.mem_append_right _ (List.mem_filterMap.mpr ⟨_, member, rfl⟩))

/-- Computing a row follows. -/
theorem follows_compute {items : List (Item × String)} {keys : List SortKey}
    (drawless : RowDrawless items keys) (scope : Scope) :
    Follows st.Alike (compute self ex items keys scope) (compute other ex items keys scope) := by
  refine follows_rowGuard drawless (Follows.bind_ (follows_each ?_) fun values =>
    Follows.bind_ (follows_each ?_) fun _ => Follows.pure_ _)
  · rintro ⟨item, name⟩ member
    cases item with
    | source i => exact Follows.pure_ _
    | expr e => exact below.eval (drawless.item member) ex scope
  · intro key member
    cases key with
    | output i => exact Follows.pure_ _
    | expr e => exact below.eval (drawless.key member) ex scope

/-- Grouping rows follows. -/
theorem follows_groupRows {cols : List RelCol} {groupBy : List Expr}
    (drawless : ∀ e ∈ groupBy, e.Drawless) (rows : List (Int × Row))
    (groups : List (String × List Row)) :
    Follows st.Alike (groupRows self ex parent cols groupBy rows groups)
      (groupRows other ex parent cols groupBy rows groups) := by
  induction rows generalizing groups with
  | nil => exact Follows.pure_ _
  | cons row rest ih =>
      refine Follows.bind_ (follows_each fun g member => ?_) fun key => ih _
      split
      · exact Follows.throw_ _ _
      · exact below.eval (drawless g member) ex _

/-- Computing the rows of groups follows. -/
theorem follows_computeGroups {cols : List RelCol} {items : List (Item × String)}
    {keys : List SortKey} {having : Option Expr} (drawless : RowDrawless items keys)
    (havingDrawless : ∀ e ∈ having, e.Drawless) (groups : List (List Row × Nat)) :
    Follows st.Alike (computeGroups self ex parent cols items keys having groups)
      (computeGroups other ex parent cols items keys having groups) := by
  induction groups with
  | nil => exact Follows.pure_ _
  | cons group rest ih =>
      refine Follows.bind_ (follows_holds below havingDrawless _) fun kept => ?_
      cases kept with
      | true =>
          refine Follows.bind_ (follows_compute below drawless _) fun row => ?_
          exact Follows.bind_ ih fun _ => Follows.pure_ _
      | false => exact ih

/-- Computing the rows of a SELECT block follows. -/
theorem follows_selectRows {s : Select} (drawless : s.Drawless) {source : Relation}
    {items : List (Item × String)} {keys : List SortKey} (rowDrawless : RowDrawless items keys) :
    Follows st.Alike (selectRows self ex parent s source items keys)
      (selectRows other ex parent s source items keys) := by
  obtain ⟨-, -, whereDrawless, groupDrawless, havingDrawless⟩ := drawless
  refine Follows.bind_ (follows_acceptRows below whereDrawless _ _) fun accepted => ?_
  refine Follows.bind_ ?_ fun _ => Follows.pure_ _
  unfold computeRows
  split
  · split
    · exact Follows.throw_ _ _
    · refine Follows.bind_ ?_ fun groups => follows_computeGroups below rowDrawless havingDrawless _
      unfold groupsOf
      split
      · exact Follows.pure_ _
      · exact follows_groupRows below groupDrawless _ _
  · exact follows_each fun row _ => follows_compute below rowDrawless _

omit below in
/-- The select list and ORDER BY keys of a block draw nothing. -/
theorem rowDrawless_select {cols : List RelCol} {selected : List SelectItem}
    (selectedDrawless : ∀ i ∈ selected, i.Drawless) {orderBy : List OrderItem}
    (orderDrawless : ∀ o ∈ orderBy, o.Drawless) {items : List (Item × String)}
    (expanded : expandItems cols selected = .ok items) {keys : List SortKey}
    (keyed : orderBy.mapM (sortKey items) = .ok keys) : RowDrawless items keys := by
  intro e member
  rcases List.mem_append.mp member with inItems | inKeys
  · obtain ⟨⟨item, name⟩, among, isExpr⟩ := List.mem_filterMap.mp inItems
    cases item with
    | source i => cases isExpr
    | expr found =>
        cases isExpr
        obtain ⟨drawless⟩ := selectedDrawless _ (mem_of_mem_expandItems expanded among)
        exact drawless
  · obtain ⟨key, among, isExpr⟩ := List.mem_filterMap.mp inKeys
    obtain ⟨o, listed, made⟩ := mem_of_mapM_ok keyed among
    obtain ⟨drawless⟩ := orderDrawless o listed
    -- A key that is an expression is that of its ORDER BY item.
    simp only [sortKey, bind, Except.bind, OrderItem.expr] at made
    split at made
    · cases made
    · split at made
      · split at made <;> cases made
        cases isExpr
      · cases made
        cases isExpr
      · cases made
        cases isExpr
        exact drawless

omit below in
/-- Converting a row to the types of its columns is the same in alike states. -/
theorem steady_coerceRow (cols : List RelCol) (row : Row) :
    Steady st.Alike (do EvalM.lift (coerceRow eng.lib.dates (← get).env cols row)) :=
  follows_env (fun env => EvalM.lift (coerceRow eng.lib.dates env cols row)) _
    (fun env rows => by rw [coerceRow_rows]) fun _ => steady_lift _

/-- A SELECT block follows. -/
theorem follows_select {s : Select} (drawless : s.Drawless) {orderBy : List OrderItem}
    (orderDrawless : ∀ o ∈ orderBy, o.Drawless) :
    Follows st.Alike (select eng self ex parent s orderBy) (select eng other ex parent s orderBy) := by
  have itemsDrawless : (∀ i ∈ s.items, i.Drawless) ∧ ∀ f ∈ s.fromItems, f.Drawless := by
    obtain ⟨items, source, -, -, -⟩ := drawless
    exact ⟨items, source⟩
  refine Follows.bind_ (follows_sourceItems below itemsDrawless.2 none) fun source => ?_
  refine Follows.bind_result (steady_lift _) fun items expanded => ?_
  refine Follows.bind_result (steady_lift _) fun keys keyed => ?_
  obtain ⟨s₁, s₁', expanded⟩ := expanded
  obtain ⟨s₂, s₂', keyed⟩ := keyed
  have row := rowDrawless_select itemsDrawless.1 orderDrawless (lift_ok expanded).1 (lift_ok keyed).1
  refine Follows.bind_ (follows_selectRows below drawless row) fun rows => ?_
  refine Follows.bind_ (follows_each fun row _ => ?_) fun _ => Follows.pure_ _
  exact follows_env (fun env => do
    return (← EvalM.lift (coerceRow eng.lib.dates env (resultCols source.cols items rows) row.1),
      row.2)) _ (fun env _ => by rw [coerceRow_rows]) fun _ =>
    Follows.bind_ (steady_lift _) fun _ => Follows.pure_ _

/-! ## Set operations, ordering and paging -/

/-- The body of a query follows. -/
theorem follows_setExpr {body : SetExpr} (drawless : body.Drawless) :
    Follows st.Alike (setExpr eng self ex parent body) (setExpr eng other ex parent body) := by
  cases drawless with
  | select s =>
      exact Follows.bind_ (follows_select below s (by simp)) fun _ => Follows.pure_ _
  | setOp left right =>
      refine Follows.bind_ (follows_setExpr left) fun l => ?_
      refine Follows.bind_ (follows_setExpr right) fun r => ?_
      split
      · exact Follows.throw_ _ _
      · refine Follows.bind_ (steady_lift _) fun cols => ?_
        refine Follows.bind_ (follows_each fun row _ => steady_coerceRow cols row) fun _ => ?_
        exact Follows.pure_ _
termination_by structural body

/-- OFFSET and FETCH follow. -/
theorem follows_limit {e : Option Expr} (drawless : ∀ x ∈ e, x.Drawless) :
    Follows st.Alike (limit self ex parent e) (limit other ex parent e) := by
  cases e with
  | none => exact Follows.pure_ _
  | some e =>
      refine Follows.bind_ (below.eval (drawless e rfl) ex _) fun v => ?_
      refine Follows.bind_ (steady_lift _) fun number => ?_
      cases number <;> exact Follows.pure_ _

/-- A whole query follows. -/
theorem follows_queryStep {q : Query} (drawless : q.Drawless) :
    Follows st.Alike (queryStep eng self ex parent q) (queryStep eng other ex parent q) := by
  obtain ⟨bodyDrawless, orderDrawless, offsetDrawless, fetchDrawless⟩ := drawless
  refine Follows.bind_ ?_ fun result => ?_
  · cases bodyDrawless with
    | select s => exact follows_select below s orderDrawless
    | setOp left right =>
        refine Follows.bind_ (follows_setExpr below (.setOp left right)) fun rel => ?_
        exact Follows.bind_ (steady_lift _) fun _ => Follows.pure_ _
  · refine Follows.bind_ ?_ fun rows => ?_
    · unfold orderRows
      split
      · exact Follows.pure_ _
      · exact Follows.bind_ steady_dateFormat fun _ => steady_lift _
    · refine Follows.bind_ (follows_limit below offsetDrawless) fun offset => ?_
      exact Follows.bind_ (follows_limit below fetchDrawless) fun _ => Follows.pure_ _

end Block

end Queries

/-! ## The engine -/

/-- An expression without NEXTVAL matches itself. -/
theorem Expr.Drawless.matches {e : Expr} (drawless : e.Drawless) :
    Expr.Matches (fun a b => a = b ∧ a.Drawless) e e := by
  have each : ∀ {es : List Expr}, (∀ e ∈ es, e.Drawless) →
      List.Forall₂ (fun a b => a = b ∧ a.Drawless) es es := by
    intro es all
    exact List.forall₂_same.mpr fun e member => ⟨rfl, all e member⟩
  have optional : ∀ {o : Option Expr}, (∀ e ∈ o, e.Drawless) →
      Option.Rel (fun a b => a = b ∧ a.Drawless) o o := by
    intro o all
    cases o with
    | none => exact .none
    | some e => exact .some ⟨rfl, all e rfl⟩
  cases drawless with
  | literal v => exact .literal v
  | bind i => exact .bind i
  | column table name => exact .column table name
  | rowNum => exact .rowNum
  | countStar => exact .countStar
  | currval name => exact .currval name
  | neg a => exact .neg ⟨rfl, a⟩
  | not a => exact .not ⟨rfl, a⟩
  | binary a b => exact .binary ⟨rfl, a⟩ ⟨rfl, b⟩
  | isNull a => exact .isNull ⟨rfl, a⟩
  | between a low high => exact .between ⟨rfl, a⟩ ⟨rfl, low⟩ ⟨rfl, high⟩
  | inList a list => exact .inList ⟨rfl, a⟩ (each list)
  | inSubquery a q => exact .inSubquery ⟨rfl, a⟩ q
  | «exists» q => exact .exists q
  | like a pattern escape => exact .like ⟨rfl, a⟩ ⟨rfl, pattern⟩ (optional escape)
  | «case» operand whens thens otherwise =>
      exact .case (optional operand) (List.forall₂_same.mpr fun w member => ⟨rfl, whens w member⟩)
        (List.forall₂_same.mpr fun w member => ⟨rfl, thens w member⟩) (optional otherwise)
  | function args => exact .function (each args)
  | subquery q => exact .subquery q

variable {st : EvalState} {eng : Engine}

/-- What the engine gives for an expression or a query without NEXTVAL, it gives from every state
that is alike, and with more levels at hand. -/
theorem follows_levels (quiet : eng.Quiet st) (n more : Nat) :
    Recur.Follows st.Alike (eng.levels n) (eng.levels (n + more)) := by
  induction n with
  | zero =>
      exact ⟨fun _ _ _ => Follows.throw_ _ _, fun _ _ _ => Follows.throw_ _ _,
        fun _ _ _ => Follows.throw_ _ _⟩
  | succ n below =>
      have operands : ∀ ex, Operands st.Alike ex (eng.levels n) (eng.levels (n + more))
          (fun _ a b => a = b ∧ a.Drawless) := by
        refine fun ex => ⟨?_, ?_, fun related _ _ => related⟩
        · rintro scope a _ ⟨rfl, drawless⟩
          exact below.eval drawless ex scope
        · rintro scope a _ ⟨rfl, drawless⟩
          exact below.evalBool drawless ex scope
      rw [Nat.add_right_comm]
      exact ⟨fun drawless ex _ => (operands ex).value quiet below ⟨rfl, drawless⟩ drawless.matches,
        fun drawless ex _ => (operands ex).condition below ⟨rfl, drawless⟩ drawless.matches,
        fun drawless _ _ => follows_queryStep below drawless⟩

/-- An expression without NEXTVAL is steady. -/
theorem steady_levels (quiet : eng.Quiet st) (n : Nat) :
    Recur.Follows st.Alike (eng.levels n) (eng.levels n) := follows_levels quiet n 0

end MockOracle
