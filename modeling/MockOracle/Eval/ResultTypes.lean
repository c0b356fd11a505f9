import MockOracle.Eval.Measured

/-!
# The types of result columns

A result column has the declared type of its expression, or one read off the data. Where every
value that a SELECT block computes under a declared type comes from where the type does or is one
the type takes, and the columns without one have data their type may be read off, the block's
rows keep what its columns promise; set operations and inline views pass this on.
-/

namespace MockOracle

variable {eng : Engine}

/-- In this run of a SELECT block, what its columns promise holds of what it computes: each value
of an expression with a declared type comes from where the type does or is one the type takes, and
the values of an expression without one are such that a type may be read off them. -/
def Select.Meets (p : TypePromise eng.lib.dates) (ex : Ex) (parent : Option Scope) (n : Nat)
    (s : Select) (orderBy : List OrderItem) (st : EvalState) : Prop :=
  ∀ source st₁ items keys accepted st₂ rows st₃,
    sourceItems (eng.levels n) ex parent none s.fromItems st = .ok source st₁ →
    expandItems source.cols s.items = .ok items → orderBy.mapM (sortKey items) = .ok keys →
    acceptRows (eng.levels n) ex parent source.cols s.where_ source.rows [] st₁ = .ok accepted st₂ →
    selectRows (eng.levels n) ex parent s source items keys st₁ = .ok rows st₃ →
    ∀ i e name, items[i]? = some (.expr e, name) →
      match staticType source.cols e with
      | some t => p.free t ∨
          ∀ row ∈ rowRuns (eng.levels n) ex parent s source.cols items keys accepted st₂,
          ∀ st₄, (itemRuns (eng.levels n) ex items keys row)[i]? = some ((.expr e, name), st₄) →
          ∀ v st₅, (eng.levels n).eval ex e row.1 st₄ = .ok v st₅ →
            Kept eng ex (p.Takes st₃.env t) n e row.1 st₄ v
      | none => p.data st₃.env (rows.map fun row => row.1.getD i .null)

/-- Every SELECT block that a query runs for its result, its own and those of its inline views,
meets what its columns promise. -/
def Query.Meets (p : TypePromise eng.lib.dates) (ex : Ex) (parent : Option Scope) :
    Nat → Query → EvalState → Prop
  | 0, _, _ => True
  | n + 1, .mk body orderBy _ _, st =>
      ∀ run ∈ bodyRuns eng (eng.levels n) ex parent orderBy body st,
        run.1.Meets p ex parent n run.2.1 run.2.2 ∧
          ∀ view ∈ sourceRuns (eng.levels n) ex parent run.1.fromItems run.2.2,
            Query.Meets p ex parent n view.1 view.2

/-! ## SELECT blocks -/

section Block

variable {p : TypePromise eng.lib.dates} {ex : Ex} {parent : Option Scope} {cols : List RelCol}
  {n : Nat} {st st' : EvalState}

theorem mem_of_mem_acceptRows {where_ : Option Expr} {rows : List Row}
    {accepted result : List (Int × Row)}
    (success : acceptRows (eng.levels n) ex parent cols where_ rows accepted st = .ok result st')
    {entry : Int × Row} (member : entry ∈ result) : entry ∈ accepted ∨ entry.2 ∈ rows := by
  induction rows generalizing accepted st with
  | nil =>
      rw [(pure_ok success).1] at member
      exact Or.inl member
  | cons row rest ih =>
      unfold acceptRows at success
      simp only at success
      split at success
      · obtain ⟨_, _, thrown, _⟩ := bind_ok success
        cases thrown
      · obtain ⟨kept, _, _, success⟩ := bind_ok success
        rcases ih success with earlier | later
        · split at earlier
          · rcases List.mem_append.mp earlier with before | now
            · exact Or.inl before
            · rw [List.mem_singleton.mp now]
              exact Or.inr List.mem_cons_self
          · exact Or.inl earlier
        · exact Or.inr (List.mem_cons_of_mem _ later)

theorem mem_of_mem_addToGroup {key : String} {row r : Row} {groups : List (String × List Row)}
    {group : String × List Row} (member : group ∈ addToGroup key row groups) (inGroup : r ∈ group.2) :
    r = row ∨ ∃ before ∈ groups, r ∈ before.2 := by
  induction groups with
  | nil =>
      rw [List.mem_singleton.mp member] at inGroup
      exact Or.inl (List.mem_singleton.mp inGroup)
  | cons first rest ih =>
      obtain ⟨k, rows⟩ := first
      unfold addToGroup at member
      split at member
      · rcases List.mem_cons.mp member with rfl | later
        · rcases List.mem_append.mp inGroup with old | new
          · exact Or.inr ⟨(k, rows), List.mem_cons_self, old⟩
          · exact Or.inl (List.mem_singleton.mp new)
        · exact Or.inr ⟨group, List.mem_cons_of_mem _ later, inGroup⟩
      · rcases List.mem_cons.mp member with rfl | later
        · exact Or.inr ⟨(k, rows), List.mem_cons_self, inGroup⟩
        · rcases ih later with same | ⟨before, among, old⟩
          · exact Or.inl same
          · exact Or.inr ⟨before, List.mem_cons_of_mem _ among, old⟩

theorem mem_of_mem_groupRows {groupBy : List Expr} {accepted : List (Int × Row)}
    {groups : List (String × List Row)} {result : List (List Row)}
    (success : groupRows (eng.levels n) ex parent cols groupBy accepted groups st =
      .ok result st') {rows : List Row} (member : rows ∈ result) {r : Row} (inGroup : r ∈ rows) :
    (∃ before ∈ groups, r ∈ before.2) ∨ r ∈ accepted.map Prod.snd := by
  induction accepted generalizing groups st with
  | nil =>
      rw [(pure_ok success).1] at member
      obtain ⟨group, among, rfl⟩ := List.mem_map.mp member
      exact Or.inl ⟨group, among, inGroup⟩
  | cons entry rest ih =>
      obtain ⟨rownum, row⟩ := entry
      obtain ⟨key, _, _, success⟩ := bind_ok success
      rcases ih success with ⟨group, among, old⟩ | later
      · rcases mem_of_mem_addToGroup among old with rfl | earlier
        · exact Or.inr List.mem_cons_self
        · exact Or.inl earlier
      · exact Or.inr (List.mem_cons_of_mem _ later)

theorem mem_of_mem_groupsOf {s : Select} {accepted : List (Int × Row)} {result : List (List Row)}
    (success : groupsOf (eng.levels n) ex parent s cols accepted st = .ok result st')
    {rows : List Row} (member : rows ∈ result) {r : Row} (inGroup : r ∈ rows) :
    r ∈ accepted.map Prod.snd := by
  unfold groupsOf at success
  split at success
  · rw [(pure_ok success).1] at member
    exact List.mem_singleton.mp member ▸ inGroup
  · rcases mem_of_mem_groupRows success member inGroup with ⟨_, none_, _⟩ | among
    · simp at none_
    · exact among

/-- The groups a block computes rows for are over rows that keep what the columns promise. -/
theorem within_groupRuns {items : List (Item × String)} {keys : List SortKey}
    {having : Option Expr} {groups : List (List Row × Nat)}
    (kept : ∀ group ∈ groups, ∀ r ∈ group.1, p.RowKeeps cols r) {run : Scope × EvalState}
    (member : run ∈ groupRuns (eng.levels n) ex parent cols items keys having groups st) :
    run.1.Within p cols parent := by
  induction groups generalizing st with
  | nil => cases member
  | cons group groups ih =>
      obtain ⟨group, number⟩ := group
      obtain ⟨here, later⟩ := List.forall_mem_cons.mp kept
      have first : p.RowKeeps cols (group.head?.getD (List.replicate cols.length .null)) := by
        cases group with
        | nil => exact TypePromise.rowKeeps_nulls cols
        | cons r _ => exact here r List.mem_cons_self
      unfold groupRuns at member
      obtain ⟨accepted, middle, _, member⟩ := mem_after member
      split at member
      · rcases List.mem_cons.mp member with rfl | member
        · refine .mk first fun rows equal => ?_
          cases equal
          exact here
        · obtain ⟨_, _, _, member⟩ := mem_after member
          exact ih later member
      · exact ih later member

/-- Every row a block computes is over rows that keep what the columns promise. -/
theorem within_rowRuns {s : Select} {source : Relation} {items : List (Item × String)}
    {keys : List SortKey} {accepted : List (Int × Row)} {st₁ : EvalState}
    (kept : p.Keeps source)
    (filtered : acceptRows (eng.levels n) ex parent source.cols s.where_ source.rows [] st =
      .ok accepted st₁) {run : Scope × EvalState}
    (member : run ∈ rowRuns (eng.levels n) ex parent s source.cols items keys accepted st₁) :
    run.1.Within p source.cols parent := by
  have own : ∀ entry ∈ accepted, p.RowKeeps source.cols entry.2 := by
    intro entry among
    rcases mem_of_mem_acceptRows filtered among with none_ | listed
    · cases none_
    · exact kept _ listed
  unfold rowRuns at member
  split at member
  · obtain ⟨groups, middle, grouped, member⟩ := mem_after member
    refine within_groupRuns (fun group among r inGroup => ?_) member
    have listed := (List.mem_zipIdx' among).2 ▸ List.getElem_mem _
    obtain ⟨entry, accepted, rfl⟩ := List.mem_map.mp (mem_of_mem_groupsOf grouped listed inGroup)
    exact own entry accepted
  · obtain ⟨visit, among, rfl⟩ := List.mem_map.mp member
    exact .mk (own visit.1 (mem_of_mem_visits among)) fun _ none_ => by cases none_

theorem map_ok {α β : Type} {f : α → β} {result : Except OraError α} {b : β}
    (success : f <$> result = .ok b) : ∃ a, result = .ok a ∧ b = f a := by
  cases result with
  | error e => cases success
  | ok a =>
      cases success
      exact ⟨a, rfl, rfl⟩

theorem mem_of_mapM_ok {α β : Type} {f : α → Except OraError β} {as : List α} {bs : List β}
    (success : as.mapM f = .ok bs) {b : β} (member : b ∈ bs) : ∃ a ∈ as, f a = .ok b := by
  induction as generalizing bs with
  | nil =>
      cases success
      cases member
  | cons first rest ih =>
      simp only [List.mapM_cons, bind, Except.bind] at success
      split at success
      · cases success
      · next mapped =>
          split at success
          · cases success
          · next others =>
              cases success
              rcases List.mem_cons.mp member with rfl | later
              · exact ⟨first, List.mem_cons_self, mapped⟩
              · obtain ⟨a, among, equal⟩ := ih others later
                exact ⟨a, List.mem_cons_of_mem _ among, equal⟩

/-- The items of a select list that are expressions stand in it. -/
theorem mem_of_mem_expandItems {items : List SelectItem} {expanded : List (Item × String)}
    (success : expandItems cols items = .ok expanded) {e : Expr} {name : String}
    (member : (Item.expr e, name) ∈ expanded) : SelectItem.expr e name ∈ items := by
  unfold expandItems at success
  obtain ⟨lists, mapped, rfl⟩ := map_ok success
  obtain ⟨list, among, inList⟩ := List.mem_flatten.mp member
  obtain ⟨item, listed, made⟩ := mem_of_mapM_ok mapped among
  have stars : ∀ keep, (Item.expr e, name) ∉ starItems cols keep := by
    intro keep absurd_
    obtain ⟨_, _, equal⟩ := List.mem_map.mp absurd_
    cases equal
  cases item with
  | star =>
      cases made
      exact absurd inList (stars _)
  | qualifiedStar t =>
      simp only [expandItem] at made
      split at made
      · cases made
      · cases made
        exact absurd inList (stars _)
  | expr other label =>
      cases made
      cases List.mem_singleton.mp inList
      exact listed

/-- A computed row of a block, with the run that computed it. -/
theorem selectRows_runs {s : Select} {source : Relation} {items : List (Item × String)}
    {keys : List SortKey} {rows : KeyedRows}
    (success : selectRows (eng.levels n) ex parent s source items keys st = .ok rows st') :
    ∃ accepted st₁,
      acceptRows (eng.levels n) ex parent source.cols s.where_ source.rows [] st = .ok accepted st₁ ∧
      ∀ row ∈ rows, ∃ run ∈ rowRuns (eng.levels n) ex parent s source.cols items keys accepted st₁,
        ∃ later, compute (eng.levels n) ex items keys run.1 run.2 = .ok row later := by
  obtain ⟨accepted, st₁, filtered, success⟩ := bind_ok success
  obtain ⟨out, _, computed, last⟩ := bind_ok success
  refine ⟨accepted, st₁, filtered, fun row member => ?_⟩
  rw [(pure_ok last).1] at member
  have among : row ∈ out := by
    split at member
    · exact mem_of_mem_distinctBy member
    · exact member
  exact computeRows_runs computed among

/-- The value of an item and the run that gave it. -/
theorem item_runs {items : List (Item × String)} {keys : List SortKey} {scope : Scope}
    {row : Row × Row} {i : Nat} {item : Item × String}
    (success : compute (eng.levels n) ex items keys scope st = .ok row st')
    (found : items[i]? = some item) :
    ∃ st₁ later, (itemRuns (eng.levels n) ex items keys (scope, st))[i]? = some (item, st₁) ∧
      evalItem (eng.levels n) ex scope item st₁ = .ok (row.1.getD i .null) later := by
  obtain ⟨elements, results⟩ := compute_runs success
  have run : ((itemRuns (eng.levels n) ex items keys (scope, st)).map Prod.fst)[i]? = some item := by
    rw [elements]
    exact found
  rw [List.getElem?_map] at run
  obtain ⟨visit, at_, rfl⟩ := Option.map_eq_some_iff.mp run
  obtain ⟨short, here⟩ := List.getElem?_eq_some_iff.mp at_
  have wide : i < row.1.length := results.length_eq ▸ short
  obtain ⟨later, evaluated⟩ := results.get short wide
  refine ⟨visit.2, later, at_, ?_⟩
  rw [List.getD_eq_getElem?_getD, List.getElem?_eq_getElem wide, Option.getD_some]
  simpa [here] using evaluated

/-- The column of an item takes the item's values. -/
theorem takes_itemType {s : Select} {orderBy : List OrderItem} {source : Relation}
    {items : List (Item × String)} {keys : List SortKey} {rows : KeyedRows} {st₁ st₂ : EvalState}
    (meets : s.Meets p ex parent n orderBy st) (kept : p.Keeps source)
    (sourced : sourceItems (eng.levels n) ex parent none s.fromItems st = .ok source st₁)
    (expanded : expandItems source.cols s.items = .ok items)
    (ordered : orderBy.mapM (sortKey items) = .ok keys)
    (selected : selectRows (eng.levels n) ex parent s source items keys st₁ = .ok rows st₂)
    {row : Row × Row} (member : row ∈ rows) {i : Nat} {item : Item} {name : String}
    (found : items[i]? = some (item, name)) :
    p.Takes st₂.env (itemType source.cols item (rows.map fun row => row.1.getD i .null))
      (row.1.getD i .null) := by
  obtain ⟨accepted, middle, filtered, runs⟩ := selectRows_runs selected
  obtain ⟨run, among, later, computed⟩ := runs row member
  obtain ⟨st₃, after, at_, evaluated⟩ := item_runs computed found
  have within := within_rowRuns kept filtered among
  have listed : row.1.getD i .null ∈ rows.map fun row => row.1.getD i .null :=
    List.mem_map_of_mem (f := fun row : Row × Row => row.1.getD i .null) member
  cases item with
  | source j =>
      have own : p.RowKeeps source.cols run.1.values := by
        obtain ⟨scope, before⟩ := run
        obtain ⟨own, -⟩ := within
        exact own
      rw [(pure_ok evaluated).1]
      intro w coerced
      cases column : source.cols[j]? with
      | some c =>
          simp only [itemType, column, Option.map_some, inferType] at coerced ⊢
          exact p.stable (own.getD column) coerced
      | none =>
          have short : run.1.values[j]? = none := by
            rw [List.getElem?_eq_none_iff, ← own.length_eq]
            exact List.getElem?_eq_none_iff.mp column
          rw [List.getD_eq_getElem?_getD, short, Option.getD_none, coerceValue_null] at coerced
          cases coerced
          exact TypePromise.keeps_null _
  | expr e =>
      have own := meets source st₁ items keys accepted middle rows st₂ sourced expanded ordered
        filtered selected i e name found
      cases declared : staticType source.cols e with
      | some t =>
          simp only [declared] at own
          simp only [itemType, declared]
          rcases own with free | comes
          · exact fun w coerced => p.of_free free coerced
          · exact (comes run among st₃ at_ _ after evaluated).takes declared within evaluated
      | none =>
          simp only [declared] at own
          simp only [itemType, declared]
          exact fun w coerced => p.of_data own listed coerced

/-- A pass that changes nothing evaluates every element in the state it starts in. -/
theorem forEach_reads {α β : Type} {f : α → EvalM β} (reads : ∀ a st b st', f a st = .ok b st' → st' = st)
    {as : List α} {bs : List β} (success : forEach f as st = .ok bs st') {b : β} (member : b ∈ bs) :
    ∃ a ∈ as, f a st = .ok b st := by
  induction as generalizing st' bs with
  | nil =>
      rw [(pure_ok success).1] at member
      cases member
  | cons a rest ih =>
      obtain ⟨first, middle, evaluated, later⟩ := bind_ok success
      obtain rfl := reads a st first middle evaluated
      obtain ⟨others, _, restOk, last⟩ := bind_ok later
      rw [(pure_ok last).1] at member
      rcases List.mem_cons.mp member with rfl | inRest
      · exact ⟨a, List.mem_cons_self, evaluated⟩
      · obtain ⟨other, among, found⟩ := ih restOk inRest
        exact ⟨other, List.mem_cons_of_mem _ among, found⟩

/-- The rows of a block are its computed rows converted in the session it ends in. -/
theorem coerceRows_ok {rows out : KeyedRows} (success : coerceRows eng cols rows st = .ok out st')
    {row : Row × Row} (member : row ∈ out) :
    ∃ before ∈ rows, coerceRow eng.lib.dates st.env cols before.1 = .ok row.1 := by
  have reads : ∀ (a : Row × Row) st b st', (do
      return (← EvalM.lift (coerceRow eng.lib.dates (← get).env cols a.1), a.2) : EvalM (Row × Row))
      st = .ok b st' → st' = st := by
    intro a st b st' one
    obtain ⟨_, _, got, one⟩ := bind_ok one
    cases got
    obtain ⟨_, _, lifted, last⟩ := bind_ok one
    exact (pure_ok last).2.trans (lift_ok lifted).2
  obtain ⟨before, among, one⟩ := forEach_reads reads success member
  obtain ⟨_, _, got, one⟩ := bind_ok one
  cases got
  obtain ⟨values, _, lifted, last⟩ := bind_ok one
  rw [(pure_ok last).1]
  exact ⟨before, among, (lift_ok lifted).1⟩

/-- The rows of a block that meets what its columns promise keep it. -/
theorem keeps_select {s : Select} {orderBy : List OrderItem} {result : List RelCol × KeyedRows}
    (conforms : ex.cat.Conforms eng.lib.dates) (meets : s.Meets p ex parent n orderBy st)
    (views : p.ViewsKeep (eng.levels n) ex parent
      (sourceRuns (eng.levels n) ex parent s.fromItems st))
    (success : select eng (eng.levels n) ex parent s orderBy st = .ok result st') :
    ∀ row ∈ result.2, p.RowKeeps result.1 row.1 := by
  obtain ⟨source, st₁, sourced, success⟩ := bind_ok success
  obtain ⟨items, _, expanded, success⟩ := bind_ok success
  obtain ⟨expanded, same⟩ := lift_ok expanded
  obtain ⟨keys, _, ordered, success⟩ := bind_ok success
  obtain ⟨ordered, same'⟩ := lift_ok ordered
  obtain ⟨rows, st₂, selected, success⟩ := bind_ok success
  rw [same', same] at selected
  obtain ⟨coerced, _, converted, last⟩ := bind_ok success
  rw [(pure_ok last).1]
  have kept : p.Keeps source :=
    TypePromise.keeps_sourceItems conforms (fun _ none_ => by cases none_) views sourced
  intro row member
  obtain ⟨before, among, result⟩ := coerceRows_ok converted member
  have wide := length_selectRows selected before among
  refine TypePromise.rowKeeps_coerceRow result ?_
  refine List.forall₂_iff_get.mpr ⟨by simp [resultCols, wide], fun i inCols inRow => ?_⟩
  have inItems : i < items.length := wide ▸ inRow
  have takes := takes_itemType meets kept sourced expanded ordered selected among
    (List.getElem?_eq_getElem inItems)
  simp only [resultCols, List.get_eq_getElem, List.getElem_map, List.getElem_zipIdx, Nat.zero_add]
  rw [List.getD_eq_getElem?_getD, List.getElem?_eq_getElem inRow, Option.getD_some] at takes
  exact takes

/-! ## Set operations -/

/-- The common columns of a set operation take the rows of both sides. -/
theorem takes_unionCols {env : Env} {left right united : List RelCol} {row : Row}
    (success : unionCols left right = .ok united) (same : left.length = right.length)
    (kept : p.RowKeeps left row ∨ p.RowKeeps right row) :
    List.Forall₂ (fun c v => p.Takes env c.sqlType v) united row := by
  induction left generalizing right united row with
  | nil =>
      cases success
      have empty : right = [] := List.eq_nil_of_length_eq_zero same.symm
      rcases kept with first | second
      · cases first
        exact .nil
      · rw [empty] at second
        cases second
        exact .nil
  | cons a left ih =>
      cases right with
      | nil => simp at same
      | cons b right =>
          simp only [unionCols, bind, Except.bind, pure, Except.pure] at success
          split at success
          · cases success
          · next first =>
              split at success
              · cases success
              · next rest =>
                  cases success
                  have tails : left.length = right.length := by simpa using same
                  rcases kept with inLeft | inRight
                  · obtain _ | ⟨head, tail⟩ := inLeft
                    exact .cons (fun w coerced => p.union first (Or.inl head) coerced)
                      (ih rest tails (Or.inl tail))
                  · obtain _ | ⟨head, tail⟩ := inRight
                    exact .cons (fun w coerced => p.union first (Or.inr head) coerced)
                      (ih rest tails (Or.inr tail))

/-- Blocks meet what their columns promise, and so do the inline views they run. -/
def RunsMeet (p : TypePromise eng.lib.dates) (ex : Ex) (parent : Option Scope) (n : Nat)
    (runs : List (Select × List OrderItem × EvalState)) : Prop :=
  ∀ run ∈ runs, run.1.Meets p ex parent n run.2.1 run.2.2 ∧
    p.ViewsKeep (eng.levels n) ex parent
      (sourceRuns (eng.levels n) ex parent run.1.fromItems run.2.2)

theorem keeps_setExpr (conforms : ex.cat.Conforms eng.lib.dates) (body : SetExpr)
    {st st' : EvalState} {rel : Relation}
    (meets : RunsMeet p ex parent n
      ((setRuns eng (eng.levels n) ex parent body st).map fun run => (run.1, [], run.2)))
    (success : setExpr eng (eng.levels n) ex parent body st = .ok rel st') : p.Keeps rel := by
  cases body with
  | select s =>
      obtain ⟨result, _, selected, last⟩ := bind_ok success
      rw [(pure_ok last).1]
      intro row member
      obtain ⟨keyed, among, rfl⟩ := List.mem_map.mp member
      obtain ⟨own, views⟩ := meets (s, [], st) (List.mem_singleton_self _)
      exact keeps_select conforms own views selected keyed among
  | setOp op left right =>
      obtain ⟨l, middle, first, success⟩ := bind_ok success
      obtain ⟨r, _, second, success⟩ := bind_ok success
      rw [setRuns, after_ok first, List.map_append] at meets
      have keepsLeft := keeps_setExpr conforms left
        (fun run member => meets run (List.mem_append_left _ member)) first
      have keepsRight := keeps_setExpr conforms right
        (fun run member => meets run (List.mem_append_right _ member)) second
      split at success
      · obtain ⟨_, _, thrown, _⟩ := bind_ok success
        cases thrown
      · next same =>
          obtain ⟨cols, _, united, success⟩ := bind_ok success
          obtain ⟨rows, _, converted, last⟩ := bind_ok success
          rw [(pure_ok last).1]
          intro row member
          obtain ⟨before, among, _, _, one⟩ := forEach_mem converted member
          obtain ⟨_, _, got, lifted⟩ := bind_ok one
          refine TypePromise.rowKeeps_coerceRow (lift_ok lifted).1 ?_
          refine takes_unionCols (lift_ok united).1 (not_not.mp same) ?_
          exact (mem_of_mem_unionRows among).imp (keepsLeft before) (keepsRight before)
termination_by structural body

theorem keeps_queryBody (conforms : ex.cat.Conforms eng.lib.dates) {orderBy : List OrderItem}
    {body : SetExpr} {result : List RelCol × KeyedRows}
    (meets : RunsMeet p ex parent n (bodyRuns eng (eng.levels n) ex parent orderBy body st))
    (success : queryBody eng (eng.levels n) ex parent orderBy body st = .ok result st') :
    ∀ row ∈ result.2, p.RowKeeps result.1 row.1 := by
  cases body with
  | select s =>
      obtain ⟨own, views⟩ := meets (s, orderBy, st) (List.mem_singleton_self _)
      exact keeps_select conforms own views success
  | setOp op left right =>
      obtain ⟨rel, _, evaluated, success⟩ := bind_ok success
      obtain ⟨keys, _, _, last⟩ := bind_ok success
      rw [(pure_ok last).1]
      intro row member
      obtain ⟨values, among, rfl⟩ := List.mem_map.mp member
      exact keeps_setExpr conforms _ meets evaluated values among

end Block

/-! ## Queries -/

/-- The result of a query whose blocks meet what their columns promise keeps what its own
promise. -/
theorem keeps_query {p : TypePromise eng.lib.dates} {ex : Ex} {parent : Option Scope}
    (conforms : ex.cat.Conforms eng.lib.dates) (n : Nat) {q : Query} {st st' : EvalState}
    {rel : Relation} (meets : q.Meets p ex parent n st)
    (success : (eng.levels n).query ex q parent st = .ok rel st') : p.Keeps rel := by
  induction n generalizing q st st' rel with
  | zero => cases success
  | succ n ih =>
      obtain ⟨body, orderBy, offset, fetch⟩ := q
      obtain ⟨rows, middle, evaluated, among⟩ := queryStep_ok success
      have runs : RunsMeet p ex parent n (bodyRuns eng (eng.levels n) ex parent orderBy body st) :=
        fun run member => ⟨(meets run member).1, fun view inFrom rel st' queried =>
          ih ((meets run member).2 view inFrom) queried⟩
      intro row member
      obtain ⟨keyed, listed, rfl⟩ := among row member
      exact keeps_queryBody conforms runs evaluated keyed listed

end MockOracle
