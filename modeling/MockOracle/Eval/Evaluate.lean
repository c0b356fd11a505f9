import MockOracle.Eval.Select

/-!
# The engine as an evaluator

Every row a query returns has one value for each column, which is what statements rely on. So
the engine, to any number of levels, is an `Evaluator`.
-/

namespace MockOracle

/-! ## Lists of rows -/

/-- DISTINCT keeps only rows that are there. -/
theorem mem_of_mem_distinctBy {α : Type} {key : α → String} {rows : List α} {row : α}
    (member : row ∈ distinctBy key rows) : row ∈ rows := by
  have kept : ∀ (rows : List α) (acc : List α × List String),
      row ∈ (rows.foldl (fun acc row => if acc.2.contains (key row) then acc
        else (acc.1 ++ [row], key row :: acc.2)) acc).1 → row ∈ acc.1 ∨ row ∈ rows := by
    intro rows
    induction rows with
    | nil => exact fun acc member => Or.inl member
    | cons first rest ih =>
        intro acc member
        rcases ih _ member with here | later
        · dsimp only at here
          split at here
          · exact Or.inl here
          · rcases List.mem_append.mp here with before | now
            · exact Or.inl before
            · exact Or.inr (List.mem_cons.mpr (Or.inl (List.mem_singleton.mp now)))
        · exact Or.inr (List.mem_cons_of_mem _ later)
  rcases kept rows ([], []) member with none_ | among
  · simp at none_
  · exact among

/-- A loop gives one result for each member. -/
theorem length_forEach {α β : Type} {f : α → EvalM β} {as : List α} {bs : List β}
    {st st' : EvalState} (success : forEach f as st = .ok bs st') : bs.length = as.length :=
  (forEach_ok success).length_eq.symm

/-- Coercing a row keeps its width. -/
theorem length_coerceRow {dates : DateFormats} {env : Env} {cols : List RelCol} {row result : Row}
    (coerced : coerceRow dates env cols row = .ok result) (wide : row.length = cols.length) :
    result.length = cols.length := by
  induction cols generalizing row result with
  | nil =>
      cases coerced
      rfl
  | cons c cols ih =>
      cases row with
      | nil => simp at wide
      | cons v row =>
          simp only [coerceRow, bind, Except.bind, pure, Except.pure] at coerced
          split at coerced
          · cases coerced
          · split at coerced
            · cases coerced
            · next rest =>
                cases coerced
                rw [List.length_cons, ih rest (by simpa using wide), List.length_cons]

/-! ## SELECT blocks -/

section Rectangular

variable {eng : Engine} {self : Recur} {ex : Ex} {parent : Option Scope} {st st' : EvalState}

/-- A guarded row is what its body computes. -/
theorem rowGuard_ok {α : Type} {exprs : List Expr} {body : EvalM α} {a : α}
    (success : rowGuard ex exprs body st = .ok a st') :
    ∃ middle after, body middle = .ok a after := by
  unfold rowGuard at success
  split at success
  · cases success
  · next middle _ =>
      split at success
      · next a' after equal =>
          cases success
          exact ⟨middle, after, equal⟩
      · cases success

/-- A computed row has one value for each item. -/
theorem length_compute {items : List (Item × String)} {keys : List SortKey} {scope : Scope}
    {row : Row × Row} (success : compute self ex items keys scope st = .ok row st') :
    row.1.length = items.length := by
  obtain ⟨middle, after, body⟩ := rowGuard_ok success
  obtain ⟨values, _, evaluated, rest⟩ := bind_ok body
  obtain ⟨keyValues, _, _, last⟩ := bind_ok rest
  rw [(pure_ok last).1]
  exact length_forEach evaluated

/-- Every computed group has one value for each item. -/
theorem length_computeGroups {cols : List RelCol} {items : List (Item × String)}
    {keys : List SortKey} {having : Option Expr} {groups : List (List Row × Nat)}
    {rows : KeyedRows}
    (success : computeGroups self ex parent cols items keys having groups st = .ok rows st') :
    ∀ row ∈ rows, row.1.length = items.length := by
  induction groups generalizing st st' rows with
  | nil =>
      rw [(pure_ok success).1]
      simp
  | cons group groups ih =>
      obtain ⟨group, n⟩ := group
      unfold computeGroups at success
      obtain ⟨kept, _, _, success⟩ := bind_ok success
      split at success
      · obtain ⟨row, _, computed, success⟩ := bind_ok success
        obtain ⟨rest, _, others, last⟩ := bind_ok success
        rw [(pure_ok last).1, List.forall_mem_cons]
        exact ⟨length_compute computed, ih others⟩
      · exact ih success

/-- Every selected row has one value for each item. -/
theorem length_selectRows {s : Select} {source : Relation} {items : List (Item × String)}
    {keys : List SortKey} {rows : KeyedRows}
    (success : selectRows self ex parent s source items keys st = .ok rows st') :
    ∀ row ∈ rows, row.1.length = items.length := by
  obtain ⟨accepted, st₁, _, success⟩ := bind_ok success
  obtain ⟨out, st₂, computed, last⟩ := bind_ok success
  have wide : ∀ row ∈ out, row.1.length = items.length := by
    unfold computeRows at computed
    split at computed
    · split at computed
      · cases computed
      · obtain ⟨groups, _, _, computed⟩ := bind_ok computed
        exact length_computeGroups computed
    · intro row member
      obtain ⟨_, _, before, after, one⟩ := forEach_mem computed member
      exact length_compute one
  rw [(pure_ok last).1]
  split
  · exact fun row member => wide row (mem_of_mem_distinctBy member)
  · exact wide

/-- Every row of a SELECT has one value for each column. -/
theorem length_select {s : Select} {orderBy : List OrderItem} {result : List RelCol × KeyedRows}
    (success : select eng self ex parent s orderBy st = .ok result st') :
    ∀ row ∈ result.2, row.1.length = result.1.length := by
  obtain ⟨source, _, _, success⟩ := bind_ok success
  obtain ⟨items, _, _, success⟩ := bind_ok success
  obtain ⟨keys, _, _, success⟩ := bind_ok success
  obtain ⟨rows, _, selected, success⟩ := bind_ok success
  obtain ⟨coerced, _, converted, last⟩ := bind_ok success
  rw [(pure_ok last).1]
  intro row member
  obtain ⟨before, among, _, _, one⟩ := forEach_mem converted member
  obtain ⟨current, _, got, one⟩ := bind_ok one
  cases got
  obtain ⟨values, _, lifted, final⟩ := bind_ok one
  rw [(pure_ok final).1]
  refine length_coerceRow (lift_ok lifted).1 ?_
  rw [length_selectRows selected before among]
  simp [resultCols]

/-! ## Queries -/

/-- The columns of a set operation are as many as those of its operands. -/
theorem length_unionCols {left right cols : List RelCol} (united : unionCols left right = .ok cols)
    (same : left.length = right.length) : cols.length = left.length := by
  induction left generalizing right cols with
  | nil =>
      cases united
      rfl
  | cons a left ih =>
      cases right with
      | nil => simp at same
      | cons b right =>
          simp only [unionCols, bind, Except.bind, pure, Except.pure] at united
          split at united
          · cases united
          · split at united
            · cases united
            · next rest =>
                cases united
                rw [List.length_cons, ih rest (by simpa using same), List.length_cons]

/-- A row of a set operation is one of its operands' rows. -/
theorem mem_of_mem_unionRows {op : SetOp} {left right : List Row} {row : Row}
    (member : row ∈ unionRows op left right) : row ∈ left ∨ row ∈ right := by
  cases op with
  | unionAll => exact List.mem_append.mp member
  | union => exact List.mem_append.mp (mem_of_mem_distinctBy member)
  | intersect => exact Or.inl (List.mem_filter.mp (mem_of_mem_distinctBy member)).1
  | minus => exact Or.inl (List.mem_filter.mp (mem_of_mem_distinctBy member)).1

/-- A relation as wide as its columns. -/
def Relation.Rectangular (rel : Relation) : Prop := ∀ row ∈ rel.rows, row.length = rel.cols.length

/-- The relation of a query expression is rectangular. -/
theorem rectangular_setExpr (body : SetExpr) {st st' : EvalState} {rel : Relation}
    (success : setExpr eng self ex parent body st = .ok rel st') : rel.Rectangular := by
  cases body with
  | select s =>
      obtain ⟨result, _, selected, last⟩ := bind_ok success
      rw [(pure_ok last).1]
      intro row member
      obtain ⟨keyed, among, rfl⟩ := List.mem_map.mp member
      exact length_select selected keyed among
  | setOp op left right =>
      obtain ⟨l, _, first, success⟩ := bind_ok success
      obtain ⟨r, _, second, success⟩ := bind_ok success
      have wideLeft := rectangular_setExpr left first
      have wideRight := rectangular_setExpr right second
      split at success
      · obtain ⟨_, _, thrown, _⟩ := bind_ok success
        cases thrown
      · next same =>
          obtain ⟨cols, _, united, success⟩ := bind_ok success
          obtain ⟨rows, _, converted, last⟩ := bind_ok success
          rw [(pure_ok last).1]
          have width := length_unionCols (lift_ok united).1 (not_not.mp same)
          intro row member
          obtain ⟨before, among, _, _, one⟩ := forEach_mem converted member
          obtain ⟨_, _, got, lifted⟩ := bind_ok one
          refine length_coerceRow (lift_ok lifted).1 ?_
          rcases mem_of_mem_unionRows among with inLeft | inRight
          · rw [wideLeft before inLeft, width]
          · rw [wideRight before inRight, width, not_not.mp same]
termination_by structural body

/-- Every row of a query's body has one value for each column. -/
theorem length_queryBody {orderBy : List OrderItem} {body : SetExpr}
    {result : List RelCol × KeyedRows}
    (success : queryBody eng self ex parent orderBy body st = .ok result st') :
    ∀ row ∈ result.2, row.1.length = result.1.length := by
  cases body with
  | select s => exact length_select success
  | setOp op left right =>
      obtain ⟨rel, _, evaluated, success⟩ := bind_ok success
      obtain ⟨keys, _, _, last⟩ := bind_ok success
      rw [(pure_ok last).1]
      intro row member
      obtain ⟨values, among, rfl⟩ := List.mem_map.mp member
      exact rectangular_setExpr _ evaluated values among

/-- Sorting adds no rows. -/
theorem mem_of_mem_sortRows {dates : DateFormats} {format : String} {orderBy : List OrderItem}
    {rows sorted : KeyedRows} (success : sortRows dates format orderBy rows = .ok sorted)
    {row : Row × Row} (member : row ∈ sorted) : row ∈ rows := by
  simp only [sortRows, bind, Except.bind] at success
  split at success
  · cases success
  · cases success
    exact List.mem_mergeSort.mp member

/-- ORDER BY adds no rows. -/
theorem mem_of_mem_orderRows {orderBy : List OrderItem} {rows sorted : KeyedRows}
    (success : orderRows eng orderBy rows st = .ok sorted st') {row : Row × Row}
    (member : row ∈ sorted) : row ∈ rows := by
  unfold orderRows at success
  split at success
  · rw [← (pure_ok success).1]
    exact member
  · obtain ⟨format, _, _, lifted⟩ := bind_ok success
    exact mem_of_mem_sortRows (lift_ok lifted).1 member

/-- What a query returns is among the rows of its body. -/
theorem queryStep_ok {body : SetExpr} {orderBy : List OrderItem} {offset fetch : Option Expr}
    {rel : Relation}
    (success : queryStep eng self ex parent (.mk body orderBy offset fetch) st = .ok rel st') :
    ∃ rows middle, queryBody eng self ex parent orderBy body st = .ok (rel.cols, rows) middle ∧
      ∀ row ∈ rel.rows, ∃ keyed ∈ rows, keyed.1 = row := by
  obtain ⟨⟨cols, rows⟩, middle, evaluated, success⟩ := bind_ok success
  obtain ⟨sorted, _, ordered, success⟩ := bind_ok success
  obtain ⟨skip, _, _, success⟩ := bind_ok success
  obtain ⟨take_, _, _, last⟩ := bind_ok success
  rw [(pure_ok last).1]
  refine ⟨rows, middle, evaluated, fun row member => ?_⟩
  have kept : row ∈ (sorted.map Prod.fst).drop (skip.getD 0) := by
    cases take_ with
    | none => exact member
    | some n => exact List.mem_of_mem_take member
  obtain ⟨keyed, among, equal⟩ := List.mem_map.mp (List.mem_of_mem_drop kept)
  exact ⟨keyed, mem_of_mem_orderRows ordered among, equal⟩

/-- Whatever its nesting, a query gives a rectangular relation. -/
theorem rectangular_levels (levels : Nat) {q : Query} {rel : Relation}
    (success : (eng.levels levels).query ex q parent st = .ok rel st') : rel.Rectangular := by
  cases levels with
  | zero => cases success
  | succ levels =>
      obtain ⟨body, orderBy, offset, fetch⟩ := q
      obtain ⟨rows, middle, evaluated, among⟩ := queryStep_ok success
      intro row member
      obtain ⟨keyed, listed, rfl⟩ := among row member
      exact length_queryBody evaluated keyed listed

end Rectangular

/-- The engine to a number of levels, as statements use it. -/
def Engine.evaluator (eng : Engine) (alterSession : Env → String → String → Except OraError Env)
    (levels : Nat) : Evaluator where
  eval := (eng.levels levels).eval
  evalBool := (eng.levels levels).evalBool
  query := (eng.levels levels).query
  startRow := startRow
  storeValue env table col v := col.storeValue eng.lib.dates env env.user table v
  alterSession := alterSession
  rectangular success := rectangular_levels levels success

end MockOracle
