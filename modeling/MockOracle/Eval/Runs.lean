import MockOracle.Eval.Evaluate

/-!
# What a query runs

Evaluating a query runs the SELECT blocks of its set operation, each block the inline views of
its FROM clause, and each row of a block the expressions of the select list, one after another
and each in the state the earlier ones left. The definitions here name these runs with their
states, so that a condition on a query can speak of what it evaluates and of nothing else.
-/

namespace MockOracle

/-- What follows a computation, if it succeeds. -/
def after {α β : Type} (m : EvalM α) (st : EvalState) (next : α → EvalState → List β) : List β :=
  match m st with
  | .ok a st => next a st
  | .error _ _ => []

theorem after_ok {α β : Type} {m : EvalM α} {st st' : EvalState} {a : α} (success : m st = .ok a st')
    (next : α → EvalState → List β) : after m st next = next a st' := by
  rw [after, success]

theorem mem_after {α β : Type} {m : EvalM α} {st : EvalState} {next : α → EvalState → List β} {b : β}
    (member : b ∈ after m st next) : ∃ a st', m st = .ok a st' ∧ b ∈ next a st' := by
  unfold after at member
  split at member
  · next a st' equal => exact ⟨a, st', equal, member⟩
  · cases member

/-- The elements `forEach` comes to, each with the state it is in. -/
def visits {α β : Type} (f : α → EvalM β) : List α → EvalState → List (α × EvalState)
  | [], _ => []
  | a :: rest, st => (a, st) :: after (f a) st fun _ st => visits f rest st

/-- Each element of the second of two related lists has a partner in the first. -/
theorem exists_left_of_forall₂ {α β : Type} {R : α → β → Prop} {as : List α} {bs : List β}
    (related : List.Forall₂ R as bs) {b : β} (member : b ∈ bs) : ∃ a ∈ as, R a b := by
  induction related with
  | nil => simp at member
  | cons first _ ih =>
      rcases List.mem_cons.mp member with rfl | later
      · exact ⟨_, List.mem_cons_self, first⟩
      · obtain ⟨a, among, related⟩ := ih later
        exact ⟨a, List.mem_cons_of_mem _ among, related⟩

/-- The results of `forEach` are those of its visits. -/
theorem forEach_visits {α β : Type} {f : α → EvalM β} {as : List α} {bs : List β}
    {st st' : EvalState} (success : forEach f as st = .ok bs st') :
    (visits f as st).map Prod.fst = as ∧
      List.Forall₂ (fun visit b => ∃ later, f visit.1 visit.2 = .ok b later) (visits f as st) bs := by
  induction as generalizing st st' bs with
  | nil =>
      rw [(pure_ok success).1]
      exact ⟨rfl, .nil⟩
  | cons a rest ih =>
      obtain ⟨b, middle, first, later⟩ := bind_ok success
      obtain ⟨others, _, restOk, last⟩ := bind_ok later
      rw [(pure_ok last).1, visits, after_ok first]
      obtain ⟨elements, results⟩ := ih restOk
      exact ⟨congrArg (a :: ·) elements, .cons ⟨middle, first⟩ results⟩

theorem mem_of_mem_visits {α β : Type} {f : α → EvalM β} {as : List α} {st : EvalState}
    {visit : α × EvalState} (member : visit ∈ visits f as st) : visit.1 ∈ as := by
  induction as generalizing st with
  | nil => cases member
  | cons a rest ih =>
      rcases List.mem_cons.mp member with rfl | later
      · exact List.mem_cons_self
      · obtain ⟨_, _, _, later⟩ := mem_after later
        exact List.mem_cons_of_mem _ (ih later)

section Runs

variable (eng : Engine) (self : Recur) (ex : Ex) (parent : Option Scope)

/-! ## Inline views -/

/-- The inline view of a table expression, with the state it is run in. -/
def factorRuns (factor : TableFactor) (st : EvalState) : List (Query × EvalState) :=
  match factor with
  | .table _ _ => []
  | .subquery q _ => [(q, st)]

/-- The inline views that a chain of joins runs. -/
def joinRuns (left : Relation) : List Join → EvalState → List (Query × EvalState)
  | [], _ => []
  | .mk kind factor on :: rest, st =>
      factorRuns factor st ++ after (tableFactor self ex parent factor) st fun right st =>
        after (joinOne self ex parent kind left right on) st fun joined st => joinRuns joined rest st

/-- The inline views that an item of FROM runs. -/
def itemViews (item : FromItem) (st : EvalState) : List (Query × EvalState) :=
  match item with
  | .mk factor joins =>
      factorRuns factor st ++ after (tableFactor self ex parent factor) st fun left st =>
        joinRuns self ex parent left joins st

/-- The inline views that a FROM clause runs. -/
def sourceRuns : List FromItem → EvalState → List (Query × EvalState)
  | [], _ => []
  | item :: rest, st =>
      itemViews self ex parent item st ++
        after (sourceItem self ex parent item) st fun _ st => sourceRuns rest st

/-! ## Rows -/

/-- The value of an item of the select list. -/
def evalItem (scope : Scope) (item : Item × String) : EvalM Value :=
  match item.1 with
  | .source i => pure (scope.values.getD i .null)
  | .expr e => self.eval ex e scope

/-- The groups HAVING accepts, each as the scope its row is computed in, with the state. -/
def groupRuns (cols : List RelCol) (items : List (Item × String)) (keys : List SortKey)
    (having : Option Expr) : List (List Row × Nat) → EvalState → List (Scope × EvalState)
  | [], _ => []
  | (group, n) :: rest, st =>
      let first := group.head?.getD (List.replicate cols.length .null)
      let scope := Scope.mk cols first (some group) (n + 1) parent
      after (holds self ex having scope) st fun kept st =>
        if kept then
          (scope, st) :: after (compute self ex items keys scope) st fun _ st =>
            groupRuns cols items keys having rest st
        else groupRuns cols items keys having rest st

/-- The rows a SELECT block computes from the rows it accepted. -/
def rowRuns (s : Select) (cols : List RelCol) (items : List (Item × String)) (keys : List SortKey)
    (accepted : List (Int × Row)) (st : EvalState) : List (Scope × EvalState) :=
  if isGrouped s items keys then
    after (groupsOf self ex parent s cols accepted) st fun groups st =>
      groupRuns self ex parent cols items keys s.having groups.zipIdx st
  else
    (visits (fun row => compute self ex items keys (.mk cols row.2 none row.1 parent)) accepted st).map
      fun visit => (.mk cols visit.1.2 none visit.1.1 parent, visit.2)

/-- The items a row evaluates, each with the state it is evaluated in. -/
def itemRuns (items : List (Item × String)) (keys : List SortKey) (row : Scope × EvalState) :
    List ((Item × String) × EvalState) :=
  after (startRow ex (rowExprs items keys)) row.2 fun _ st =>
    visits (evalItem self ex row.1) items st

/-! ## SELECT blocks -/

/-- The SELECT blocks of a set operation, each with the state it is run in. -/
def setRuns : SetExpr → EvalState → List (Select × EvalState)
  | .select s, st => [(s, st)]
  | .setOp _ left right, st =>
      setRuns left st ++ after (setExpr eng self ex parent left) st fun _ st => setRuns right st
termination_by structural body => body

/-- The SELECT blocks of a query's body; only a block that is the whole body is ordered. -/
def bodyRuns (orderBy : List OrderItem) (body : SetExpr) (st : EvalState) :
    List (Select × List OrderItem × EvalState) :=
  match body with
  | .select s => [(s, orderBy, st)]
  | .setOp op left right =>
      (setRuns eng self ex parent (.setOp op left right) st).map fun run => (run.1, [], run.2)

end Runs

/-! ## Rows and their runs -/

section Rows

variable {self : Recur} {ex : Ex} {parent : Option Scope} {st st' : EvalState}
  {items : List (Item × String)} {keys : List SortKey}

/-- The values of a row are those of the items it evaluates. -/
theorem compute_runs {scope : Scope} {row : Row × Row}
    (success : compute self ex items keys scope st = .ok row st') :
    (itemRuns self ex items keys (scope, st)).map Prod.fst = items ∧
      List.Forall₂ (fun run v => ∃ later, evalItem self ex scope run.1 run.2 = .ok v later)
        (itemRuns self ex items keys (scope, st)) row.1 := by
  unfold compute rowGuard at success
  split at success
  · cases success
  · next middle starts =>
      split at success
      · next computed final equal =>
          cases success
          obtain ⟨values, _, evaluated, rest⟩ := bind_ok equal
          obtain ⟨keyValues, _, _, last⟩ := bind_ok rest
          rw [(pure_ok last).1, itemRuns, after_ok starts]
          exact forEach_visits (f := evalItem self ex scope) evaluated
      · cases success

/-- Every computed row is the result of a run of its own. -/
theorem computeGroups_runs {cols : List RelCol} {having : Option Expr}
    {groups : List (List Row × Nat)} {rows : KeyedRows}
    (success : computeGroups self ex parent cols items keys having groups st = .ok rows st')
    {row : Row × Row} (member : row ∈ rows) :
    ∃ run ∈ groupRuns self ex parent cols items keys having groups st, ∃ later,
      compute self ex items keys run.1 run.2 = .ok row later := by
  induction groups generalizing st st' rows with
  | nil =>
      rw [(pure_ok success).1] at member
      cases member
  | cons group groups ih =>
      obtain ⟨group, n⟩ := group
      unfold computeGroups at success
      obtain ⟨kept, middle, held, success⟩ := bind_ok success
      rw [groupRuns, after_ok held]
      cases kept with
      | true =>
          obtain ⟨first, next, computed, success⟩ := bind_ok success
          obtain ⟨rest, _, others, last⟩ := bind_ok success
          rw [(pure_ok last).1] at member
          rcases List.mem_cons.mp member with rfl | later
          · exact ⟨_, List.mem_cons_self, next, computed⟩
          · obtain ⟨run, among, result⟩ := ih others later
            refine ⟨run, List.mem_cons_of_mem _ ?_, result⟩
            rw [after_ok computed]
            exact among
      | false => exact ih success member

/-- Every row of a SELECT block is computed by one of its runs. -/
theorem computeRows_runs {s : Select} {cols : List RelCol} {accepted : List (Int × Row)}
    {rows : KeyedRows}
    (success : computeRows self ex parent s cols items keys accepted st = .ok rows st')
    {row : Row × Row} (member : row ∈ rows) :
    ∃ run ∈ rowRuns self ex parent s cols items keys accepted st, ∃ later,
      compute self ex items keys run.1 run.2 = .ok row later := by
  unfold computeRows at success
  unfold rowRuns
  split at success
  · next grouped =>
      rw [if_pos grouped]
      split at success
      · cases success
      · obtain ⟨groups, middle, made, computed⟩ := bind_ok success
        rw [after_ok made]
        exact computeGroups_runs computed member
  · next plain =>
      rw [if_neg plain]
      obtain ⟨-, results⟩ := forEach_visits success
      obtain ⟨visit, among, later, computed⟩ := exists_left_of_forall₂ results member
      exact ⟨_, List.mem_map_of_mem among, later, computed⟩

end Rows

end MockOracle
