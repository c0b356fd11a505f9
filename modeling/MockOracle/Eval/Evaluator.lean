import MockOracle.Catalog.Catalog

/-!
# What statements take from expression evaluation

Statements evaluate expressions, conditions and queries against a catalog. The model of
the statements is over an arbitrary `Evaluator`, so that what is proved about them does
not depend on what expressions mean. Evaluation may fail, and may change the counters of
sequences and identity columns and the session's environment, which `EvalState` collects.
It cannot change a catalog: stored functions called from SQL may not run DML.
-/

namespace MockOracle

open Std

/-- DBMS_OUTPUT's buffer for one session. -/
structure Output where
  enabled : Bool
  lines : List String
  partialLine : String
  bytes : Nat

/-- Per-session settings that affect evaluation. -/
structure Env where
  user : String
  nlsDateFormat : String
  nlsTimestampFormat : String
  tzOffsetMinutes : Int
  nowUtc : NaiveDateTime
  nowLocal : NaiveDateTime
  /-- The last NEXTVAL of each sequence in this session. -/
  currval : ExtTreeMap String Int
  output : Output
  depth : Nat
  /-- The NEXTVAL of each sequence for the row being processed. -/
  rowSequences : ExtTreeMap String Int

/-- What evaluation can change. -/
structure EvalState where
  sequences : ExtTreeMap String Int
  identities : ExtTreeMap String Int
  env : Env

/-- Clear the per-row sequence values, as dropping the guard of a row does. -/
def EvalState.endRow (st : EvalState) : EvalState :=
  { st with env := { st.env with rowSequences := ∅ } }

/-- A computation that may fail and keeps its changes of the state when it does. -/
abbrev EvalM := EStateM OraError EvalState

/-- A computation that touches no state. -/
def EvalM.lift {α : Type} (result : Except OraError α) : EvalM α := fun st =>
  match result with
  | .ok a => .ok a st
  | .error e => .error e st

/-- Evaluate something for each element of a list, in order. -/
def forEach {α β : Type} (f : α → EvalM β) : List α → EvalM (List β)
  | [] => pure []
  | a :: rest => do
      let b ← f a
      return b :: (← forEach f rest)

/-- A column of a relation. -/
structure RelCol where
  qualifier : Option String
  name : String
  sqlType : SqlType

/-- Rows under their columns. -/
structure Relation where
  cols : List RelCol
  rows : List Row

/-- What an expression can see: the current row, its group when aggregating, and the
enclosing query's scope. -/
inductive Scope where
  | mk (cols : List RelCol) (row : Row) (group : Option (List Row)) (rownum : Int)
      (parent : Option Scope)

namespace Scope

/-- A scope without a row. -/
def empty (parent : Option Scope) : Scope := mk [] [] none 0 parent

/-- The scope of a row. -/
def row (cols : List RelCol) (values : Row) (parent : Option Scope) : Scope :=
  mk cols values none 0 parent

end Scope

/-- Names a statement inside PL/SQL can see besides columns. -/
abbrev VarLookup := Option String → String → Option Value

/-- What evaluation reads: the catalog in view, the binds, the committed catalog that
routines and sequences are resolved in, and PL/SQL variables. -/
structure Ex where
  cat : Catalog
  binds : List Value
  committed : Catalog
  vars : Option VarLookup

/-- What statements use of the evaluator. -/
structure Evaluator where
  eval : Ex → Expr → Scope → EvalM Value
  evalBool : Ex → Expr → Scope → EvalM (Option Bool)
  query : Ex → Query → Option Scope → EvalM Relation
  /-- Advance each sequence whose NEXTVAL the row's expressions mention. -/
  startRow : Ex → List Expr → EvalM Unit
  /-- Convert a value for storage in a column of a table. -/
  storeValue : Env → String → TableColumn → Value → Except OraError Value
  /-- ALTER SESSION: the environment with one setting changed. -/
  alterSession : Env → String → String → Except OraError Env
  /-- Every row of a result has one value for each column. -/
  rectangular : ∀ {ex q scope st rel st'}, query ex q scope st = .ok rel st' →
    ∀ row ∈ rel.rows, row.length = rel.cols.length

/-- Evaluate `body` for one row, whose sequence values last until it is done. -/
def Evaluator.withRow {α : Type} (ev : Evaluator) (ex : Ex) (exprs : List Expr) (body : EvalM α) :
    EvalM α := fun st =>
  match ev.startRow ex exprs st with
  | .error e st => .error e st.endRow
  | .ok _ st =>
      match body st with
      | .ok a st => .ok a st.endRow
      | .error e st => .error e st.endRow

/-! ## What evaluation returns -/

section Evaluation

variable {α β : Type} {st st' : EvalState}

/-- What a sequence of computations that succeeds goes through. -/
theorem bind_ok {x : EvalM α} {f : α → EvalM β} {b : β} (success : (x >>= f) st = .ok b st') :
    ∃ a middle, x st = .ok a middle ∧ f a middle = .ok b st' := by
  simp only [bind, EStateM.bind] at success
  cases first : x st with
  | ok a middle => exact ⟨a, middle, rfl, by simpa [first] using success⟩
  | error e middle => simp [first] at success

/-- A value alone succeeds with itself and changes no state. -/
theorem pure_ok {a b : α} (success : (pure a : EvalM α) st = .ok b st') : b = a ∧ st' = st := by
  cases success
  exact ⟨rfl, rfl⟩

/-- A lifted result that succeeds is that result. -/
theorem lift_ok {result : Except OraError α} {a : α}
    (success : EvalM.lift result st = .ok a st') : result = .ok a ∧ st' = st := by
  cases result with
  | ok b =>
      cases success
      exact ⟨rfl, rfl⟩
  | error e => cases success

/-- A row's computation succeeds through its body. -/
theorem withRow_ok {ev : Evaluator} {ex : Ex} {exprs : List Expr} {body : EvalM α} {a : α}
    (success : ev.withRow ex exprs body st = .ok a st') :
    ∃ middle after, body middle = .ok a after := by
  unfold Evaluator.withRow at success
  split at success
  · cases success
  · next middle _ =>
      split at success
      · next a' after equal =>
          cases success
          exact ⟨middle, after, equal⟩
      · cases success

/-- A loop that succeeds succeeds for each member. -/
theorem forEach_ok {f : α → EvalM β} {as : List α} {bs : List β}
    (success : forEach f as st = .ok bs st') :
    List.Forall₂ (fun a b => ∃ before after, f a before = .ok b after) as bs := by
  induction as generalizing st st' bs with
  | nil =>
      rw [(pure_ok success).1]
      exact .nil
  | cons a rest ih =>
      obtain ⟨b, middle, first, later⟩ := bind_ok success
      obtain ⟨bs', after, restOk, last⟩ := bind_ok later
      rw [(pure_ok last).1]
      exact .cons ⟨st, middle, first⟩ (ih restOk)

/-- Every result comes from an element. -/
theorem forEach_mem {f : α → EvalM β} {as : List α} {bs : List β}
    (success : forEach f as st = .ok bs st') {b : β} (member : b ∈ bs) :
    ∃ a ∈ as, ∃ before after, f a before = .ok b after := by
  have each := forEach_ok success
  clear success
  induction each with
  | nil => simp at member
  | cons first _ ih =>
      rcases List.mem_cons.mp member with rfl | later
      · exact ⟨_, List.mem_cons_self, first⟩
      · obtain ⟨a, among, evaluated⟩ := ih later
        exact ⟨a, List.mem_cons_of_mem _ among, evaluated⟩

end Evaluation

end MockOracle
