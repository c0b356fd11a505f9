import MockOracle.Eval.Evaluate
import MockOracle.Eval.Literal
import MockOracle.Eval.Plain
import MockOracle.Eval.RowSequences
import MockOracle.Session.Dml

/-!
# One number a row

A row of INSERT, UPDATE or SELECT starts by drawing a number from each sequence whose NEXTVAL it
mentions. When no sequence is mentioned under two names, and evaluating the row comes to no NEXTVAL
after its number is forgotten and computes no other row that draws from these sequences, each is
drawn from once in the whole row, and the row is what its expressions are with these numbers
written into them.
-/

namespace MockOracle

open Std Semantics

/-! ## Starting a row -/

/-- Between two states a sequence was drawn from once, and gave the number that is now current. -/
def DrawnOnce (ex : Ex) (before after : EvalState) (name : String) (n : Int) : Prop :=
  ∃ def_ next, ex.committed.sequences[name]? = some def_ ∧
    def_.draw (before.sequences.getD name def_.start) = some (n, next) ∧
    after.sequences[name]? = some next ∧ after.env.currval[name]? = some n

/-- The sequences whose NEXTVAL a row mentions, as they are spelled. -/
def nextvals (exprs : List Expr) : List String := exprs.foldl nextvalNames []

/-- The sequences whose NEXTVAL a row mentions. -/
def rowNames (exprs : List Expr) : List String := (nextvals exprs).map shortName

section Start

variable {ex : Ex} {st st' : EvalState}

/-- Numbers drawn one after the other from sequences of different names. -/
theorem advanceAll_ok {names : List String} (spelled : (names.map shortName).Nodup)
    (advanced : advanceAll ex names st = .ok () st') :
    (∀ s ∈ names.map shortName, ∃ n, DrawnOnce ex st st' s n ∧
      st'.env.rowSequences[s]? = some n) ∧
      ∀ s, s ∉ names.map shortName → st'.sequences[s]? = st.sequences[s]? ∧
        st'.env.currval[s]? = st.env.currval[s]? ∧
        st'.env.rowSequences[s]? = st.env.rowSequences[s]? := by
  induction names generalizing st with
  | nil =>
      obtain ⟨-, rfl⟩ := pure_ok advanced
      simp
  | cons name rest ih =>
      obtain ⟨n, st₁, first, advanced⟩ := bind_ok advanced
      obtain ⟨_, st₂, modified, later⟩ := bind_ok advanced
      cases modified
      obtain ⟨def_, next, found, draws, counter, env⟩ := advanceSequence_ok first
      rw [List.map_cons, List.nodup_cons] at spelled
      obtain ⟨others, frame⟩ := ih spelled.2 later
      simp only [env] at frame
      rw [counter] at frame
      constructor
      · rw [List.map_cons, List.forall_mem_cons]
        constructor
        · obtain ⟨sequences, current, row⟩ := frame _ spelled.1
          refine ⟨n, ⟨def_, next, found, draws, ?_, ?_⟩, ?_⟩
          · rw [sequences]
            simp
          · rw [current]
            simp
          · rw [row]
            simp
        · intro s member
          obtain ⟨m, ⟨def', next', found', draws', after'⟩, own⟩ := others s member
          refine ⟨m, ⟨def', next', found', ?_, after'⟩, own⟩
          have different : shortName name ≠ s := by
            rintro rfl
            exact spelled.1 member
          simp only [counter] at draws'
          rw [ExtTreeMap.getD_insert] at draws'
          simpa [Std.compare_eq_iff_eq, different] using draws'
      · intro s absent
        rw [List.map_cons, List.mem_cons, not_or] at absent
        obtain ⟨sequences, current, row⟩ := frame s absent.2
        have different : shortName name ≠ s := fun equal => absent.1 equal.symm
        rw [sequences, current, row, ExtTreeMap.getElem?_insert, ExtTreeMap.getElem?_insert,
          ExtTreeMap.getElem?_insert]
        simp [different]

/-- What starting a row draws, and which numbers the row then has. -/
theorem startRow_ok {exprs : List Expr} (spelled : (rowNames exprs).Nodup)
    (starts : startRow ex exprs st = .ok () st') :
    (∀ s ∈ rowNames exprs, ∃ n, DrawnOnce ex st st' s n ∧ st'.env.rowSequences[s]? = some n) ∧
      ∀ s, (rowNames exprs).contains s = mentions st'.env.rowSequences s := by
  obtain ⟨_, st₁, cleared, advanced⟩ := bind_ok starts
  cases cleared
  obtain ⟨drawn, frame⟩ := advanceAll_ok spelled advanced
  refine ⟨drawn, fun s => ?_⟩
  by_cases member : s ∈ rowNames exprs
  · obtain ⟨n, -, number⟩ := drawn s member
    rw [mentions, number, List.contains_eq_mem, decide_eq_true member]
    rfl
  · rw [mentions, (frame s member).2.2, List.contains_eq_mem, decide_eq_false member]
    simp

end Start

/-! ## Rows with their numbers written in, and watched rows -/

/-- The evaluator with a row's numbers in place of its sequences. -/
def Recur.fixing (self : Recur) (v : RowValues) : Recur :=
  { self with eval := fun ex e scope => self.eval ex (e.fixing v) scope }

/-- The evaluator that takes the given numbers for the sequences of the row. -/
def Evaluator.fixing (ev : Evaluator) (v : RowValues) : Evaluator :=
  { ev with eval := fun ex e scope => ev.eval ex (e.fixing v) scope }

/-- The statement's evaluator with the given numbers for the sequences of the row. -/
def Dml.fixing (ctx : Dml) (v : RowValues) : Dml := { ctx with ev := ctx.ev.fixing v }

/-- A statement whose rows are evaluated by another evaluator, such as one that watches. -/
def Dml.through (ctx : Dml) (self : Recur) : Dml :=
  { ctx with ev := { ctx.ev with eval := self.eval, evalBool := self.evalBool } }

/-- The row of a VALUES list. -/
def insertValues (ctx : Dml) (ex : Ex) (t : Table) (targets : List Nat) (exprs : List Expr) :
    EvalM (List Row) := do
  checkCount exprs.length targets.length
  let src ← forEach (fun e => ctx.ev.eval ex e (.empty none)) exprs
  forEach (insertRow ctx ex t targets) [src]

/-- The new values of an updated row. -/
def updateValues (ctx : Dml) (ex : Ex) (t : Table) (cols : List RelCol) (upd : Update)
    (targets : List Nat) (row : Nat × Row) : EvalM RowChange := do
  let values ← assignCells ctx ex t cols row.2 (upd.assignments.zip targets) row.2
  checkRow ctx.ev ex t values true
  return ⟨row.1, values, row.2⟩

/-! ## What the watch lets pass -/

section Rows

variable {ex : Ex} {v : RowValues} {begun : EvalState} {watched : Recur}

/-- The row of a SELECT list, with its ORDER BY keys. -/
theorem vouches_computeBody {plain : Recur} (below : Vouched v begun ex watched plain)
    (items : List (Item × String)) (keys : List SortKey) (scope : Scope) :
    Vouches (Undrawn v begun) (computeBody watched ex items keys scope)
      (computeBody plain ex items keys scope)
      (computeBody (plain.fixing v) ex items keys scope) := by
  refine .bind_ (vouches_forEach fun item _ => ?_) fun values =>
    .bind_ (vouches_forEach fun key _ => ?_) fun _ => .pure_ _
  · obtain ⟨item, name⟩ := item
    cases item with
    | source i => exact .pure_ _
    | expr e => exact below.eval e scope
  · cases key with
    | output i => exact .pure_ _
    | expr e => exact below.eval e scope

variable {ctx : Dml}

/-- The watched evaluator vouches for that of a statement. -/
structure VouchedDml (v : RowValues) (begun : EvalState) (ex : Ex) (watched : Recur) (ctx : Dml) :
    Prop where
  eval : ∀ e scope, Vouches (Undrawn v begun) (watched.eval ex e scope) (ctx.ev.eval ex e scope)
    (ctx.ev.eval ex (e.fixing v) scope)
  /-- CHECK conditions are no expressions of the row: no numbers are written into them. -/
  evalBool : ∀ e scope, Vouches (Undrawn v begun) (watched.evalBool ex e scope)
    (ctx.ev.evalBool ex e scope) (ctx.ev.evalBool ex e scope)

namespace VouchedDml

variable (below : VouchedDml v begun ex watched ctx)

include below

/-- The row's conditions vouch for what they compute. -/
theorem checkConditions (user : String) (t : Table) (values : Row)
    (constraints : List Constraint) :
    Vouches (Undrawn v begun)
      (checkConditions (ctx.through watched).ev ex user t values constraints)
      (MockOracle.checkConditions ctx.ev ex user t values constraints)
      (MockOracle.checkConditions (ctx.fixing v).ev ex user t values constraints) := by
  induction constraints with
  | nil => exact .pure_ _
  | cons c rest ih =>
      unfold MockOracle.checkConditions
      split
      · next condition _ _ =>
          refine .bind_ (below.evalBool condition _) fun result => ?_
          by_cases violated : result = some false
          · simp only [if_pos violated]
            exact .throw_ _ _ _
          · simp only [if_neg violated]
            exact ih
      · exact ih

/-- The checks of a row vouch for what they compute. -/
theorem checkRow (t : Table) (values : Row) (updating : Bool) :
    Vouches (Undrawn v begun) (checkRow (ctx.through watched).ev ex t values updating)
      (MockOracle.checkRow ctx.ev ex t values updating)
      (MockOracle.checkRow (ctx.fixing v).ev ex t values updating) := by
  refine .bind_ (.of_reads .get_) fun st => ?_
  cases t.missingColumn values with
  | some column => exact .throw_ _ _ _
  | none => exact below.checkConditions _ t values t.constraints

omit below in
/-- Storing a value only reads the state. -/
theorem reads_storeValue (table : String) (column : TableColumn) (value : Value) :
    Reads (storeValue ctx table column value) :=
  .bind_ .get_ fun _ => EvalM.reads_lift _

omit below in
/-- Identity columns have counters of their own. -/
theorem nextIdentity (table : String) :
    Vouches (Undrawn v begun) (Value.ofInt <$> nextIdentity table)
      (Value.ofInt <$> MockOracle.nextIdentity table)
      (Value.ofInt <$> MockOracle.nextIdentity table) := by
  refine .map_ _ (.of_keeps fun st stands n st' drawn => ?_)
  cases drawn
  exact stands.of_same rfl rfl

/-- One cell of an INSERT vouches for what it computes. -/
theorem insertCell (t : Table) (column : TableColumn) (given : Option Value) :
    Vouches (Undrawn v begun) (insertCell (ctx.through watched) ex t column given)
      (MockOracle.insertCell ctx ex t column given)
      (MockOracle.insertCell (ctx.fixing v) ex t column given) := by
  have stored : ∀ value, Vouches (Undrawn v begun)
      (storeValue (ctx.through watched) t.name column value) (storeValue ctx t.name column value)
      (storeValue (ctx.fixing v) t.name column value) :=
    fun value => .of_reads (reads_storeValue _ _ _)
  unfold MockOracle.insertCell
  cases given with
  | some value =>
      by_cases draws : (column.identity && value.isNull) = true
      · simp only [if_pos draws]
        exact .bind_ (nextIdentity _) stored
      · simp only [if_neg draws]
        exact .bind_ (.pure_ _) stored
  | none =>
      by_cases draws : column.identity = true
      · simp only [if_pos draws]
        exact .bind_ (nextIdentity _) stored
      · simp only [if_neg draws]
        cases column.default with
        | some d => exact .bind_ (below.eval d _) stored
        | none => exact .bind_ (.pure_ _) stored

/-- One row of an INSERT vouches for what it computes. -/
theorem insertRow (t : Table) (targets : List Nat) (src : Row) :
    Vouches (Undrawn v begun) (insertRow (ctx.through watched) ex t targets src)
      (MockOracle.insertRow ctx ex t targets src)
      (MockOracle.insertRow (ctx.fixing v) ex t targets src) :=
  .bind_ (vouches_forEach fun entry _ => below.insertCell t entry.1 _) fun full =>
    .bind_ (below.checkRow t full false) fun _ => .pure_ _

/-- The values of an INSERT vouch for what they compute. -/
theorem insertValues (t : Table) (targets : List Nat) (exprs : List Expr) :
    Vouches (Undrawn v begun) (insertValues (ctx.through watched) ex t targets exprs)
      (MockOracle.insertValues ctx ex t targets exprs)
      (MockOracle.insertValues (ctx.fixing v) ex t targets exprs) := by
  have counted : Reads (checkCount exprs.length targets.length) := by
    unfold checkCount
    by_cases many : targets.length < exprs.length
    · simp only [if_pos many]
      refine .bind_ (.throw_ _) fun _ => ?_
      split
      · exact .throw_ _
      · exact .pure_ _
    · simp only [if_neg many]
      by_cases few : exprs.length < targets.length
      · simp only [if_pos few]
        exact .throw_ _
      · simp only [if_neg few]
        exact .pure_ _
  exact .bind_ (.of_reads counted) fun _ =>
    .bind_ (vouches_forEach fun e _ => below.eval e _) fun src =>
      vouches_forEach fun src _ => below.insertRow t targets src

/-- The assignments of an UPDATE vouch for what they compute. -/
theorem assignCells (t : Table) (cols : List RelCol) (old : Row)
    (cells : List ((String × Expr) × Nat)) (row : Row) :
    Vouches (Undrawn v begun) (assignCells (ctx.through watched) ex t cols old cells row)
      (MockOracle.assignCells ctx ex t cols old cells row)
      (MockOracle.assignCells (ctx.fixing v) ex t cols old cells row) := by
  induction cells generalizing row with
  | nil => exact .pure_ _
  | cons cell cells ih =>
      obtain ⟨⟨name, e⟩, i⟩ := cell
      refine .bind_ (below.eval e _) fun value => .bind_ (.of_reads ?_) fun changed => ih changed
      unfold storeCell
      cases t.columns[i]? with
      | none => exact .pure_ _
      | some column => exact .bind_ (reads_storeValue _ _ _) fun _ => .pure_ _

/-- One row of an UPDATE vouches for what it computes. -/
theorem updateValues (t : Table) (cols : List RelCol) (upd : Update) (targets : List Nat)
    (row : Nat × Row) :
    Vouches (Undrawn v begun) (updateValues (ctx.through watched) ex t cols upd targets row)
      (MockOracle.updateValues ctx ex t cols upd targets row)
      (MockOracle.updateValues (ctx.fixing v) ex t cols upd targets row) :=
  .bind_ (below.assignCells t cols row.2 _ row.2) fun values =>
    .bind_ (below.checkRow t values true) fun _ => .pure_ _

end VouchedDml

end Rows

/-! ## Every row -/

/-- A row, evaluated from `st` and begun in `begun`: it is what it is with its numbers written in,
and in all of it each sequence that it mentions is drawn from once, for that number. -/
structure RowFixed {α : Type} (ex : Ex) (exprs : List Expr) (st begun : EvalState)
    (row fixed : EvalM α) (a : α) (st' : EvalState) : Prop where
  returned : row st = .ok a st'.endRow
  written : fixed begun = .ok a st'
  once : ∀ s ∈ rowNames exprs, ∃ n, begun.env.rowSequences[s]? = some n ∧
    DrawnOnce ex st st'.endRow s n

/-- Once a row is started with one number for each sequence it mentions, the rows of SELECT,
INSERT and UPDATE that the watch lets pass are what they are with these numbers written into their
expressions, and each sequence advances once for the row. -/
theorem row_sequences_fixed {eng : Engine}
    {alterSession : Env → String → String → Except OraError Env} {levels : Nat} {ex : Ex}
    {exprs : List Expr} {st begun : EvalState} (spelled : (rowNames exprs).Nodup)
    (starts : startRow ex exprs st = .ok () begun) :
    (∀ items keys scope row st', rowExprs items keys = exprs →
      computeBody (eng.watched (rowNames exprs) levels) ex items keys scope begun = .ok row st' →
      RowFixed ex exprs st begun (compute (eng.levels levels) ex items keys scope)
        (computeBody ((eng.levels levels).fixing begun.env.rowSequences) ex items keys scope)
        row st') ∧
    (∀ (ctx : Dml) t targets values rows st', ctx.ev = eng.evaluator alterSession levels →
      values ++ insertDefaults t targets = exprs →
      insertValues (ctx.through (eng.watched (rowNames exprs) levels)) ex t targets values begun =
        .ok rows st' →
      RowFixed ex exprs st begun (insertSources ctx ex t targets (.values values))
        (insertValues (ctx.fixing begun.env.rowSequences) ex t targets values) rows st') ∧
    (∀ (ctx : Dml) t targets (src : Row) row st', ctx.ev = eng.evaluator alterSession levels →
      insertDefaults t targets = exprs →
      insertRow (ctx.through (eng.watched (rowNames exprs) levels)) ex t targets src begun =
        .ok row st' →
      RowFixed ex exprs st begun
        (ctx.ev.withRow ex (insertDefaults t targets) (insertRow ctx ex t targets src))
        (insertRow (ctx.fixing begun.env.rowSequences) ex t targets src) row st') ∧
    (∀ (ctx : Dml) t cols upd targets row change st', ctx.ev = eng.evaluator alterSession levels →
      upd.assignments.map Prod.snd = exprs →
      updateValues (ctx.through (eng.watched (rowNames exprs) levels)) ex t cols upd targets row
        begun = .ok change st' →
      RowFixed ex exprs st begun (updateRow ctx ex t cols upd targets row)
        (updateValues (ctx.fixing begun.env.rowSequences) ex t cols upd targets row) change
        st') := by
  obtain ⟨drawn, named⟩ := startRow_ok spelled starts
  have numbered : ∀ s n, begun.env.rowSequences[s]? = some n → DrawnOnce ex st begun s n := by
    intro s n number
    have member : s ∈ rowNames exprs := by
      rw [← List.contains_iff_mem, named, mentions, number]
      rfl
    obtain ⟨m, once, own⟩ := drawn s member
    rw [number] at own
    exact Option.some.inj own ▸ once
  have known : Known ex begun.env.rowSequences := by
    intro s n number
    obtain ⟨def_, -, found, -⟩ := numbered s n number
    rw [found]
    rfl
  have stands : Undrawn begun.env.rowSequences begun begun := by
    intro s n number
    obtain ⟨def_, next, -, -, -, current⟩ := numbered s n number
    exact ⟨rfl, current, fun k own => Option.some.inj (own.symm.trans number)⟩
  have below : Vouched begun.env.rowSequences begun ex (eng.watched (rowNames exprs) levels)
      (eng.levels levels) := vouched_levels eng named known levels
  have dml : ∀ (ctx : Dml), ctx.ev = eng.evaluator alterSession levels →
      VouchedDml begun.env.rowSequences begun ex (eng.watched (rowNames exprs) levels) ctx := by
    rintro ⟨ev, binds, committed, vars⟩ rfl
    exact ⟨below.eval, fun e scope => (below.evalBool e scope).plain⟩
  -- The guard of a row starts it, and forgets its numbers once it is evaluated.
  have fixed : ∀ {α : Type} {watched body fixing : EvalM α} {a : α} {st' : EvalState},
      Vouches (Undrawn begun.env.rowSequences begun) watched body fixing →
      watched begun = .ok a st' →
      RowFixed ex exprs st begun (rowGuard ex exprs body) fixing a st' := by
    intro α watched body fixing a st' vouches passed
    obtain ⟨plain, written, still⟩ := vouches begun stands a st' passed
    refine ⟨by simp only [rowGuard, starts, plain], written, fun s member => ?_⟩
    obtain ⟨n, ⟨def_, next, found, draws, counter, -⟩, number⟩ := drawn s member
    obtain ⟨sameCounter, current, -⟩ := still s n number
    exact ⟨n, number, def_, next, found, draws, sameCounter.trans counter, current⟩
  refine ⟨?_, ?_, ?_, ?_⟩
  · rintro items keys scope row st' rfl passed
    exact fixed (vouches_computeBody below items keys scope) passed
  · rintro ⟨ev, binds, committed, vars⟩ t targets values rows st' rfl rfl passed
    exact fixed ((dml _ rfl).insertValues t targets values) passed
  · rintro ⟨ev, binds, committed, vars⟩ t targets src row st' rfl rfl passed
    exact fixed ((dml _ rfl).insertRow t targets src) passed
  · rintro ⟨ev, binds, committed, vars⟩ t cols upd targets row change st' rfl rfl passed
    exact fixed ((dml _ rfl).updateValues t cols upd targets row) passed

/-! ## Concrete rows -/

namespace RowNumbers

/-- A committed catalog with one sequence that starts at 1. -/
def committed : Catalog :=
  { Catalog.empty with sequences := (∅ : ExtTreeMap String SequenceDef).insert "S" ⟨1, 1, 1, 100, false⟩ }

def ex : Ex := ⟨committed, [], committed, none⟩

def start : EvalState := ⟨∅, ∅, Literal.env "HR"⟩

def nextval : Expr := .sequence "S" true

def currval : Expr := .sequence "S" false

/-- `SELECT e₁, e₂, … FROM dual`. -/
def selectDual (exprs : List Expr) : Query :=
  .mk (.select (.mk false (exprs.map fun e => .expr e "X") [.mk (.table "DUAL" none) []] none [] none))
    [] none none

/-- The rows of a query, when it succeeds. -/
def rowsOf (q : Query) : Option (List Row) :=
  match (Engine.plain.levels 8).query ex q none start with
  | .ok rel _ => some rel.rows
  | .error _ _ => none

/-- `(SELECT 7 FROM dual)`, which computes a row of its own. -/
def seven : Expr := .subquery (selectDual [.literal (.ofInt 7)])

/-- `CASE WHEN 1 = 2 THEN (SELECT 7 FROM dual) END, s.NEXTVAL, s.CURRVAL, (SELECT 7 FROM dual),
s.CURRVAL`. -/
def settled : List Expr :=
  [.case none [(.binary .eq (.literal (.ofInt 1)) (.literal (.ofInt 2)), seven)] none, nextval,
    currval, seven, currval]

/-- The expressions as a SELECT list. -/
def itemsOf (exprs : List Expr) : List (Item × String) := exprs.map fun e => (.expr e, "X")

/-- The values of a row, when it is started and the watch lets it pass. -/
def watchedRow (exprs : List Expr) : Option Row :=
  match startRow ex exprs start with
  | .error _ _ => none
  | .ok _ begun =>
      match computeBody (Engine.plain.watched (rowNames exprs) 8) ex (itemsOf exprs) [] (.empty none)
          begun with
      | .ok row _ => some row.1
      | .error _ _ => none

/-- A row that the watch lets pass was started and evaluated. -/
theorem of_watchedRow {exprs : List Expr} {values : Row} (passed : watchedRow exprs = some values) :
    ∃ begun row st', startRow ex exprs start = .ok () begun ∧
      computeBody (Engine.plain.watched (rowNames exprs) 8) ex (itemsOf exprs) [] (.empty none)
        begun = .ok row st' ∧ row.1 = values := by
  unfold watchedRow at passed
  split at passed
  · cases passed
  · next begun starts =>
      split at passed
      · next row st' evaluated => exact ⟨begun, row, st', starts, evaluated, Option.some.inj passed⟩
      · cases passed

end RowNumbers

open RowNumbers in
/-- `SELECT CASE WHEN 1 = 2 THEN (SELECT 7 FROM dual) END, s.NEXTVAL, s.CURRVAL,
(SELECT 7 FROM dual), s.CURRVAL` draws once, and gives that number three times. -/
theorem row_sequences_fixed_select :
    ∃ begun row st', row.1 = [.null, .ofInt 1, .ofInt 1, .ofInt 7, .ofInt 1] ∧
      RowFixed ex settled start begun
        (compute (Engine.plain.levels 8) ex (itemsOf settled) [] (.empty none))
        (computeBody ((Engine.plain.levels 8).fixing begun.env.rowSequences) ex (itemsOf settled) []
          (.empty none)) row st' := by
  have passed : watchedRow settled =
      some [.null, .ofInt 1, .ofInt 1, .ofInt 7, .ofInt 1] := by decide +kernel
  obtain ⟨begun, row, st', starts, evaluated, values⟩ := of_watchedRow passed
  have spelled : (rowNames settled).Nodup := by decide +kernel
  have fixed := @row_sequences_fixed Engine.plain (fun env _ _ => .ok env) 8 ex settled start begun
    spelled starts
  exact ⟨begun, row, st', values, fixed.1 _ _ _ _ _ rfl evaluated⟩

open RowNumbers in
/-- `SELECT s.NEXTVAL, (SELECT 7 FROM dual), s.NEXTVAL FROM dual`: the subquery's row forgets the
number of the outer row, and the sequence advances a second time. -/
theorem row_sequences_forgotten :
    rowsOf (selectDual [nextval, .subquery (selectDual [.literal (.ofInt 7)]), nextval]) =
      some [[.ofInt 1, .ofInt 7, .ofInt 2]] := by
  decide +kernel

end MockOracle
