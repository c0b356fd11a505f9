import MockOracle.Eval.Evaluator
import MockOracle.Session.ForeignKeys

/-!
# INSERT, UPDATE and DELETE

A statement first evaluates everything it needs, reading the transaction's catalog and
changing at most counters and the environment; then it writes. The evaluation half of
each statement returns the rows to write, and what is proved of these rows here is all
the write half needs: new rows are as wide as the table, and changed or deleted rows are
distinct rows of it.
-/

namespace MockOracle

open Std Semantics

/-! ## Checking a row -/

/-- The columns of a table, as expressions see them. -/
def tableScopeCols (t : Table) (qualifier : String) : List RelCol :=
  t.columns.map fun c => ⟨some qualifier, c.name, c.sqlType⟩

/-- The first column that may not be NULL but is. -/
def Table.missingColumn (t : Table) (values : Row) : Option TableColumn :=
  ((t.columns.zip values).zipIdx.find? fun entry => t.required entry.2 && entry.1.2.isNull).map
    fun entry => entry.1.1

/-- The error of a NULL where the column may not be NULL. -/
def cannotInsertNull (user table column : String) : OraError :=
  ⟨1400, "cannot insert NULL into " ++ columnTarget user table column⟩

/-- The enabled CHECK conditions of a table, in order. -/
def checkConditions (ev : Evaluator) (ex : Ex) (user : String) (t : Table) (values : Row) :
    List Constraint → EvalM Unit
  | [] => pure ()
  | c :: rest =>
      match c.enabled, c.kind with
      | true, .check condition => do
          if (← ev.evalBool ex condition (.row (tableScopeCols t t.name) values none)) =
              some false then
            throw ⟨2290, "check constraint (" ++ user ++ "." ++ c.name ++ ") violated"⟩
          checkConditions ev ex user t values rest
      | _, _ => checkConditions ev ex user t values rest

/-- Check NOT NULL and CHECK constraints for a full row. -/
def checkRow (ev : Evaluator) (ex : Ex) (t : Table) (values : Row) (updating : Bool) :
    EvalM Unit := do
  let user := (← get).env.user
  match t.missingColumn values with
  | some column =>
      throw (if updating then cannotUpdateToNull user t.name column.name
        else cannotInsertNull user t.name column.name)
  | none => checkConditions ev ex user t values t.constraints

/-! ## Statements -/

/-- What a DML statement runs with. -/
structure Dml where
  ev : Evaluator
  binds : List Value
  committed : Catalog
  vars : Option VarLookup

/-- What the expressions of a statement read. -/
def Dml.ex (ctx : Dml) (cat : Catalog) : Ex := ⟨cat, ctx.binds, ctx.committed, ctx.vars⟩

/-- Evaluate RETURNING expressions over the rows a statement changed. -/
def returningRows (ctx : Dml) (ex : Ex) (returning : Option Returning) (cols : List RelCol)
    (rows : List Row) : EvalM (List Row) :=
  match returning with
  | none => pure []
  | some r => forEach (fun row => forEach (fun e => ctx.ev.eval ex e (.row cols row none)) r.exprs) rows

/-- Convert a value for a column, in the session's environment. -/
def storeValue (ctx : Dml) (table : String) (column : TableColumn) (v : Value) : EvalM Value := do
  EvalM.lift (ctx.ev.storeValue (← get).env table column v)

/-- Draw the next value of a table's identity column. -/
def nextIdentity (table : String) : EvalM Int := fun st =>
  let next := st.identities.getD table 1
  .ok next { st with identities := st.identities.insert table (next + 1) }

/-- Positions of named columns, refusing with `repeated` a column that is named twice. -/
def distinctColumns (t : Table) (repeated : OraError) :
    List String → List Nat → Except OraError (List Nat)
  | [], targets => .ok targets
  | name :: rest, targets =>
      match t.columnIndex name with
      | none => .error (.invalidIdentifier ("\"" ++ name ++ "\""))
      | some i =>
          if targets.contains i then .error repeated
          else distinctColumns t repeated rest (targets ++ [i])

/-- Target positions of an INSERT: the columns it names, or all of them. -/
def insertTargets (t : Table) : Option (List String) → Except OraError (List Nat)
  | some names => distinctColumns t ⟨957, "duplicate column name"⟩ names []
  | none => .ok (List.range t.columns.length)

/-- Target positions of an UPDATE's assignments. -/
def updateTargets (t : Table) (assignments : List (String × Expr)) : Except OraError (List Nat) :=
  distinctColumns t
    ⟨1747, "invalid user.table.column, table.column, or column specification"⟩
    (assignments.map Prod.fst) []

/-- Defaults of the columns the statement leaves out. -/
def insertDefaults (t : Table) (targets : List Nat) : List Expr :=
  (t.columns.zipIdx.filter fun entry => !targets.contains entry.2).filterMap fun entry =>
    entry.1.default

/-- The value of one column of a new row: as given, from the identity counter, or the
default. A NULL for an identity column counts as not given. -/
def insertCell (ctx : Dml) (ex : Ex) (t : Table) (column : TableColumn) (given : Option Value) :
    EvalM Value := do
  let v ← match given with
    | some v =>
        if column.identity && v.isNull then Value.ofInt <$> nextIdentity t.name else pure v
    | none =>
        if column.identity then Value.ofInt <$> nextIdentity t.name
        else
          match column.default with
          | some d => ctx.ev.eval ex d (.empty none)
          | none => pure .null
  storeValue ctx t.name column v

/-- A full row from the values of the target columns. -/
def insertRow (ctx : Dml) (ex : Ex) (t : Table) (targets : List Nat) (src : Row) : EvalM Row := do
  let full ← forEach (fun entry => insertCell ctx ex t entry.1 ((targets.zip src).lookup entry.2))
    t.columns.zipIdx
  checkRow ctx.ev ex t full false
  return full

/-- Refuse a list of values that is longer or shorter than its targets. -/
def checkCount (given targets : Nat) : EvalM Unit := do
  if targets < given then throw ⟨913, "too many values"⟩
  if given < targets then throw ⟨947, "not enough values"⟩

/-- The rows of an INSERT. A VALUES list is one row, whose sequence values also serve the
defaults; of a query, each row is its own. -/
def insertSources (ctx : Dml) (ex : Ex) (t : Table) (targets : List Nat) :
    InsertSource → EvalM (List Row)
  | .values exprs => ctx.ev.withRow ex (exprs ++ insertDefaults t targets) do
      checkCount exprs.length targets.length
      let src ← forEach (fun e => ctx.ev.eval ex e (.empty none)) exprs
      forEach (insertRow ctx ex t targets) [src]
  | .query q => do
      let rel ← ctx.ev.query ex q none
      checkCount rel.cols.length targets.length
      forEach (fun src => ctx.ev.withRow ex (insertDefaults t targets) (insertRow ctx ex t targets src))
        rel.rows

/-- The evaluation half of INSERT: the rows to insert and what RETURNING yields. -/
def evalInsert (ctx : Dml) (ex : Ex) (t : Table) (ins : Insert) : EvalM (List Row × List Row) := do
  let targets ← EvalM.lift (insertTargets t ins.columns)
  let rows ← insertSources ctx ex t targets ins.source
  let returned ← returningRows ctx ex ins.returning (tableScopeCols t t.name) rows
  return (rows, returned)

/-- The rows a WHERE clause selects, in order of ids. ROWNUM counts those selected so far. -/
def matchRows (ctx : Dml) (ex : Ex) (cols : List RelCol) (condition : Expr) :
    List (Nat × Row) → List (Nat × Row) → EvalM (List (Nat × Row))
  | [], out => pure out
  | row :: rest, out => do
      let scope := Scope.mk cols row.2 none (out.length + 1) none
      if (← ctx.ev.evalBool ex condition scope) = some true then
        matchRows ctx ex cols condition rest (out ++ [row])
      else matchRows ctx ex cols condition rest out

/-- The rows that a WHERE clause selects, or all of them. -/
def matchingRows (ctx : Dml) (ex : Ex) (t : Table) (cols : List RelCol) (where_ : Option Expr) :
    EvalM (List (Nat × Row)) :=
  match where_ with
  | some condition => matchRows ctx ex cols condition t.rows.toList []
  | none => pure t.rows.toList

/-- Store a value in a column of a row. -/
def storeCell (ctx : Dml) (t : Table) (i : Nat) (v : Value) (row : Row) : EvalM Row :=
  match t.columns[i]? with
  | none => pure row
  | some column => do
      let v ← storeValue ctx t.name column v
      return row.set i v

/-- Assign to the target columns; every expression sees the old row. -/
def assignCells (ctx : Dml) (ex : Ex) (t : Table) (cols : List RelCol) (old : Row) :
    List ((String × Expr) × Nat) → Row → EvalM Row
  | [], row => pure row
  | ((_, e), i) :: rest, row => do
      let v ← ctx.ev.eval ex e (.row cols old none)
      let row ← storeCell ctx t i v row
      assignCells ctx ex t cols old rest row

/-- The new values of a row that an UPDATE changes. -/
def updateRow (ctx : Dml) (ex : Ex) (t : Table) (cols : List RelCol) (upd : Update)
    (targets : List Nat) (row : Nat × Row) : EvalM RowChange :=
  ctx.ev.withRow ex (upd.assignments.map Prod.snd) do
    let values ← assignCells ctx ex t cols row.2 (upd.assignments.zip targets) row.2
    checkRow ctx.ev ex t values true
    return ⟨row.1, values, row.2⟩

/-- The evaluation half of UPDATE. -/
def evalUpdate (ctx : Dml) (ex : Ex) (t : Table) (upd : Update) :
    EvalM (List RowChange × List Row) := do
  let cols := tableScopeCols t (upd.alias_.getD upd.table)
  let targets ← EvalM.lift (updateTargets t upd.assignments)
  let rows ← matchingRows ctx ex t cols upd.where_
  let changes ← forEach (updateRow ctx ex t cols upd targets) rows
  let returned ← returningRows ctx ex upd.returning cols (changes.map (·.values))
  return (changes, returned)

/-- The evaluation half of DELETE. -/
def evalDelete (ctx : Dml) (ex : Ex) (t : Table) (del : Delete) :
    EvalM (List (Nat × Row) × List Row) := do
  let cols := tableScopeCols t (del.alias_.getD del.table)
  let rows ← matchingRows ctx ex t cols del.where_
  let returned ← returningRows ctx ex del.returning cols (rows.map Prod.snd)
  return (rows, returned)

/-- What DML changes: counters and environment, the row id counter and the transaction. -/
structure DmlState where
  eval : EvalState
  nextRowId : Nat
  txn : Txn

/-- How a DML statement ends, with the state it leaves. -/
abbrev DmlResult := EStateM.Result OraError DmlState (Nat × List Row)

namespace Dml

/-- INSERT: evaluate the rows, then insert them one after another. -/
def insert (ctx : Dml) (ins : Insert) (st : DmlState) : DmlResult :=
  match st.txn.work.table ins.table with
  | none => .error .tableNotFound st
  | some t =>
      match evalInsert ctx (ctx.ex st.txn.work) t ins st.eval with
      | .error e eval => .error e { st with eval }
      | .ok (rows, returned) eval =>
          match st.txn.insertRows eval.env.user ins.table rows st.nextRowId with
          | (.error e, nextRowId, txn) => .error e ⟨eval, nextRowId, txn⟩
          | (.ok _, nextRowId, txn) => .ok (rows.length, returned) ⟨eval, nextRowId, txn⟩

/-- UPDATE: evaluate the new rows, then replace all of them at once. -/
def update (ctx : Dml) (upd : Update) (st : DmlState) : DmlResult :=
  match st.txn.work.table upd.table with
  | none => .error .tableNotFound st
  | some t =>
      match evalUpdate ctx (ctx.ex st.txn.work) t upd st.eval with
      | .error e eval => .error e { st with eval }
      | .ok (changes, returned) eval =>
          match st.txn.updateRows eval.env.user upd.table changes with
          | (.error e, txn) => .error e { st with eval, txn }
          | (.ok _, txn) => .ok (changes.length, returned) { st with eval, txn }

/-- DELETE: select the rows, then delete them one after another. -/
def delete (ctx : Dml) (del : Delete) (st : DmlState) : DmlResult :=
  match st.txn.work.table del.table with
  | none => .error .tableNotFound st
  | some t =>
      match evalDelete ctx (ctx.ex st.txn.work) t del st.eval with
      | .error e eval => .error e { st with eval }
      | .ok (rows, returned) eval =>
          .ok (rows.length, returned) { st with eval, txn := st.txn.deleteRows del.table rows }

end Dml

/-! ## What evaluation returns -/

/-- A row passed the checks of its table in some state. -/
def Passes (ev : Evaluator) (ex : Ex) (t : Table) (values : Row) : Prop :=
  ∃ updating before after, checkRow ev ex t values updating before = .ok () after

section Statements

variable {ctx : Dml} {ex : Ex} {t : Table} {st st' : EvalState}

/-- A row that is made for an INSERT is as wide as the table and has passed its checks. -/
theorem insertRow_ok {targets : List Nat} {src full : Row}
    (success : insertRow ctx ex t targets src st = .ok full st') :
    full.length = t.columns.length ∧ Passes ctx.ev ex t full := by
  obtain ⟨row, middle, filled, rest⟩ := bind_ok success
  obtain ⟨_, after, checked, last⟩ := bind_ok rest
  rw [(pure_ok last).1]
  refine ⟨?_, false, middle, after, checked⟩
  have length := (forEach_ok filled).length_eq
  rw [← length, List.length_zipIdx]

/-- All rows of an INSERT are as wide as the table and have passed its checks. -/
theorem insertSources_ok {targets : List Nat} {source : InsertSource} {rows : List Row}
    (success : insertSources ctx ex t targets source st = .ok rows st') :
    ∀ row ∈ rows, row.length = t.columns.length ∧ Passes ctx.ev ex t row := by
  cases source with
  | values exprs =>
      obtain ⟨_, _, body⟩ := withRow_ok success
      obtain ⟨_, _, _, rest⟩ := bind_ok body
      obtain ⟨src, _, _, filled⟩ := bind_ok rest
      intro row member
      obtain ⟨_, _, before, after, inserted⟩ := forEach_mem filled member
      exact insertRow_ok inserted
  | query q =>
      obtain ⟨rel, _, _, rest⟩ := bind_ok success
      obtain ⟨_, _, _, filled⟩ := bind_ok rest
      intro row member
      obtain ⟨_, _, before, after, inserted⟩ := forEach_mem filled member
      obtain ⟨_, _, body⟩ := withRow_ok inserted
      exact insertRow_ok body

/-- New rows are as wide as the table and have passed its checks. -/
theorem evalInsert_ok {ins : Insert} {result : List Row × List Row}
    (success : evalInsert ctx ex t ins st = .ok result st') :
    ∀ row ∈ result.1, row.length = t.columns.length ∧ Passes ctx.ev ex t row := by
  obtain ⟨targets, _, _, rest⟩ := bind_ok success
  obtain ⟨rows, _, filled, rest⟩ := bind_ok rest
  obtain ⟨returned, _, _, last⟩ := bind_ok rest
  rw [(pure_ok last).1]
  exact insertSources_ok filled

/-- The selected rows are rows of the list, in its order. -/
theorem matchRows_ok {cols : List RelCol} {condition : Expr} {rows out found : List (Nat × Row)}
    (success : matchRows ctx ex cols condition rows out st = .ok found st') :
    ∃ selected, found = out ++ selected ∧ selected.Sublist rows := by
  induction rows generalizing st out with
  | nil =>
      rw [(pure_ok success).1]
      exact ⟨[], by simp, .slnil⟩
  | cons row rest ih =>
      obtain ⟨keep, _, _, later⟩ := bind_ok success
      split at later
      · obtain ⟨selected, equal, part⟩ := ih later
        exact ⟨row :: selected, by simp [equal], part.cons_cons row⟩
      · obtain ⟨selected, equal, part⟩ := ih later
        exact ⟨selected, equal, part.cons row⟩

/-- A WHERE clause selects among the rows of the table. -/
theorem matchingRows_ok {cols : List RelCol} {where_ : Option Expr} {found : List (Nat × Row)}
    (success : matchingRows ctx ex t cols where_ st = .ok found st') :
    found.Sublist t.rows.toList := by
  unfold matchingRows at success
  cases where_ with
  | none =>
      rw [(pure_ok success).1]
  | some condition =>
      obtain ⟨selected, equal, part⟩ := matchRows_ok success
      rw [List.nil_append] at equal
      exact equal ▸ part

/-- No id occurs twice in a table. -/
theorem nodup_toList (t : Table) : (t.rows.toList.map Prod.fst).Nodup := by
  rw [List.Nodup, List.pairwise_map]
  refine (ExtTreeMap.distinct_keys_toList (t := t.rows)).imp ?_
  intro row other different same
  exact different (by rw [same]; exact compare_self)

/-- Selected rows of a table are stored in it under different ids. -/
theorem selected_rows {rows : List (Nat × Row)} (part : rows.Sublist t.rows.toList) :
    (rows.map Prod.fst).Nodup ∧ ∀ row ∈ rows, t.rows[row.1]? = some row.2 :=
  ⟨(nodup_toList t).sublist (part.map Prod.fst), fun _ member =>
    ExtTreeMap.mem_toList_iff_getElem?_eq_some.mp (part.subset member)⟩

/-- Storing a cell keeps the width of the row. -/
theorem storeCell_ok {i : Nat} {v : Value} {row values : Row}
    (success : storeCell ctx t i v row st = .ok values st') : values.length = row.length := by
  unfold storeCell at success
  cases column : t.columns[i]? with
  | none =>
      rw [column] at success
      rw [(pure_ok success).1]
  | some c =>
      rw [column] at success
      obtain ⟨stored, _, _, last⟩ := bind_ok success
      rw [(pure_ok last).1, List.length_set]

/-- Assigning cells keeps the width of the row. -/
theorem assignCells_ok {cols : List RelCol} {old row values : Row}
    {assignments : List ((String × Expr) × Nat)}
    (success : assignCells ctx ex t cols old assignments row st = .ok values st') :
    values.length = row.length := by
  induction assignments generalizing st row with
  | nil => rw [(pure_ok success).1]
  | cons assignment rest ih =>
      obtain ⟨v, _, _, later⟩ := bind_ok success
      obtain ⟨row', _, stored, last⟩ := bind_ok later
      rw [ih last, storeCell_ok stored]

/-- An updated row keeps its id and its width, and remembers its old values. -/
theorem updateRow_ok {cols : List RelCol} {upd : Update} {targets : List Nat} {row : Nat × Row}
    {r : RowChange} (success : updateRow ctx ex t cols upd targets row st = .ok r st') :
    (r.id, r.old) = row ∧ r.values.length = r.old.length ∧ Passes ctx.ev ex t r.values := by
  obtain ⟨middle, _, body⟩ := withRow_ok success
  obtain ⟨values, _, assigned, rest⟩ := bind_ok body
  obtain ⟨_, _, checked, last⟩ := bind_ok rest
  rw [(pure_ok last).1]
  exact ⟨rfl, assignCells_ok assigned, true, _, _, checked⟩

/-- Changed rows are distinct rows of the table, keep their width and have passed its
checks. -/
theorem evalUpdate_ok {upd : Update} {result : List RowChange × List Row}
    (success : evalUpdate ctx ex t upd st = .ok result st') :
    (result.1.map RowChange.id).Nodup ∧
      ∀ r ∈ result.1, t.rows[r.id]? = some r.old ∧ r.values.length = r.old.length ∧
        Passes ctx.ev ex t r.values := by
  obtain ⟨targets, _, _, rest⟩ := bind_ok success
  obtain ⟨rows, _, matched, rest⟩ := bind_ok rest
  obtain ⟨changes, _, changed, rest⟩ := bind_ok rest
  obtain ⟨returned, _, _, last⟩ := bind_ok rest
  rw [(pure_ok last).1]
  have same : changes.map (fun r => (r.id, r.old)) = rows := by
    have each := (forEach_ok changed).imp fun row r ⟨_, _, updated⟩ => (updateRow_ok updated).1
    rw [← List.forall₂_eq_eq_eq, List.forall₂_map_left_iff]
    exact each.flip
  obtain ⟨distinct, stored⟩ := selected_rows (matchingRows_ok matched)
  constructor
  · have ids : changes.map RowChange.id = rows.map Prod.fst := by
      rw [← same, List.map_map]
      rfl
    rw [ids]
    exact distinct
  · intro r member
    obtain ⟨row, among, _, _, updated⟩ := forEach_mem changed member
    refine ⟨?_, (updateRow_ok updated).2⟩
    have found := stored row among
    rw [← (updateRow_ok updated).1] at found
    exact found

/-- The rows that a DELETE selects are stored in the table under different ids. -/
theorem evalDelete_ok {del : Delete} {result : List (Nat × Row) × List Row}
    (success : evalDelete ctx ex t del st = .ok result st') :
    (result.1.map Prod.fst).Nodup ∧ ∀ row ∈ result.1, t.rows[row.1]? = some row.2 := by
  obtain ⟨rows, _, matched, rest⟩ := bind_ok success
  obtain ⟨returned, _, _, last⟩ := bind_ok rest
  rw [(pure_ok last).1]
  exact selected_rows (matchingRows_ok matched)

end Statements

end MockOracle
