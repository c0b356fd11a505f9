import MockOracle.Eval.Engine

/-!
# Queries

Joins, SELECT blocks, set operations, ORDER BY and paging, and the evaluator they complete.
-/

namespace MockOracle

open Std

/-- A select-list item after `*` is expanded. -/
inductive Item where
  | source (i : Nat)
  | expr (e : Expr)

/-- What a row is ordered by: an output column, or an expression over the source. -/
inductive SortKey where
  | output (i : Nat)
  | expr (e : Expr)

namespace Item

/-- The expression of an item, unless it is a column of the source. -/
def expr? : Item → Option Expr
  | source _ => none
  | expr e => some e

/-- Whether the item is a column, however it is written. -/
def isColumn : Item → Bool
  | source _ | expr (.column _ _) => true
  | _ => false

end Item

/-- The expression of a key, unless it is an output column. -/
def SortKey.expr? : SortKey → Option Expr
  | output _ => none
  | expr e => some e

namespace Select

/-- The SELECT list. -/
def items : Select → List SelectItem
  | mk _ items _ _ _ _ => items

/-- The FROM clause. -/
def fromItems : Select → List FromItem
  | mk _ _ fromItems _ _ _ => fromItems

/-- Whether duplicate rows go. -/
def distinct : Select → Bool
  | mk distinct _ _ _ _ _ => distinct

/-- The WHERE clause. -/
def where_ : Select → Option Expr
  | mk _ _ _ where_ _ _ => where_

/-- The GROUP BY expressions. -/
def groupBy : Select → List Expr
  | mk _ _ _ _ groupBy _ => groupBy

/-- The HAVING clause. -/
def having : Select → Option Expr
  | mk _ _ _ _ _ having => having

end Select

/-- The expression of an ORDER BY item. -/
def OrderItem.expr : OrderItem → Expr
  | mk e _ _ => e

/-- Each row with the values it is ordered by. -/
abbrev KeyedRows := List (Row × Row)

/-! ## FROM -/

/-- Every pair of rows. -/
def cross (left right : Relation) : Relation where
  cols := left.cols ++ right.cols
  rows := left.rows.flatMap fun l => right.rows.map fun r => l ++ r

/-- The rows of a join, from the right rows that match each left row. A row without a partner
is padded with NULLs when the join keeps it. -/
def joinedRows (kind : JoinKind) (lw rw : Nat) (left right : List Row)
    (matched : List (List (Row × Nat))) : List Row :=
  let keepLeft := kind = .left ∨ kind = .full
  let keepRight := kind = .right ∨ kind = .full
  let pairs := (left.zip matched).flatMap fun entry =>
    if entry.2.isEmpty ∧ keepLeft then [entry.1 ++ List.replicate rw .null]
    else entry.2.map fun r => entry.1 ++ r.1
  let alone := right.zipIdx.filter fun r => matched.all fun found => found.all fun m => m.2 ≠ r.2
  pairs ++ if keepRight then alone.map fun r => List.replicate lw .null ++ r.1 else []

section Step

variable (eng : Engine) (self : Recur) (ex : Ex) (parent : Option Scope)

/-- Join two relations: the pairs that the condition accepts, and the rows without a partner that
the join keeps. -/
def join (kind : JoinKind) (left right : Relation) (on : Option Expr) : EvalM Relation := do
  let cols := left.cols ++ right.cols
  let accepts (row : Row) : EvalM Bool :=
    match on with
    | some on => do return (← self.evalBool ex on (.row cols row parent)) == some true
    | none => return true
  let matched ← forEach (fun l => keepWhere (fun r => accepts (l ++ r.1)) right.rows.zipIdx) left.rows
  return ⟨cols, joinedRows kind left.cols.length right.cols.length left.rows right.rows matched⟩

/-- The rows of a table, of DUAL, of a view of the catalog, or of a subquery. -/
def tableFactor : TableFactor → EvalM Relation
  | .table name alias_ => do
      let qualifier := some (alias_.getD name)
      match ex.cat.table name with
      | some t =>
          return ⟨t.columns.map fun c => ⟨qualifier, c.name, c.sqlType⟩, t.rows.toList.map Prod.snd⟩
      | none =>
          if name = "DUAL" then
            return ⟨[⟨qualifier, "DUMMY", .varchar2 1⟩], [[Value.varchar "X"]]⟩
          else throw .tableNotFound
  | .subquery q alias_ => do
      let rel ← self.query ex q parent
      return { rel with cols := rel.cols.map fun c => { c with qualifier := alias_ } }

/-- Join one table to what is joined so far. -/
def joinOne (kind : JoinKind) (left right : Relation) (on : Option Expr) : EvalM Relation :=
  match kind with
  | .cross => return cross left right
  | kind => join self ex parent kind left right on

/-- Join tables one after another. -/
def joinAll : Relation → List Join → EvalM Relation
  | left, [] => pure left
  | left, .mk kind factor on :: rest => do
      let right ← tableFactor self ex parent factor
      let joined ← joinOne self ex parent kind left right on
      joinAll joined rest

/-- One entry of a FROM clause with its joins. -/
def sourceItem : FromItem → EvalM Relation
  | .mk factor joins => do
      let left ← tableFactor self ex parent factor
      joinAll self ex parent left joins

/-- The relation of a FROM clause. -/
def sourceItems : Option Relation → List FromItem → EvalM Relation
  | source, [] => return source.getD ⟨[], []⟩
  | source, item :: rest => do
      let rel ← sourceItem self ex parent item
      sourceItems (some (source.elim rel fun left => cross left rel)) rest

/-! ## The select list and ORDER BY -/

/-- The columns a `*` stands for. -/
def starItems (cols : List RelCol) (keep : RelCol → Bool) : List (Item × String) :=
  (cols.zipIdx.filter fun c => keep c.1).map fun c => (.source c.2, c.1.name)

/-- The columns that an entry of a SELECT list stands for. -/
def expandItem (cols : List RelCol) : SelectItem → Except OraError (List (Item × String))
  | .star => .ok (starItems cols fun _ => true)
  | .qualifiedStar t =>
      let items := starItems cols fun c => c.qualifier == some t
      if items.isEmpty then .error (.invalidIdentifier ("\"" ++ t ++ "\"")) else .ok items
  | .expr e name => .ok [(.expr e, name)]

/-- The columns of a SELECT list. -/
def expandItems (cols : List RelCol) (items : List SelectItem) :
    Except OraError (List (Item × String)) :=
  List.flatten <$> items.mapM (expandItem cols)

/-- A number literal as a position. -/
def positionLiteral : Expr → Option Int
  | .literal (.number n) =>
      (Semantics.Decimal.readInteger n.toText.toList).filter fun p => BigDecimal.InBits 64 p
  | _ => none

/-- The error of an ORDER BY position or name that is not there. -/
def badPosition : OraError :=
  ⟨1785, "ORDER BY item must be the number of a SELECT-list expression"⟩

/-- The select-list item an ORDER BY name stands for. -/
def itemByName (items : List (Item × String)) : Expr → Except OraError (Option Nat)
  | .column none name =>
      let found := items.zipIdx.filter fun i => i.1.2 = name
      match found with
      | [] => .ok none
      | [i] => .ok (some i.2)
      | i :: _ =>
          if found.all fun i => i.1.1.isColumn then .ok (some i.2)
          else .error ⟨960, "ambiguous column naming in select list"⟩
  | _ => .ok none

/-- What an ORDER BY item sorts by: an output column by position or name, or an expression. -/
def sortKey (items : List (Item × String)) (o : OrderItem) : Except OraError SortKey := do
  let byName ← itemByName items o.expr
  match positionLiteral o.expr, byName with
  | some p, _ =>
      if p < 1 ∨ (items.length : Int) < p then throw badPosition
      return .output (p.toNat - 1)
  | none, some i => return .output i
  | none, none => return .expr o.expr

/-! ## Rows -/

/-- Whether an optional condition holds. -/
def holds (condition : Option Expr) (scope : Scope) : EvalM Bool :=
  match condition with
  | none => return true
  | some c => (· == some true) <$> self.evalBool ex c scope

/-- The rows WHERE accepts, each with its ROWNUM. -/
def acceptRows (cols : List RelCol) (where_ : Option Expr) :
    List Row → List (Int × Row) → EvalM (List (Int × Row))
  | [], accepted => pure accepted
  | row :: rest, accepted => do
      let rownum : Int := accepted.length + 1
      if where_.any containsAggregate then throw notAllowed
      let kept ← holds self ex where_ (.mk cols row none rownum parent)
      acceptRows cols where_ rest (if kept then accepted ++ [(rownum, row)] else accepted)

/-- The expressions of a result row. -/
def rowExprs (items : List (Item × String)) (keys : List SortKey) : List Expr :=
  items.filterMap (·.1.expr?) ++ keys.filterMap (·.expr?)

/-- The values of one row and of its ORDER BY keys, after its numbers have been drawn. -/
def computeBody (items : List (Item × String)) (keys : List SortKey) (scope : Scope) :
    EvalM (Row × Row) := do
  let values ← forEach (fun item : Item × String =>
    match item.1 with
    | .source i => pure (scope.values.getD i .null)
    | .expr e => self.eval ex e scope) items
  let keyValues ← forEach (fun key =>
    match key with
    | .output i => pure (values.getD i .null)
    | .expr e => self.eval ex e scope) keys
  return (values, keyValues)

/-- The values of a row and of its ORDER BY keys. -/
def compute (items : List (Item × String)) (keys : List SortKey) (scope : Scope) :
    EvalM (Row × Row) :=
  rowGuard ex (rowExprs items keys) (computeBody self ex items keys scope)

/-- Put a row into the group of its key; groups stand in the order they were first seen. -/
def addToGroup (key : String) (row : Row) :
    List (String × List Row) → List (String × List Row)
  | [] => [(key, [row])]
  | (k, rows) :: rest =>
      if k = key then (k, rows ++ [row]) :: rest else (k, rows) :: addToGroup key row rest

/-- The rows grouped by the values of the GROUP BY expressions. -/
def groupRows (cols : List RelCol) (groupBy : List Expr) :
    List (Int × Row) → List (String × List Row) → EvalM (List (List Row))
  | [], groups => return groups.map Prod.snd
  | (rownum, row) :: rest, groups => do
      let key ← forEach (fun g =>
        if containsAggregate g then throw notAllowed
        else self.eval ex g (.mk cols row none rownum parent)) groupBy
      groupRows cols groupBy rest (addToGroup (keyString key) row groups)

/-- One result row for each group that HAVING accepts. -/
def computeGroups (cols : List RelCol) (items : List (Item × String)) (keys : List SortKey)
    (having : Option Expr) : List (List Row × Nat) → EvalM KeyedRows
  | [] => return []
  | (group, n) :: rest => do
      let first := group.head?.getD (List.replicate cols.length .null)
      let scope := Scope.mk cols first (some group) (n + 1) parent
      if ← holds self ex having scope then
        let row ← compute self ex items keys scope
        return row :: (← computeGroups cols items keys having rest)
      else computeGroups cols items keys having rest

/-- Whether a SELECT block computes a row for each group and not for each row. -/
def isGrouped (s : Select) (items : List (Item × String)) (keys : List SortKey) : Bool :=
  !s.groupBy.isEmpty || s.having.isSome || items.any (·.1.expr?.any containsAggregate) ||
    keys.any (·.expr?.any containsAggregate)

/-- The groups of the accepted rows; without GROUP BY all of them are one. -/
def groupsOf (s : Select) (cols : List RelCol) (accepted : List (Int × Row)) :
    EvalM (List (List Row)) :=
  if s.groupBy.isEmpty then return [accepted.map Prod.snd]
  else groupRows self ex parent cols s.groupBy accepted []

/-- The result rows of the accepted rows. -/
def computeRows (s : Select) (cols : List RelCol) (items : List (Item × String))
    (keys : List SortKey) (accepted : List (Int × Row)) : EvalM KeyedRows :=
  if isGrouped s items keys then
    if items.any (·.1.expr?.isNone) then throw ⟨979, "not a GROUP BY expression"⟩
    else do
      let groups ← groupsOf self ex parent s cols accepted
      computeGroups self ex parent cols items keys s.having groups.zipIdx
  else forEach (fun row => compute self ex items keys (.mk cols row.2 none row.1 parent)) accepted

/-- The result rows of a SELECT block before they are typed. -/
def selectRows (s : Select) (source : Relation) (items : List (Item × String))
    (keys : List SortKey) : EvalM KeyedRows := do
  let accepted ← acceptRows self ex parent source.cols s.where_ source.rows []
  let out ← computeRows self ex parent s source.cols items keys accepted
  return if s.distinct then distinctBy (fun row => keyString row.1) out else out

/-- The type of a result column. -/
def itemType (source : List RelCol) (item : Item) (values : List Value) : SqlType :=
  inferType (match item with
    | .source i => source[i]?.map RelCol.sqlType
    | .expr e => staticType source e) values

/-- The result columns: declared types where the expression has one, otherwise by the values. -/
def resultCols (source : List RelCol) (items : List (Item × String)) (rows : KeyedRows) :
    List RelCol :=
  items.zipIdx.map fun entry =>
    ⟨none, entry.1.2, itemType source entry.1.1 (rows.map fun row => row.1.getD entry.2 .null)⟩

/-- Convert result rows to the types of the result columns. -/
def coerceRows (cols : List RelCol) (rows : KeyedRows) : EvalM KeyedRows :=
  forEach (fun row => do
    return (← EvalM.lift (coerceRow eng.lib.dates (← get).env cols row.1), row.2)) rows

/-- Run one SELECT block. -/
def select (s : Select) (orderBy : List OrderItem) : EvalM (List RelCol × KeyedRows) := do
  let source ← sourceItems self ex parent none s.fromItems
  let items ← EvalM.lift (expandItems source.cols s.items)
  let keys ← EvalM.lift (orderBy.mapM (sortKey items))
  let rows ← selectRows self ex parent s source items keys
  let cols := resultCols source.cols items rows
  return (cols, ← coerceRows eng cols rows)

/-! ## Set operations -/

/-- The columns of a set operation. -/
def unionCols : List RelCol → List RelCol → Except OraError (List RelCol)
  | a :: left, b :: right =>
      return { a with sqlType := ← unionType a.sqlType b.sqlType } :: (← unionCols left right)
  | _, _ => .ok []

/-- The rows of a set operation before they are typed. -/
def unionRows (op : SetOp) (left right : List Row) : List Row :=
  let among (row : Row) : Bool := (right.map keyString).contains (keyString row)
  match op with
  | .unionAll => left ++ right
  | .union => distinctBy keyString (left ++ right)
  | .intersect => distinctBy keyString (left.filter among)
  | .minus => distinctBy keyString (left.filter fun row => !among row)

/-- The rows of a body: of a SELECT block, or of two bodies combined. -/
def setExpr : SetExpr → EvalM Relation
  | .select s => do
      let (cols, rows) ← select eng self ex parent s []
      return ⟨cols, rows.map Prod.fst⟩
  | .setOp op left right => do
      let l ← setExpr left
      let r ← setExpr right
      if l.cols.length ≠ r.cols.length then
        throw ⟨1789, "query block has incorrect number of result columns"⟩
      let cols ← EvalM.lift (unionCols l.cols r.cols)
      let rows ← forEach (fun row => do
        EvalM.lift (coerceRow eng.lib.dates (← get).env cols row)) (unionRows op l.rows r.rows)
      return ⟨cols, rows⟩
termination_by structural body => body

/-! ## Ordering and paging -/

/-- Compare two rows by one ORDER BY item. -/
def compareKey (dates : DateFormats) (format : String) (item : OrderItem) (a b : Value) :
    Except OraError Ordering :=
  match item with
  | .mk _ desc nullsFirst => do
      let nullsFirst := nullsFirst.getD desc
      match a.isNull, b.isNull with
      | true, true => return .eq
      | true, false => return if nullsFirst then .lt else .gt
      | false, true => return if nullsFirst then .gt else .lt
      | false, false =>
          let order := (← compareValues dates format a b).getD .eq
          return if desc then order.swap else order

/-- Compare the key values of two rows. -/
def compareKeys (dates : DateFormats) (format : String) :
    List OrderItem → Row → Row → Except OraError Ordering
  | item :: items, a :: as, b :: bs => do
      match ← compareKey dates format item a b with
      | .eq => compareKeys dates format items as bs
      | order => return order
  | _, _, _ => .ok .eq

/-- Sort rows by their keys, keeping the order of equal ones. Which rows the library's sort
compares is its own matter, so that here a failing comparison of any two rows fails. -/
def sortRows (dates : DateFormats) (format : String) (orderBy : List OrderItem) (rows : KeyedRows) :
    Except OraError KeyedRows := do
  for a in rows do
    for b in rows do
      let _ ← compareKeys dates format orderBy a.2 b.2
  return rows.mergeSort fun a b =>
    (compareKeys dates format orderBy a.2 b.2).toOption.getD .eq != .gt

/-- The output column an ORDER BY item of a set operation stands for. -/
def outputPosition (cols : List RelCol) (e : Expr) : Except OraError Nat :=
  match positionLiteral e, e with
  | some p, _ => if p < 1 ∨ (cols.length : Int) < p then .error badPosition else .ok (p.toNat - 1)
  | none, .column none name =>
      (cols.findIdx? fun c => c.name == name).elim (.error badPosition) .ok
  | none, _ => .error badPosition

/-- OFFSET and FETCH: a number of rows, rounded down. -/
def limit (e : Option Expr) : EvalM (Option Nat) := do
  match e with
  | none => return none
  | some e =>
      match ← EvalM.lift (← self.eval ex e (.empty parent)).toNumber with
      | none => return some 0
      | some n => return some (n.withScale 0).intVal.toNat

/-- The columns of a query and its rows, with the values they are ordered by. -/
def queryBody (orderBy : List OrderItem) : SetExpr → EvalM (List RelCol × KeyedRows)
  | .select s => select eng self ex parent s orderBy
  | body => do
      let rel ← setExpr eng self ex parent body
      let keys ← EvalM.lift (orderBy.mapM fun o => outputPosition rel.cols o.expr)
      return (rel.cols, rel.rows.map fun row => (row, keys.map fun k => row.getD k .null))

/-- ORDER BY over the rows of a body. -/
def orderRows (orderBy : List OrderItem) (rows : KeyedRows) : EvalM KeyedRows :=
  if orderBy.isEmpty then return rows
  else do EvalM.lift (sortRows eng.lib.dates (← dateFormat) orderBy rows)

/-- Run a query: its body, its order, and the rows that OFFSET and FETCH leave. -/
def queryStep : Query → EvalM Relation
  | .mk body orderBy offset fetch => do
      let (cols, rows) ← queryBody eng self ex parent orderBy body
      let rows := (← orderRows eng orderBy rows).map Prod.fst
      let rows := rows.drop ((← limit self ex parent offset).getD 0)
      return ⟨cols, ((← limit self ex parent fetch).map rows.take).getD rows⟩

end Step

/-! ## The evaluator -/

/-- What is nested deeper than the levels at hand is refused. -/
def tooDeep : OraError := ⟨600, "nested too deeply"⟩

/-- The evaluator for expressions and queries nested no deeper than a number of levels. -/
def Engine.levels (eng : Engine) : Nat → Recur
  | 0 => ⟨fun _ _ _ => throw tooDeep, fun _ _ _ => throw tooDeep, fun _ _ _ => throw tooDeep⟩
  | n + 1 =>
      { eval := evalStep eng (eng.levels n)
        evalBool := evalBoolStep eng (eng.levels n)
        query := fun ex q parent => queryStep eng (eng.levels n) ex parent q }

end MockOracle
