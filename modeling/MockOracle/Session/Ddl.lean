import MockOracle.Session.Session

/-!
# DDL

DDL statements change the committed catalog directly and raise its version when they
succeed. CREATE TABLE changes it step by step and takes the table back out if a step
fails; ALTER TABLE works on a copy. Validating a constraint evaluates conditions, so it
may also move counters. Names that the database generates are drawn from a counter.
-/

namespace MockOracle

open Std Semantics

/-! ## Constraints -/

/-- What a DDL statement changes while it builds a catalog. -/
structure DdlState where
  eval : EvalState
  nextConstraint : Nat
  cat : Catalog

/-- How a step of a DDL statement ends, with the state it leaves. -/
abbrev DdlResult := EStateM.Result OraError DdlState Unit

/-- A system-generated constraint name such as `SYS_C0010001`. -/
def constraintName (n : Nat) : String :=
  let digits := toString n
  "SYS_C" ++ "".pushn '0' (7 - digits.length) ++ digits

/-- The positions of columns by their names. -/
def resolveColumns (t : Table) : List String → Except OraError (List Nat)
  | [] => .ok []
  | name :: rest =>
      match t.columnIndex name with
      | none => .error (.invalidIdentifier ("\"" ++ name ++ "\""))
      | some i => (resolveColumns t rest).map (i :: ·)

/-- Which types a foreign key column may pair with. -/
def typeFamily : SqlType → Nat
  | .number _ _ => 0
  | .varchar2 _ | .char _ => 1
  | .date => 2
  | .timestamp _ => 3

/-- A constraint with its columns resolved: a unique one, with the error for duplicates in
the rows already there, or one of another kind. -/
inductive ResolvedConstraint where
  | unique (columns : List Nat) (primary : Bool) (duplicates : OraError)
  | other (kind : ConstraintKind)

/-- The error of rows that a new constraint does not hold of. -/
def cannotValidate (user : String) (code : Nat) (name why : String) : OraError :=
  ⟨code, "cannot validate (" ++ user ++ "." ++ name ++ ") - " ++ why⟩

/-- The error of NULLs in the columns of a new primary key. -/
def containsNull : OraError := ⟨1449, "column contains NULL values; cannot alter to NOT NULL"⟩

/-- Whether some row has a NULL in one of some columns. -/
def Table.hasNull (t : Table) (columns : List Nat) : Bool :=
  t.rows.toList.any fun row => columns.any fun i => (cell row.2 i).isNull

/-- The columns of the primary key, enabled or not. -/
def Table.primaryColumns (t : Table) : Option (List Nat) :=
  t.constraints.findSome? fun c => if c.isPrimary then c.uniqueColumns else none

/-- Resolve a foreign key. The referenced columns must be exactly those of a primary key or
unique constraint, in any order; the referencing columns are lined up with that order. -/
def resolveForeignKey (cat : Catalog) (t : Table) (columns : List String) (parent : String)
    (refColumns : List String) (onDelete : OnDelete) : Except OraError ConstraintKind := do
  let idx ← resolveColumns t columns
  let p ← (cat.table parent).elim (.error .tableNotFound) .ok
  let refs ←
    if refColumns.isEmpty then
      p.primaryColumns.elim (.error ⟨2268, "referenced table does not have a primary key"⟩) .ok
    else resolveColumns p refColumns
  if refs.length ≠ idx.length then
    throw ⟨2256, "number of referencing columns must match referenced columns"⟩
  let matching := fun (k : Constraint) => (k.uniqueColumns).filter fun key =>
    !k.isIndex && key.length == refs.length && key.all refs.contains
  let key ← (p.constraints.findSome? matching).elim
    (.error ⟨2270, "no matching unique or primary key for this column-list"⟩) .ok
  let columns := key.map fun k => idx.getD (refs.idxOf k) 0
  let family := fun (t : Table) (i : Nat) => (t.columns[i]?).map fun c => typeFamily c.sqlType
  if (columns.zip key).any fun pair => family t pair.1 != family p pair.2 then
    throw ⟨2267, "column type incompatible with referenced column type"⟩
  return .foreignKey columns parent key onDelete

/-- Resolve the columns of a constraint in its table. -/
def resolveConstraint (user : String) (cat : Catalog) (t : Table) (name : String)
    (c : TableConstraint) : Except OraError ResolvedConstraint :=
  match c.kind with
  | .primaryKey cols =>
      if t.hasPrimaryKey then .error ⟨2260, "table can have only one primary key"⟩
      else
        match resolveColumns t cols with
        | .error e => .error e
        | .ok idx =>
            if c.enabled && t.hasNull idx then .error containsNull
            else .ok (.unique idx true (cannotValidate user 2437 name "primary key violated"))
  | .unique cols =>
      (resolveColumns t cols).map fun idx =>
        .unique idx false (cannotValidate user 2299 name "duplicate keys found")
  | .check condition => .ok (.other (.check condition))
  | .foreignKey columns parent refColumns onDelete =>
      (resolveForeignKey cat t columns parent refColumns onDelete).map .other

/-- Evaluate a CHECK condition for rows, stopping at the first that it refuses. -/
def validateRows (ev : Evaluator) (ex : Ex) (t : Table) (condition : Expr) (violated : OraError) :
    List (Nat × Row) → EvalM Unit
  | [] => pure ()
  | row :: rest => do
      if (← ev.evalBool ex condition (.row (tableScopeCols t t.name) row.2 none)) = some false then
        throw violated
      validateRows ev ex t condition violated rest

/-- Check the rows already in a table against its constraint at position `i`. -/
def validateConstraint (ev : Evaluator) (committed cat : Catalog) (table : String) (i : Nat) :
    EvalM Unit := fun st =>
  match (cat.table table).bind fun t => (t.constraints[i]?).map fun c => (t, c) with
  | none => .ok () st
  | some (t, c) =>
      match c.kind with
      | .check condition =>
          validateRows ev ⟨cat, [], committed, none⟩ t condition
            (cannotValidate st.env.user 2293 c.name "check constraint violated") t.rows.toList st
      | .foreignKey columns parent parentColumns _ =>
          match cat.table parent with
          | none => .error .tableNotFound st
          | some p =>
              if t.rows.toList.any fun row => (foreignKey columns row.2).any fun key =>
                  !p.hasKey parentColumns key then
                .error (cannotValidate st.env.user 2298 c.name "parent keys not found") st
              else .ok () st
      | .unique columns true _ => if t.hasNull columns then .error containsNull st else .ok () st
      | _ => .ok () st

/-- Run a validation within DDL. -/
def DdlState.validate (st : DdlState) (ev : Evaluator) (committed : Catalog) (table : String)
    (i : Nat) : DdlResult :=
  match validateConstraint ev committed st.cat table i st.eval with
  | .ok _ eval => .ok () { st with eval }
  | .error e eval => .error e { st with eval }

/-- Give a constraint its name, drawing one if the statement has none. -/
def DdlState.nameConstraint (st : DdlState) (c : TableConstraint) : String × DdlState :=
  match c.name with
  | some name => (name, st)
  | none => (constraintName st.nextConstraint, { st with nextConstraint := st.nextConstraint + 1 })

/-- Add a constraint to a table, checking the rows already there unless it is disabled or
NOVALIDATE. On failure the catalog may be left half changed. -/
def addConstraint (ev : Evaluator) (committed : Catalog) (table : String) (c : TableConstraint)
    (st : DdlState) : DdlResult :=
  let (name, st) := st.nameConstraint c
  if st.cat.tables.toList.any fun entry => entry.2.constraints.any fun k =>
      !k.isIndex && k.name == name then
    .error ⟨2264, "name already used by an existing constraint"⟩ st
  else
    match st.cat.table table with
    | none => .error .tableNotFound st
    | some t =>
        match resolveConstraint st.eval.env.user st.cat t name c with
        | .error e => .error e st
        | .ok (.unique columns primary duplicates) =>
            match t.addUnique name columns primary false c.enabled with
            | (.ok _, t) => .ok () { st with cat := st.cat.setTable table t }
            | (.error _, t) => .error duplicates { st with cat := st.cat.setTable table t }
        | .ok (.other kind) =>
            let added : Table :=
              { t with constraints := t.constraints ++ [⟨name, kind, false, c.enabled⟩] }
            let st := { st with cat := st.cat.setTable table added }
            if c.enabled && c.validate then
              st.validate ev committed table t.constraints.length
            else .ok () st

/-- Add constraints one after another, up to the first that fails. -/
def addConstraints (ev : Evaluator) (committed : Catalog) (table : String) :
    List TableConstraint → DdlState → DdlResult
  | [], st => .ok () st
  | c :: rest, st =>
      match addConstraint ev committed table c st with
      | .ok _ st => addConstraints ev committed table rest st
      | .error e st => .error e st

/-! ## ALTER TABLE -/

/-- The position of a table's constraint by name, or of its primary key when there is none. -/
def findConstraint (t : Table) (name : Option String) : Option Nat :=
  t.constraints.findIdx? fun c => !c.isIndex &&
    match name with
    | some n => c.name == n
    | none => c.isPrimary

/-- Drop the table constraints of a name; indexes of that name stay. -/
def Table.dropConstraint (t : Table) (name : String) : Table :=
  { t with constraints := t.constraints.filter fun c => c.isIndex || c.name != name }

/-- Drop foreign keys from the tables that declare them. -/
def dropForeignKeys (refs : List ForeignKeyRef) (cat : Catalog) : Catalog :=
  refs.foldl (fun cat f => cat.modifyTable f.child (·.dropConstraint f.name)) cat

/-- Disable foreign keys in the tables that declare them. -/
def disableForeignKeys (refs : List ForeignKeyRef) (cat : Catalog) : Catalog :=
  refs.foldl (fun cat f => cat.modifyTable f.child fun child =>
    match child.constraints.findIdx? fun c => !c.isIndex && c.name == f.name with
    | none => child
    | some j => (child.setEnabled j false).2) cat

/-- The foreign keys on the key that the constraint at position `i` provides. -/
def dependents (cat : Catalog) (table : String) (t : Table) (i : Nat) : List ForeignKeyRef :=
  match (t.constraints[i]?).bind (·.uniqueColumns) with
  | none => []
  | some columns => cat.referencing table columns

/-- The foreign keys that disabling the constraint at position `i` would leave without a key;
enabling it leaves none so. -/
def orphans (cat : Catalog) (table : String) (t : Table) (i : Nat) (enabled : Bool) :
    List ForeignKeyRef :=
  if enabled then [] else (dependents cat table t i).filter (·.enabled)

/-- Drop a constraint by its name, or the primary key. CASCADE drops the foreign keys on it too. -/
def dropTableConstraint (table : String) (t : Table) (name : Option String) (cascade : Bool)
    (st : DdlState) : DdlResult :=
  match findConstraint t name with
  | none =>
      .error (if name.isSome then ⟨2443, "Cannot drop constraint  - nonexistent constraint"⟩
        else ⟨2441, "Cannot drop nonexistent primary key"⟩) st
  | some i =>
      let refs := dependents st.cat table t i
      if !refs.isEmpty && !cascade then
        .error ⟨2273, "this unique/primary key is referenced by some foreign keys"⟩ st
      else
        let cat := dropForeignKeys refs st.cat
        .ok () { st with cat := cat.modifyTable table fun t =>
          t.dropConstraint (((t.constraints[i]?).map (·.name)).getD "") }

/-- The error of enabling or disabling a constraint that is not there. -/
def noSuchConstraint (user : String) (name : Option String) (enabled : Bool) : OraError :=
  match name with
  | some name =>
      ⟨if enabled then 2430 else 2431, "cannot " ++ (if enabled then "enable" else "disable") ++
        " constraint (" ++ user ++ "." ++ name ++ ") - no such constraint"⟩
  | none => ⟨2432, "cannot enable primary key - primary key not defined for table"⟩

/-- Enable or disable a constraint. Disabling with CASCADE disables the foreign keys on it too, and
enabling checks the rows only if the constraint was disabled. -/
def setTableConstraint (ev : Evaluator) (committed : Catalog) (table : String) (t : Table)
    (name : Option String) (enabled validate cascade : Bool) (st : DdlState) : DdlResult :=
  let user := st.eval.env.user
  match findConstraint t name with
  | none => .error (noSuchConstraint user name enabled) st
  | some i =>
      let name := ((t.constraints[i]?).map (·.name)).getD ""
      let refs := orphans st.cat table t i enabled
      if !refs.isEmpty && !cascade then
        .error ⟨2297, "cannot disable constraint (" ++ user ++ "." ++ name ++
          ") - dependencies exist"⟩ st
      else
        let cat := disableForeignKeys refs st.cat
        match cat.table table with
        | none => .ok () { st with cat }
        | some t =>
            let primary := (t.constraints[i]?).any (·.isPrimary)
            let wasEnabled := (t.constraints[i]?).any (·.enabled)
            match t.setEnabled i enabled with
            | (.error _, t) =>
                .error (if primary then cannotValidate user 2437 name "primary key violated"
                  else cannotValidate user 2299 name "duplicate keys found")
                  { st with cat := cat.setTable table t }
            | (.ok _, t) =>
                let st := { st with cat := cat.setTable table t }
                if enabled && (validate || primary) && !wasEnabled then
                  st.validate ev committed table i
                else .ok () st

/-- Apply an ALTER TABLE constraint change. -/
def alterTable (ev : Evaluator) (committed : Catalog) (table : String) (action : AlterTableAction)
    (st : DdlState) : DdlResult :=
  match st.cat.table table with
  | none => .error .tableNotFound st
  | some t =>
      match action with
      | .addConstraints constraints => addConstraints ev committed table constraints st
      | .dropConstraint name cascade => dropTableConstraint table t name cascade st
      | .setConstraint name enabled validate cascade =>
          setTableConstraint ev committed table t name enabled validate cascade st

/-! ## Sequences -/

/-- What the options of CREATE or ALTER SEQUENCE set so far. -/
structure SequenceSettings where
  increment : Int
  start : Option Int
  cycle : Bool
  min : Option Int
  max : Option Int

/-- Go through the options of a sequence, in their order. -/
def applySequenceOptions (altering : Bool) :
    List SequenceOption → SequenceSettings → Except OraError SequenceSettings
  | [], s => .ok s
  | .startWith n :: rest, s =>
      if altering then .error ⟨2283, "cannot alter starting sequence number"⟩
      else applySequenceOptions altering rest { s with start := some n }
  | .incrementBy n :: rest, s =>
      if n = 0 then .error ⟨4002, "INCREMENT must be a non-zero integer"⟩
      else applySequenceOptions altering rest { s with increment := n }
  | .minValue n :: rest, s => applySequenceOptions altering rest { s with min := n }
  | .maxValue n :: rest, s => applySequenceOptions altering rest { s with max := n }
  | .cycle c :: rest, s => applySequenceOptions altering rest { s with cycle := c }
  | .restart _ :: rest, s => applySequenceOptions altering rest s

/-- Apply CREATE or ALTER SEQUENCE options to the defaults or an existing definition. -/
def sequenceDef (old : Option SequenceDef) (options : List SequenceOption) :
    Except OraError SequenceDef :=
  let initial : SequenceSettings :=
    match old with
    | some d => ⟨d.increment, none, d.cycle, some d.min, some d.max⟩
    | none => ⟨1, none, false, none, none⟩
  match applySequenceOptions old.isSome options initial with
  | .error e => .error e
  | .ok s =>
      let min := s.min.getD (if 0 < s.increment then 1 else -999999999999999999999999999)
      let max := s.max.getD (if 0 < s.increment then 9999999999999999999999999999 else -1)
      if max ≤ min then .error ⟨4028, "cannot generate internal sequence"⟩
      else
        match old with
        | some d => .ok ⟨d.start, s.increment, min, max, s.cycle⟩
        | none =>
            let start := s.start.getD (if 0 < s.increment then min else max)
            if start < min then .error ⟨4006, "START WITH cannot be less than MINVALUE"⟩
            else if max < start then .error ⟨4008, "START WITH cannot be more than MAXVALUE"⟩
            else .ok ⟨start, s.increment, min, max, s.cycle⟩

/-- The 128-bit integer that an overflowing operation leaves in a release build. -/
def wrap (n : Int) : Int := n.bmod (2 ^ 128)

/-- Where ALTER SEQUENCE leaves the counter: the next number follows the last one handed
out with the new increment, unless RESTART sets it. -/
def restartCounter (def_ : SequenceDef) : List SequenceOption → Option Int → Option Int
  | [], next => next
  | .restart at_ :: rest, _ =>
      restartCounter def_ rest
        (some (at_.getD (if 0 < def_.increment then def_.min else def_.max)))
  | _ :: rest, next => restartCounter def_ rest next

/-! ## Statements -/

namespace Catalog

/-- Every published change raises the version. -/
def bump (cat : Catalog) : Catalog := { cat with version := cat.version + 1 }

/-- Remove a table. -/
def removeTable (cat : Catalog) (name : String) : Catalog :=
  { cat with tables := cat.tables.erase name }

end Catalog

/-- The error of a name that an object has already. -/
def nameAlreadyUsed : OraError := ⟨955, "name is already used by an existing object"⟩

/-- The error of a sequence that is not there. -/
def sequenceNotFound : OraError := ⟨2289, "sequence does not exist"⟩

/-- The columns CREATE TABLE declares, or those of its query. -/
def newColumns (ct : CreateTable) : Option Relation → List TableColumn
  | some rel => rel.cols.map fun c =>
      ⟨c.name, if c.sqlType = .varchar2 0 then .varchar2 1 else c.sqlType, none, false, false⟩
  | none => ct.columns.map fun c => ⟨c.name, c.sqlType, c.default, c.notNull, c.identity⟩

/-- Draw names for the constraints that have none, in the order they are declared. -/
def nameConstraints : List TableConstraint → Nat → List TableConstraint × Nat
  | [], next => ([], next)
  | c :: rest, next =>
      match c.name with
      | some _ =>
          let named := nameConstraints rest next
          (c :: named.1, named.2)
      | none =>
          let named := nameConstraints rest (next + 1)
          ({ c with name := some (constraintName next) } :: named.1, named.2)

/-- Whether the constraint is a foreign key. -/
def TableConstraint.isForeignKey (c : TableConstraint) : Bool :=
  match c.kind with
  | .foreignKey _ _ _ _ => true
  | _ => false

/-- Foreign keys last, so that they can reference the table's own keys. -/
def sortConstraints (constraints : List TableConstraint) : List TableConstraint :=
  constraints.filter (fun c => !c.isForeignKey) ++ constraints.filter (·.isForeignKey)

/-- Insert the rows of a query into a new table, under ids from the counter `next`. -/
def Table.fill : List Row → Nat → Table → Except String Unit × Nat × Table
  | [], next, t => (.ok (), next, t)
  | values :: rest, next, t =>
      match t.insert next values with
      | (.error c, t) => (.error c, next + 1, t)
      | (.ok _, t) => fill rest (next + 1) t

namespace World

/-- The world with another committed catalog. -/
def setState (w : World) (state : Catalog) : World := { w with db := { w.db with state } }

/-- The world after an evaluation. -/
def setEval (w : World) (eval : EvalState) : World where
  db := { w.db with identities := eval.identities, sequences := eval.sequences }
  session := { w.session with env := eval.env }

/-- The world after DDL has used the constraint counter and evaluated conditions. -/
def setDdl (w : World) (st : DdlState) : World :=
  { w.setEval st.eval with db := { (w.setEval st.eval).db with nextConstraint := st.nextConstraint } }

/-- The query of CREATE TABLE AS SELECT, over the committed state. -/
def createQuery (ev : Evaluator) (binds : List Value) (ct : CreateTable) (w : World) :
    EStateM.Result OraError EvalState (Option Relation) :=
  match ct.asQuery with
  | none => .ok none w.evalState
  | some q =>
      match ev.query ⟨w.db.state, binds, w.db.state, none⟩ q none w.evalState with
      | .ok rel eval => .ok (some rel) eval
      | .error e eval => .error e eval

/-- CREATE TABLE once its query, if any, has been evaluated. -/
def createTableFrom (ev : Evaluator) (ct : CreateTable) (rel : Option Relation) (w : World) :
    Except OraError Unit × World :=
  let columns := newColumns ct rel
  if w.db.state.nameInUse ct.name then (.error nameAlreadyUsed, w)
  else if ¬ (columns.map (·.name)).Nodup then (.error ⟨957, "duplicate column name"⟩, w)
  else
    let named := nameConstraints ct.constraints w.db.nextConstraint
    let start : DdlState :=
      ⟨w.evalState, named.2, w.db.state.setTable ct.name (.new ct.name columns)⟩
    match addConstraints ev w.db.state ct.name (sortConstraints named.1) start with
    | .error e st => (.error e, (w.setDdl st).setState (st.cat.removeTable ct.name))
    | .ok _ st =>
        match st.cat.table ct.name with
        | none => (.ok (), (w.setDdl st).setState st.cat)
        | some t =>
            match t.fill ((rel.map (·.rows)).getD []) w.db.nextRowId with
            | (.error c, nextRowId, t) =>
                let cat := st.cat.setTable ct.name t
                let w := (w.setDdl st).setState (cat.removeTable ct.name)
                (.error (uniqueViolation w.session.env.user c),
                  { w with db := { w.db with nextRowId } })
            | (.ok _, nextRowId, t) =>
                let w := (w.setDdl st).setState (st.cat.setTable ct.name t).bump
                (.ok (), { w with db := { w.db with
                  nextRowId, identities := w.db.identities.erase ct.name } })

/-- CREATE TABLE. Its query is evaluated first. -/
def createTable (ev : Evaluator) (binds : List Value) (ct : CreateTable) (w : World) :
    Except OraError Unit × World :=
  match w.createQuery ev binds ct with
  | .error e eval => (.error e, w.setEval eval)
  | .ok rel eval => (w.setEval eval).createTableFrom ev ct rel

/-- DROP TABLE. CASCADE CONSTRAINTS drops the foreign keys of other tables on it. -/
def dropTable (name : String) (cascadeConstraints : Bool) (w : World) :
    Except OraError Unit × World :=
  let state := w.db.state
  if !state.tables.contains name then (.error .tableNotFound, w)
  else
    let refs := state.foreignKeys.filter fun f => f.parent == name && f.child != name
    if !refs.isEmpty && !cascadeConstraints then
      (.error ⟨2449, "unique/primary keys in table referenced by foreign keys"⟩, w)
    else
      let w := w.setState ((dropForeignKeys refs state).removeTable name).bump
      (.ok (), { w with db := { w.db with identities := w.db.identities.erase name } })

/-- TRUNCATE, unless another table has an enabled foreign key on the table. -/
def truncate (name : String) (w : World) : Except OraError Unit × World :=
  let state := w.db.state
  if state.foreignKeys.any fun f => f.parent == name && f.child != name && f.enabled then
    (.error ⟨2266, "unique/primary keys in table referenced by enabled foreign keys"⟩, w)
  else
    match state.table name with
    | none => (.error .tableNotFound, w)
    | some t => (.ok (), w.setState (state.setTable name t.truncate).bump)

/-- CREATE INDEX. A unique one is a constraint of its own; of others only the name is kept. -/
def createIndex (name table : String) (columns : List String) (unique : Bool) (w : World) :
    Except OraError Unit × World :=
  let state := w.db.state
  if state.nameInUse name then (.error nameAlreadyUsed, w)
  else
    match state.table table with
    | none => (.error .tableNotFound, w)
    | some t =>
        match resolveColumns t columns with
        | .error e => (.error e, w)
        | .ok idx =>
            if unique then
              match t.addUnique name idx false true true with
              | (.error _, t) =>
                  (.error ⟨1452, "cannot CREATE UNIQUE INDEX; duplicate keys found"⟩,
                    w.setState (state.setTable table t))
              | (.ok _, t) => (.ok (), w.setState (state.setTable table t).bump)
            else
              let added : Table :=
                { t with constraints := t.constraints ++ [⟨name, .index, true, true⟩] }
              (.ok (), w.setState (state.setTable table added).bump)

/-- DROP INDEX. The indexes of constraints are not found. -/
def dropIndex (name : String) (w : World) : Except OraError Unit × World :=
  let state := w.db.state
  match state.tables.toList.find? fun entry =>
      entry.2.constraints.any fun c => c.isIndex && c.name == name with
  | none => (.error ⟨1418, "specified index does not exist"⟩, w)
  | some (owner, _) =>
      let drop := fun (t : Table) =>
        { t with constraints := t.constraints.filter fun c => !(c.isIndex && c.name == name) }
      (.ok (), w.setState (state.modifyTable owner drop).bump)

/-- ALTER TABLE works on a copy of the committed state and publishes it at the end. -/
def alter (ev : Evaluator) (name : String) (action : AlterTableAction) (w : World) :
    Except OraError Unit × World :=
  match alterTable ev w.db.state name action ⟨w.evalState, w.db.nextConstraint, w.db.state⟩ with
  | .error e st => (.error e, w.setDdl st)
  | .ok _ st => (.ok (), (w.setDdl st).setState st.cat.bump)

/-- CREATE SEQUENCE, with its counter in front of the first number. -/
def createSequence (name : String) (options : List SequenceOption) (w : World) :
    Except OraError Unit × World :=
  let state := w.db.state
  if state.nameInUse name then (.error nameAlreadyUsed, w)
  else
    match sequenceDef none options with
    | .error e => (.error e, w)
    | .ok def_ =>
        let w := w.setState { state with sequences := state.sequences.insert name def_ }.bump
        (.ok (), { w with db := { w.db with sequences := w.db.sequences.erase name } })

/-- ALTER SEQUENCE, with its counter where the next number follows it. -/
def alterSequence (name : String) (options : List SequenceOption) (w : World) :
    Except OraError Unit × World :=
  let state := w.db.state
  match state.sequences[name]? with
  | none => (.error sequenceNotFound, w)
  | some old =>
      match sequenceDef (some old) options with
      | .error e => (.error e, w)
      | .ok def_ =>
          let next := restartCounter def_ options
            ((w.db.sequences[name]?).map fun next => wrap (next - old.increment + def_.increment))
          let sequences := (next.map (w.db.sequences.insert name)).getD w.db.sequences
          let w := w.setState { state with sequences := state.sequences.insert name def_ }.bump
          (.ok (), { w with db := { w.db with sequences } })

/-- DROP SEQUENCE, with its counter. -/
def dropSequence (name : String) (w : World) : Except OraError Unit × World :=
  let state := w.db.state
  if state.sequences.contains name then
    let w := w.setState { state with sequences := state.sequences.erase name }.bump
    (.ok (), { w with db := { w.db with sequences := w.db.sequences.erase name } })
  else (.error sequenceNotFound, w)

/-- CREATE FUNCTION or CREATE PROCEDURE, over the one of this name with OR REPLACE. -/
def createRoutine (routine : Routine) (orReplace : Bool) (w : World) :
    Except OraError Unit × World :=
  let state := w.db.state
  if !(orReplace && state.routines.contains routine.name) && state.nameInUse routine.name then
    (.error nameAlreadyUsed, w)
  else
    (.ok (), w.setState
      { state with routines := state.routines.insert routine.name routine }.bump)

/-- DROP FUNCTION or DROP PROCEDURE, if the routine is one. -/
def dropRoutine (name : String) (function : Bool) (w : World) : Except OraError Unit × World :=
  let state := w.db.state
  match state.routines[name]? with
  | some r =>
      if r.isFunction = function then
        (.ok (), w.setState { state with routines := state.routines.erase name }.bump)
      else (.error ⟨4043, "object " ++ name ++ " does not exist"⟩, w)
  | none => (.error ⟨4043, "object " ++ name ++ " does not exist"⟩, w)

/-- Partition maintenance does nothing, but the table must be there. -/
def partitionMaintenance (table : Option String) (w : World) : Except OraError Unit × World :=
  match table with
  | some name =>
      if w.db.state.tables.contains name then (.ok (), w) else (.error .tableNotFound, w)
  | none => (.ok (), w)

/-- DDL changes the committed state directly. Other statements do not come here. -/
def ddl (ev : Evaluator) (binds : List Value) (stmt : Statement) (w : World) :
    Except OraError Unit × World :=
  match stmt with
  | .createTable ct => w.createTable ev binds ct
  | .dropTable name cascadeConstraints => w.dropTable name cascadeConstraints
  | .truncate name => w.truncate name
  | .createIndex name table columns unique => w.createIndex name table columns unique
  | .dropIndex name => w.dropIndex name
  | .alterTable name action => w.alter ev name action
  | .createSequence name options => w.createSequence name options
  | .alterSequence name options => w.alterSequence name options
  | .dropSequence name => w.dropSequence name
  | .createRoutine routine orReplace => w.createRoutine routine orReplace
  | .dropRoutine name function => w.dropRoutine name function
  | .partitionMaintenance table => w.partitionMaintenance table
  | _ => (.ok (), w)

end World

end MockOracle
