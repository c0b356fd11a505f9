import MockOracle.Eval.Literal
import MockOracle.Eval.Plain
import MockOracle.Plsql.Expressions

/-!
# Statements of PL/SQL

The interpreter of `plsql/exec.rs`: declarations, blocks with their handlers, the statements, and
calls of routines. Frames are pushed and popped around blocks, loops and queries of cursors by hand,
as in the source. `calls` ties the functions together; its number bounds how deeply they call each
other, and a computation that needs more is cut off.
-/

namespace MockOracle.Plsql

open Semantics

/-! ## Errors and exceptions -/

/-- A SELECT INTO without a row. -/
def noDataFound : OraError := ⟨1403, "no data found"⟩

/-- A SELECT INTO with more than one row. -/
def tooManyRows : OraError := ⟨1422, "exact fetch returns more than requested number of rows"⟩

/-- A cursor that is not open, or is open already. -/
def invalidCursor : OraError := ⟨1001, "invalid cursor"⟩

/-- A call whose arguments do not fit the parameters. -/
def wrongArguments (name : String) : OraError :=
  pls 306 ("wrong number or types of arguments in call to '" ++ name ++ "'")

/-- An OUT argument that is no variable. -/
def noAssignmentTarget : OraError := pls 363 "expression cannot be used as an assignment target"

/-- The errors of the predefined exceptions. -/
def predefinedErrors : List (String × OraError) :=
  [("NO_DATA_FOUND", ⟨1403, "no data found"⟩),
    ("TOO_MANY_ROWS", ⟨1422, "exact fetch returns more than requested number of rows"⟩),
    ("DUP_VAL_ON_INDEX", ⟨1, "unique constraint violated"⟩),
    ("ZERO_DIVIDE", ⟨1476, "divisor is equal to zero"⟩),
    ("VALUE_ERROR", ⟨6502, "PL/SQL: numeric or value error"⟩),
    ("INVALID_NUMBER", ⟨1722, "invalid number"⟩),
    ("INVALID_CURSOR", ⟨1001, "invalid cursor"⟩),
    ("CURSOR_ALREADY_OPEN", ⟨6511, "PL/SQL: cursor already open"⟩),
    ("CASE_NOT_FOUND", ⟨6592, "CASE not found while executing CASE statement"⟩),
    ("PROGRAM_ERROR", ⟨6501, "PL/SQL: program error"⟩),
    ("STORAGE_ERROR", ⟨6500, "PL/SQL: storage error"⟩),
    ("LOGIN_DENIED", ⟨1017, "invalid username/password; logon denied"⟩),
    ("NOT_LOGGED_ON", ⟨1012, "not logged on"⟩),
    ("TIMEOUT_ON_RESOURCE", ⟨51, "timeout occurred while waiting for a resource"⟩),
    ("ROWTYPE_MISMATCH",
      ⟨6504, "PL/SQL: Return types of Result Set variables or query do not match"⟩)]

/-- The error of a predefined exception. -/
def predefined (name : String) : Option OraError := named name predefinedErrors

/-- The exception that RAISE raises. -/
def raised (frames : List Frame) (name : String) : Exc :=
  match findException frames name with
  | some (some code) => ⟨⟨code, ""⟩, some name⟩
  | some none => ⟨⟨6510, "PL/SQL: unhandled user-defined exception"⟩, some name⟩
  | none => ⟨(predefined (shortName name)).getD (notDeclared name), none⟩

/-- Whether a handler's name catches an exception. -/
def catches (frames : List Frame) (name : String) (exc : Exc) : Bool :=
  if name = "OTHERS" then true
  else
    match findException frames name with
    | some (some code) => exc.err.code = code
    | some none => exc.user = some name
    | none => (predefined (shortName name)).any fun e => exc.err.code = e.code

/-- The text of a value with default formats. -/
def display (dates : DateFormats) : Value → String
  | .null => ""
  | .number n => formatNumber n
  | .varchar2 s => s
  | .date d => dates.format d "DD-MON-RR"
  | .timestamp d => dates.format d "DD-MON-RR HH.MI.SSXFF AM"
  | .boolean b => if b then "TRUE" else "FALSE"

variable {H : Type} (host : Host H) (self : Calls host)

/-! ## Declarations -/

/-- Resolves a declared type. -/
def resolveType (s : State H) : TypeRef → Except OraError Resolved
  | .sql t => .ok (.scalar (.sql t))
  | .boolean => .ok (.scalar .boolean)
  | .integer => .ok (.scalar .integer)
  | .typeOf (some table) name =>
      match host.columnType s.data table name with
      | some t => .ok (.scalar (.sql t))
      | none => .error (notDeclared (table ++ "." ++ name))
  | .typeOf none name =>
      match findVar s.it.frames name with
      | some ⟨type, .scalar _, _, _⟩ => .ok (.scalar type)
      | some ⟨_, .record fields, _, _⟩ => .ok (.record (fields.map Prod.fst))
      | none => .error (notDeclared name)
  | .rowType name =>
      -- The fields of a cursor's record come from its query when the record is first filled.
      if (findCursor s.it.frames name).isSome then .ok (.record [])
      else
        match host.columns s.data name with
        | some names => .ok (.record names)
        | none => .error (notDeclared name)

/-- What a declared type stands for. -/
def varType (type : TypeRef) : Run host Resolved := do
  orRaise (resolveType host (← Traced.read) type)

/-- A value as a variable of a type holds it. -/
def convertTo (type : VarType) (v : Value) : Run host (Converted host.dates type) := do
  let s ← Traced.read
  orRaise (convert host.dates (host.env s.data) type v)

/-- Declares a variable. -/
def declareVar (v : VarDecl) : Run host Unit := do
  let resolved ← varType host v.type
  match v.default with
  | none => act (.declare v.name resolved.initial v.constant v.notNull)
  | some e => do
      let value ← self.eval e
      let converted ← convertTo host resolved.type value
      act (.declare v.name (.value converted) v.constant v.notNull)

/-- One declaration. -/
def declareOne : Decl → Run host Unit
  | .var v => declareVar host self v
  | .exception name => act (.declareException name)
  | .exceptionInit name code => act (.initException name code)
  | .cursor c => act (.declareCursor c)
  | .routine r => act (.declareRoutine r)

/-- The declarations of a block, in order. -/
def declareAll : List Decl → Run host Unit
  | [] => return ()
  | d :: rest => do
      declareOne host self d
      declareAll rest

/-! ## Assignments -/

/-- The results of OUT parameters, assigned in order. -/
def assignAll : List (Target × Value) → Run host Unit
  | [] => return ()
  | (target, v) :: rest => do
      act (.assign target v)
      assignAll rest

/-- One target for each column. -/
def assignColumns (targets : List Target) (row : Row) : Run host Unit :=
  if targets.length < row.length then raiseError ⟨913, "too many values"⟩
  else if row.length < targets.length then raiseError ⟨947, "not enough values"⟩
  else assignAll host (targets.zip row)

/-- Assigns one row to INTO targets: a single record, or one target for each column. -/
def assignRow (targets : List Target) (columns : List String) (row : Row) : Run host Unit :=
  match targets with
  | [.var name] => do
      match findVar (← interp).frames name with
      | some ⟨_, .record _, _, _⟩ => act (.fillRecord name columns row)
      | _ => assignColumns host [.var name] row
  | targets => assignColumns host targets row

/-- The target that an expression names. -/
def targetOf : Expr → Option Target
  | .bind i => some (.bind i)
  | .column none name => some (.var name)
  | .column (some record) name => some (.field record name)
  | _ => none

/-- Stores the values of RETURNING in their targets, one after the other. -/
def assignReturned : List (Expr × Value) → Run host Unit
  | [] => return ()
  | (e, v) :: rest => do
      let target ← orRaise ((targetOf e).elim (.error wrongType) .ok)
      act (.assign target v)
      assignReturned rest

/-- Stores DML RETURNING values in their targets: one row at most. -/
def assignReturning (into : List Expr) (rows : List Row) : Run host Unit :=
  if 1 < rows.length then raiseError tooManyRows
  else assignReturned host (into.zip (rows.head?.getD (List.replicate into.length .null)))

/-! ## Cursors -/

/-- The innermost cursor of a name. -/
def cursorNamed (name : String) : Run host Cursor := do
  match findCursor (← interp).frames name with
  | some c => return c
  | none => raiseError (notDeclared name)

/-- The value of a cursor's parameter. -/
def cursorArg (name : String) (arg default : Option Expr) : Run host Value :=
  match arg, default with
  | some a, _ => self.eval a
  | none, some d => self.eval d
  | none, none => raiseError (wrongArguments name)

/-- The parameters of a cursor with their values. -/
def cursorParams (name : String) :
    List Param → List Expr → Run host (List (String × Σ type, Initial host.dates type))
  | [], _ => return []
  | p :: params, args => do
      let v ← cursorArg host self name args.head? p.default
      let resolved ← varType host p.type
      let converted ← convertTo host resolved.type v
      return (p.name, ⟨_, .value converted⟩) :: (← cursorParams name params args.tail)

/-- Runs a declared cursor's query with its parameters bound. -/
def openQuery (name : String) (args : List Expr) : Run host OpenCursor := do
  let c ← cursorNamed host name
  if c.decl.params.length < args.length then raiseError (wrongArguments name)
  else
    let params ← cursorParams host self name c.decl.params args
    act (.pushFrame params)
    let o ← Traced.attempt (runStatement host self (.query c.decl.query))
    act .popFrame
    let o ← Traced.lift o
    return ⟨o.rows, o.names, 0, none⟩

/-- FETCH the next row of an open cursor into variables. -/
def fetch (cursor : String) (into : List Target) : Run host Unit := do
  let c ← cursorNamed host cursor
  match c.opened with
  | none => raiseError invalidCursor
  | some o =>
      match o.rows with
      | [] => act (.setCursor cursor (some { o with found := some false }))
      | row :: rest => do
          act (.setCursor cursor (some ⟨rest, o.columns, o.rowcount + 1, some true⟩))
          assignRow host into o.columns row

/-! ## Calls -/

/-- Matches arguments to parameters: positional first, then named. -/
def matchArgs (r : Routine) : Nat → Bool → List (Option Expr) → List Arg →
    Except OraError (List (Option Expr))
  | _, _, slots, [] => .ok slots
  | i, afterNamed, slots, a :: rest =>
      match a.name with
      | none =>
          if afterNamed ∨ slots.length ≤ i then .error (wrongArguments r.name)
          else matchArgs r (i + 1) afterNamed (slots.set i (some a.value)) rest
      | some name =>
          match r.params.findIdx? fun p => p.name = name with
          | none => .error (wrongArguments r.name)
          | some p =>
              if (slots[p]?.join).isSome then .error (wrongArguments r.name)
              else matchArgs r (i + 1) true (slots.set p (some a.value)) rest

/-- The target of an OUT argument, which cannot be an attribute of a cursor. -/
def outTarget : Expr → Option Target
  | .column (some record) name =>
      if record.toList.getLast? = some '%' then none else some (.field record name)
  | e => targetOf e

/-- The value that an OUT or IN OUT argument passes in. -/
def passedIn (mode : ParamMode) (e : Expr) : Run host Value :=
  if mode = .inOut then self.eval e else return .null

/-- Evaluates an argument of a call, or the parameter's default where there is none. -/
def passArg (r : Routine) (p : Param) (arg : Option Expr) : Run host ArgValue :=
  match p.mode, arg with
  | .in, some e => .in <$> self.eval e
  | .in, none =>
      match p.default with
      | some d => .in <$> self.eval d
      | none => raiseError (wrongArguments r.name)
  | mode, some e =>
      match outTarget e with
      | none => raiseError noAssignmentTarget
      | some target => .out target <$> passedIn host self mode e
  | _, none => raiseError (wrongArguments r.name)

/-- Evaluates the arguments of a call, in order. -/
def passArgs (r : Routine) : List (Param × Option Expr) → Run host (List ArgValue)
  | [] => return []
  | (p, arg) :: rest => do
      let v ← passArg host self r p arg
      return v :: (← passArgs r rest)

/-- Calls a procedure or function with argument expressions, then stores OUT arguments. Returns a
function's result. -/
def call (r : Routine) (args : List Arg) : Run host (Option Value) := do
  let slots ← orRaise (matchArgs r 0 false (List.replicate r.params.length none) args)
  let values ← passArgs host self r (r.params.zip slots)
  let (result, outs) ← self.invoke r values
  assignAll host outs
  return if r.isFunction then some result else none

/-- Declares a parameter of a routine; a record starts without the value passed in. -/
def declareParam (p : Param) (value : Value) (constant : Bool) : Run host Unit := do
  match ← varType host p.type with
  | .scalar type => do
      let converted ← convertTo host type value
      act (.declare p.name (.value converted) constant false)
  | .record fields => act (.declare p.name (Resolved.record fields).initial constant false)

/-- Declares the parameters of a routine. Returns those whose final values go to targets. -/
def declareParams : List (Param × ArgValue) → Run host (List (String × Target))
  | [] => return []
  | (p, .in v) :: rest => do
      declareParam host p v true
      declareParams rest
  | (p, .out target v) :: rest => do
      declareParam host p v false
      let outs ← declareParams rest
      return (p.name, target) :: outs

/-- The result of a routine whose block has ended. -/
def returned (r : Routine) (flow : Flow) : Run host Value :=
  match flow, r.returns with
  | .return (some v), some type => do
      let resolved ← varType host type
      let converted ← convertTo host resolved.type v
      return converted.value
  | _, some _ => raiseError ⟨6503, "PL/SQL: Function returned without value"⟩
  | _, none => return .null

/-- Runs a routine in its own interpreter, which has been entered. -/
def invoked (outer : Interp) (r : Routine) (args : List ArgValue) :
    Run host (Value × List (Target × Value)) := do
  act (.pushFrame [])
  act (.inherit (outer.frames.flatMap (·.routines)))
  let outs ← declareParams host (r.params.zip args)
  let flow ← self.block r.block
  let result ← returned host r flow
  let it ← interp
  return (result, outs.map fun (name, target) =>
    (target, match findVar it.frames name with
      | some ⟨_, .scalar v, _, _⟩ => v
      | _ => .null))

/-- Runs a routine in an interpreter of its own. -/
def invokeInner (r : Routine) (args : List ArgValue) :
    Run host (Value × List (Target × Value)) := do
  let outer ← interp
  act (.enter [] outer.readOnly)
  let result ← Traced.attempt (invoked host self outer r args)
  act .leave
  Traced.lift result

/-- How deep procedure and function calls may nest. -/
def maxCallDepth : Nat := 50

/-- Too many calls inside each other. -/
def tooDeep : OraError :=
  ⟨36, "maximum number of recursive SQL levels (" ++ toString maxCallDepth ++ ") exceeded"⟩

/-- Runs a routine with evaluated arguments. Returns the function result and the final values of OUT
arguments. -/
def invoke (r : Routine) (args : List ArgValue) : Run host (Value × List (Target × Value)) := do
  let s ← Traced.read
  if maxCallDepth ≤ s.depth then raiseError tooDeep
  else
    act .deeper
    let result ← Traced.attempt (invokeInner host self r args)
    act .shallower
    Traced.lift result

/-! ## Built-in procedures -/

/-- Writes to DBMS_OUTPUT. -/
def putText (text : String) (endLine : Bool) : Run host Unit := do
  let s ← Traced.read
  act (.setOutput (s.output.put text endLine).2)
  orRaise (s.output.put text endLine).1

/-- The text that PUT_LINE writes. -/
def outputText (env : Env) : Value → String
  | .date d => host.dates.format d env.nlsDateFormat
  | .timestamp d => host.dates.format d env.nlsTimestampFormat
  | v => display host.dates v

/-- PUT and PUT_LINE. -/
def putLine (endLine : Bool) (arg : Option Expr) : Run host Unit := do
  match arg with
  | some e => do
      let v ← self.eval e
      let s ← Traced.read
      putText host (outputText host (host.env s.data) v) endLine
  | none => putText host "" endLine

/-- RAISE_APPLICATION_ERROR, for the numbers that users may raise. -/
def raiseApplicationError (code message : Expr) : Run host Unit := do
  let code ← evalInt host self code
  let message ← self.eval message
  if -20999 ≤ code ∧ code ≤ -20000 then raiseError ⟨code.natAbs, display host.dates message⟩
  else
    raiseError ⟨21000, "error number argument to raise_application_error of " ++ toString code ++
      " is out of range"⟩

/-- The target of GET_LINE's argument. -/
def lineTarget : Expr → Except OraError Target
  | .bind i => .ok (.bind i)
  | .column none name => .ok (.var name)
  | _ => .error noAssignmentTarget

/-- GET_LINE into a text and a status. -/
def getLine (args : List Expr) : Run host Unit := do
  match ← orRaise ((args.take 2).mapM lineTarget) with
  | [text, status] => do
      let s ← Traced.read
      let (line, output) := s.output.takeLine
      act (.setOutput output)
      act (.assign text ((line.map Value.varchar).getD .null))
      act (.assign status (.ofInt (if line.isSome then 0 else 1)))
  | _ => raiseError (wrongArguments "GET_LINE")

/-- A built-in procedure. -/
def builtinNamed (name : String) (args : List Expr) : Option (Run host Unit) :=
  if name = "RAISE_APPLICATION_ERROR" then
    some (match args with
      | code :: message :: _ => raiseApplicationError host self code message
      | _ => raiseError (wrongArguments "RAISE_APPLICATION_ERROR"))
  else if name = "DBMS_OUTPUT.PUT_LINE" then some (putLine host self true args.head?)
  else if name = "DBMS_OUTPUT.PUT" then some (putLine host self false args.head?)
  else if name = "DBMS_OUTPUT.NEW_LINE" then some (putText host "" true)
  else if name = "DBMS_OUTPUT.ENABLE" then
    some (do act (.setOutput { (← Traced.read).output with enabled := true }))
  else if name = "DBMS_OUTPUT.DISABLE" then some (act (.setOutput {}))
  else if name = "DBMS_OUTPUT.GET_LINE" then some (getLine host args)
  else if name = "DBMS_LOCK.SLEEP" ∨ name = "DBMS_SESSION.SLEEP" then
    some (do let _ ← evalAll host self args)
  else if "DBMS_STATS.".toList.isPrefixOf name.toList then some (pure ())
  else none

/-- The name without the schema SYS. -/
def withoutSys (name : String) : String :=
  if "SYS.".toList.isPrefixOf name.toList then String.ofList (name.toList.drop 4) else name

/-- Calls a built-in procedure, if the name is one. -/
def builtin (name : String) (args : List Arg) : Run host Bool :=
  match builtinNamed host self (withoutSys name) (args.map (·.value)) with
  | some run => do
      run
      return true
  | none => return false

/-- A procedure call: a built-in procedure, or a local or stored one. -/
def callStatement (name : String) (args : List Arg) : Run host Unit := do
  if ← builtin host self name args then return ()
  else
    match ← routineNamed name with
    | none => raiseError (notDeclared name)
    | some r =>
        if r.isFunction then
          raiseError (pls 221 ("'" ++ r.name ++ "' is not a procedure or is undefined"))
        else do
          let _ ← self.call r args

/-! ## SQL statements -/

/-- The single row of a query. -/
def singleRow (rows : List Row) : Except OraError Row :=
  match rows with
  | [] => .error noDataFound
  | [row] => .ok row
  | _ :: _ :: _ => .error tooManyRows

/-- Where DML puts the values of RETURNING. -/
def returningInto : Statement → Option (List Expr)
  | .insert i => i.returning.map (·.into)
  | .update u => u.returning.map (·.into)
  | .delete d => d.returning.map (·.into)
  | _ => none

/-- Runs a SQL statement and assigns what it returns. -/
def sqlStatement (stmt : Statement) (into : List Target) : Run host Unit := do
  let o ← runStatement host self stmt
  match stmt with
  | .query _ => do
      act (.rowcount (min o.rows.length 2))
      let row ← orRaise (singleRow o.rows)
      assignRow host into o.names row
  | .insert _ | .update _ | .delete _ => do
      act (.rowcount o.rowsAffected)
      match returningInto stmt with
      | some into => assignReturning host into o.rows
      | none => return ()
  | _ => return ()

/-- Dynamic PL/SQL runs on its own, seeing only its binds. -/
def dynamicBlock (b : Block) (binds : List Value) : Run host Unit := do
  let it ← interp
  act (.enter binds it.readOnly)
  let result ← Traced.attempt (self.block b)
  act .leave
  let _ ← Traced.lift result

/-- Dynamic SQL does not see the block's variables. -/
def dynamicSql (stmt : Statement) (binds : List Value) (into : List Target) : Run host Unit := do
  let o ← execute host self stmt binds none
  match stmt with
  | .query _ =>
      if into.isEmpty then act (.rowcount 0)
      else do
        let row ← orRaise (singleRow o.rows)
        act (.rowcount 1)
        assignRow host into o.names row
  | .insert _ | .update _ | .delete _ => act (.rowcount o.rowsAffected)
  | _ => act (.rowcount 0)

/-- EXECUTE IMMEDIATE of a block or of a SQL statement. -/
def executeImmediate (sql : Expr) (into : List Target) (using_ : List Expr) : Run host Unit := do
  match ← self.eval sql with
  | .null => raiseError ⟨900, "invalid SQL statement"⟩
  | v => do
      let binds ← evalAll host self using_
      let (stmt, count) ← orRaise (host.parse (trim (display host.dates v)))
      if binds.length < count then raiseError ⟨1008, "not all variables bound"⟩
      else
        match stmt with
        | .block b => dynamicBlock host self b binds
        | stmt => dynamicSql host self stmt binds into

/-! ## Loops -/

/-- Runs a loop body once. Returns a flow when the loop should stop. -/
def loopIteration (label : Option String) (body : List Stmt) : Run host (Option Flow) := do
  let mine (l : Option String) : Bool := l.isNone || l == label
  match ← self.statements body with
  | .normal => return none
  | .continue l => return if mine l then none else some (.continue l)
  | .exit l => return some (if mine l then .normal else .exit l)
  | .return v => return some (.return v)

/-- The counter after a step, if it does not overflow. -/
def countOn (reverse : Bool) (i : Int) : Option Int :=
  if FitsI64 (i + if reverse then -1 else 1) then some (i + if reverse then -1 else 1) else none

/-- The counter steps by one. -/
theorem countOn_eq_some {reverse : Bool} {i next : Int} (counted : countOn reverse i = some next) :
    next = i + if reverse then -1 else 1 := by
  unfold countOn at counted
  by_cases fits : FitsI64 (i + if reverse then -1 else 1)
  · rw [if_pos fits] at counted
    exact (Option.some.inj counted).symm
  · rw [if_neg fits] at counted
    cases counted

variable {host} in
/-- The loop over the integers from the counter on. An overflow of the counter panics. -/
def countLoop (iterate : Int → Run host (Option Flow)) (lo hi : Int) (reverse : Bool) (i : Int) :
    Run host Flow :=
  if _within : lo ≤ i ∧ i ≤ hi then do
    match ← iterate i with
    | some flow => return flow
    | none =>
        match _counted : countOn reverse i with
        | some next => countLoop iterate lo hi reverse next
        | none => Traced.panic
  else return .normal
termination_by (if reverse then i - lo + 1 else hi - i + 1).toNat
decreasing_by
  have step := countOn_eq_some _counted
  cases reverse <;> simp only [Bool.false_eq_true, if_false, if_true] at step ⊢ <;> omega

/-- One iteration of an integer FOR loop. -/
def countIteration (label : Option String) (var : String) (body : List Stmt) (i : Int) :
    Run host (Option Flow) := do
  act (.counter var i)
  loopIteration host self label body

/-- An integer FOR loop. -/
def forRange (label : Option String) (var : String) (reverse : Bool) (lo hi : Int)
    (body : List Stmt) : Run host Flow := do
  act (.pushFrame [])
  let result ← Traced.attempt
    (countLoop (countIteration host self label var body) lo hi reverse (if reverse then hi else lo))
  act .popFrame
  Traced.lift result

/-- The loop over the rows of a cursor. -/
def rowLoop (label : Option String) (var : String) (columns : List String) (body : List Stmt) :
    List Row → Run host Flow
  | [] => return .normal
  | row :: rest => do
      act (.rowVar var (columns.zip row))
      match ← loopIteration host self label body with
      | some flow => return flow
      | none => rowLoop label var columns body rest

/-- The columns and rows that a cursor FOR loop goes through. -/
def cursorRows : CursorSource → Run host (List String × List Row)
  | .query q => do
      let o ← runStatement host self (.query q)
      return (o.names, o.rows)
  | .named name args => do
      let o ← openQuery host self name args
      return (o.columns, o.rows)

/-- A cursor FOR loop. -/
def forCursor (label : Option String) (var : String) (source : CursorSource) (body : List Stmt) :
    Run host Flow := do
  let (columns, rows) ← cursorRows host self source
  act (.pushFrame [])
  let result ← Traced.attempt (rowLoop host self label var columns body rows)
  act .popFrame
  Traced.lift result

/-! ## Statements -/

/-- The branches of IF. -/
def ifBranches (else_ : Option (List Stmt)) : List (Expr × List Stmt) → Run host Flow
  | [] =>
      match else_ with
      | some body => self.statements body
      | none => return .normal
  | (cond, body) :: rest => do
      if (← self.evalBool cond) == some true then self.statements body else ifBranches else_ rest

/-- The branches of a CASE statement. -/
def caseBranches (subject : Option Value) (else_ : Option (List Stmt)) :
    List (Expr × List Stmt) → Run host Flow
  | [] =>
      match else_ with
      | some body => self.statements body
      | none => raiseError ⟨6592, "CASE not found while executing CASE statement"⟩
  | (w, body) :: rest => do
      if ← whenHits host self subject w then self.statements body
      else caseBranches subject else_ rest

/-- Whether EXIT or CONTINUE takes effect. -/
def goes (when_ : Option Expr) : Run host Bool :=
  match when_ with
  | some c => (· == some true) <$> self.evalBool c
  | none => return true

/-- Runs one statement. -/
def statement (s : Stmt) : Run host Flow :=
  match s with
  | .null => return .normal
  | .assign target value => do
      let v ← self.eval value
      act (.assign target v)
      return .normal
  | .if branches else_ => ifBranches host self else_ branches
  | .case operand whens else_ => do
      let subject ← evalOption host self operand
      caseBranches host self subject else_ whens
  | .loop label body => do
      match ← loopIteration host self label body with
      | some flow => return flow
      | none => self.statements [.loop label body]
  | .while label cond body => do
      if (← self.evalBool cond) == some true then
        match ← loopIteration host self label body with
        | some flow => return flow
        | none => self.statements [.while label cond body]
      else return .normal
  | .forRange label var reverse low high body => do
      let lo ← evalInt host self low
      let hi ← evalInt host self high
      forRange host self label var reverse lo hi body
  | .forCursor label var source body => forCursor host self label var source body
  | .exit label when_ => do
      return if ← goes host self when_ then .exit label else .normal
  | .continue label when_ => do
      return if ← goes host self when_ then .continue label else .normal
  | .return e => do
      return .return (← evalOption host self e)
  | .raise none => do
      match (← interp).handling.head? with
      | some exc => Traced.fail exc
      | none =>
          raiseError (pls 367
            "a RAISE statement with no exception name must be inside an exception handler")
  | .raise (some name) => do
      Traced.fail (raised (← interp).frames name)
  | .sql stmt into => do
      sqlStatement host self stmt into
      return .normal
  | .call name args => do
      callStatement host self name args
      return .normal
  | .executeImmediate sql into using_ => do
      executeImmediate host self sql into using_
      return .normal
  | .open cursor args => do
      if (← cursorNamed host cursor).opened.isSome then
        raiseError ⟨6511, "PL/SQL: cursor already open"⟩
      else
        let o ← openQuery host self cursor args
        let _ ← cursorNamed host cursor
        act (.setCursor cursor (some o))
        return .normal
  | .fetch cursor into => do
      fetch host cursor into
      return .normal
  | .close cursor => do
      if (← cursorNamed host cursor).opened.isNone then raiseError invalidCursor
      else
        act (.setCursor cursor none)
        return .normal
  | .block b => self.block b

/-- Runs statements until one of them leaves. -/
def statements : List Stmt → Run host Flow
  | [] => return .normal
  | s :: rest => do
      match ← statement host self s with
      | .normal => statements rest
      | flow => return flow

/-! ## Blocks -/

/-- The statements of the first handler that catches the exception. -/
def handle (exc : Exc) : List Handler → Run host Flow
  | [] => Traced.fail exc
  | .mk exceptions body :: rest => do
      let it ← interp
      if exceptions.any fun name => catches it.frames name exc then
        act (.handle exc)
        let result ← Traced.attempt (self.statements body)
        act .handled
        Traced.lift result
      else handle exc rest

/-- The body of a block, and its handlers if that fails. -/
def blockBody (body : List Stmt) (handlers : List Handler) : Run host Flow := do
  match ← Traced.attempt (self.statements body) with
  | .ok flow => return flow
  | .error exc => handle host self exc handlers

/-- Errors while declaring are not caught by the block's handlers. -/
def blockInFrame : Block → Run host Flow
  | .mk decls body handlers => do
      declareAll host self decls
      blockBody host self body handlers

/-- Runs a block in a frame of its own. -/
def block (b : Block) : Run host Flow := do
  act (.pushFrame [])
  let result ← Traced.attempt (blockInFrame host self b)
  act .popFrame
  Traced.lift result

/-! ## The interpreter -/

/-- The interpreter, with a bound on how deeply its functions call each other. -/
def calls : Nat → Calls host
  | 0 =>
      { eval := fun _ => Traced.timeout
        evalBool := fun _ => Traced.timeout
        resolveCalls := fun _ => Traced.timeout
        call := fun _ _ => Traced.timeout
        invoke := fun _ _ => Traced.timeout
        statements := fun _ => Traced.timeout
        block := fun _ => Traced.timeout }
  | n + 1 =>
      { eval := eval host (calls n)
        evalBool := evalBool host (calls n)
        resolveCalls := resolveCalls host (calls n)
        call := call host (calls n)
        invoke := invoke host (calls n)
        statements := statements host (calls n)
        block := block host (calls n) }

/-- An anonymous block from the beginning. -/
def runBlock (fuel : Nat) (b : Block) (binds : List Value) (data : H) (output : Output) :
    Ran (Action.apply host) Flow ⟨data, 0, output, { binds, readOnly := false }, []⟩ :=
  block host (calls host fuel) b _

/-- A host for concrete runs: its expressions are literals and variables, and its one table T has
the columns A and B. -/
def Host.plain : Host Unit where
  dates := Library.plain.dates
  env _ := Literal.env "HR"
  routine _ _ := none
  columnType _ _ _ := none
  columns _ table := if table = "T" then some ["A", "B"] else none
  eval _ binds vars e := .done (match e with
    | .column table name => ((vars table name).elim (.error (invalidColumn table name)) .ok)
    | e => Literal.value binds (.empty none) e) ()
  evalBool _ binds _ e := .done (Literal.condition binds (.empty none) e) ()
  execute _ _ _ _ := .done (.error Literal.unsupported) ()
  parse _ := .error Literal.unsupported

end MockOracle.Plsql
