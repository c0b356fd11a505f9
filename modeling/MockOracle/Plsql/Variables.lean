import MockOracle.Plsql.Interp
import MockOracle.Plsql.Output

/-!
# The state of the PL/SQL interpreter

The frames of the blocks being run with their variables, exceptions, cursors and routines, and
the conversions and assignments of `plsql/exec.rs` that fill variables. Where the source keeps a
vector and looks from its end, there is a list here with the newest element first.
-/

namespace MockOracle.Plsql

/-! ## Errors -/

/-- The error of a name that is not declared. -/
def notDeclared (name : String) : OraError := pls 201 ("identifier '" ++ name ++ "' must be declared")

/-- VALUE_ERROR, with what was too long or no number. -/
def valueError (detail : String) : OraError := ⟨6502, "PL/SQL: numeric or value error" ++ detail⟩

/-- The error of a value that is not of the type it is needed in. -/
def wrongType : OraError := pls 382 "expression is of wrong type"

/-- The error of an assignment to a constant or to a parameter that is read only. -/
def notTarget (name : String) : OraError :=
  pls 363 ("expression '" ++ name ++ "' cannot be used as an assignment target")

/-- The error of a field that the record does not have. -/
def noComponent (field : String) : OraError := pls 302 ("component '" ++ field ++ "' must be declared")

/-- Errors from storing into a column, as PL/SQL's VALUE_ERROR. -/
def asValueError (e : OraError) : OraError :=
  if e.code = 12899 then valueError ": character string buffer too small"
  else if e.code = 1438 then valueError ": number precision too large"
  else if e.code = 1722 then valueError ": character to number conversion error"
  else e

/-! ## Variables -/

/-- The types of variables. -/
inductive VarType where
  | sql (t : SqlType)
  | boolean
  | integer
  | record
  deriving DecidableEq, Repr

/-- A variable, with its declaration and what it holds. -/
structure Var where
  type : VarType
  slot : Slot
  constant : Bool
  notNull : Bool

/-- A column to store values of a type in. -/
def SqlType.column (t : SqlType) : TableColumn := ⟨"", t, none, false, false⟩

/-- NULL, and the values of a type that are no records. -/
def VarType.Holds (dates : DateFormats) : VarType → Value → Prop
  | .sql t, v => v = .null ∨
      ∀ env user table, (SqlType.column t).storeValue dates env user table v = .ok v
  | .integer, v => v = .null ∨ ∃ (n : BigDecimal) (i : Int), v = .number n ∧ n.toRat = i
  | .boolean, v => v = .null ∨ ∃ b, v = .boolean b
  | .record, v => v = .null

/-- A value that has been converted for variables of a type. -/
structure Converted (dates : DateFormats) (type : VarType) where
  value : Value
  holds : type.Holds dates value

namespace Converted

variable {dates : DateFormats}

/-- NULL as a variable of any type holds it. -/
def null (type : VarType) : Converted dates type where
  value := .null
  holds := by
    cases type with
    | record => rfl
    | sql _ | integer | boolean => exact Or.inl rfl

/-- TRUE or FALSE as a BOOLEAN variable holds it. -/
def boolean (b : Bool) : Converted dates .boolean := ⟨.boolean b, Or.inr ⟨b, rfl⟩⟩

/-- A number without decimal places. -/
def whole (n : BigDecimal) (scale : n.scale = 0) : Converted dates .integer :=
  ⟨.number n, Or.inr ⟨n, n.intVal, rfl, by rw [BigDecimal.toRat, scale]; simp⟩⟩

/-- An integer as an INTEGER variable holds it. -/
def int (i : Int) : Converted dates .integer := whole ⟨i, 0⟩ rfl

end Converted

/-- A number that is rounded to a scale has this scale. -/
theorem scale_withScaleRound (n : BigDecimal) (scale : Int) :
    (n.withScaleRound scale).scale = scale := by
  unfold BigDecimal.withScaleRound BigDecimal.withScale
  split <;> rfl

/-- Converts a value for a variable of type `type`. -/
def convert (dates : DateFormats) (env : Env) (type : VarType) (v : Value) :
    Except OraError (Converted dates type) :=
  if v.isNull then .ok (.null type)
  else
    match type, v with
    | .record, _ => .error wrongType
    | .boolean, .boolean b => .ok (.boolean b)
    | .boolean, _ => .error wrongType
    | .integer, .boolean _ => .error wrongType
    | .integer, v =>
        match v.toNumber with
        | .error e => .error (asValueError e)
        | .ok none => .ok (.null _)
        | .ok (some n) => .ok (.whole (n.withScaleRound 0) (scale_withScaleRound n 0))
    | .sql _, .boolean _ => .error wrongType
    | .sql t, v =>
        match stored : (SqlType.column t).storeValue dates env env.user "" v with
        | .error e => .error (asValueError e)
        | .ok w => .ok ⟨w, (TableColumn.storeValue_conforms stored).imp id And.right⟩

/-- What a variable of a type starts with. -/
inductive Initial (dates : DateFormats) : VarType → Type where
  | value {type : VarType} (v : Converted dates type) : Initial dates type
  | record (fields : List (String × Value)) : Initial dates .record

namespace Initial

variable {dates : DateFormats} {type : VarType}

/-- What the variable holds at first. -/
def slot : Initial dates type → Slot
  | value v => .scalar v.value
  | record fields => .record fields

/-- It is NULL, and no record. -/
def isNull : Initial dates type → Bool
  | value v => v.value.isNull
  | record _ => false

/-- The variable at first. -/
def var (initial : Initial dates type) (constant notNull : Bool) : Var :=
  ⟨type, initial.slot, constant, notNull⟩

end Initial

/-- A declared type: one of single values, or the fields of a record. -/
inductive Resolved where
  | scalar (type : VarType)
  | record (fields : List String)

namespace Resolved

/-- The type of variables of a declared type. -/
def type : Resolved → VarType
  | scalar type => type
  | record _ => .record

/-- What a variable of the type holds without a default. -/
def initial {dates : DateFormats} : (r : Resolved) → Initial dates r.type
  | scalar type => .value (.null type)
  | record fields => .record (fields.map fun name => (name, .null))

end Resolved

/-! ## Frames -/

/-- An open cursor: the rows that are left, and what its attributes show. -/
structure OpenCursor where
  rows : List Row
  columns : List String
  rowcount : Nat
  /-- Whether the last FETCH returned a row, if there was one. -/
  found : Option Bool

/-- A cursor as it is declared, and open or not. -/
structure Cursor where
  decl : CursorDecl
  opened : Option OpenCursor

/-- The declarations of a block. -/
structure Frame where
  vars : List (String × Var) := []
  /-- User-defined exceptions, with the error code PRAGMA EXCEPTION_INIT gave them. -/
  exceptions : List (String × Option Nat) := []
  cursors : List (String × Cursor) := []
  routines : List Routine := []

/-- The value of a name in a list of named things. -/
def named {α : Type} (name : String) (entries : List (String × α)) : Option α :=
  (entries.find? fun entry => entry.1 = name).map Prod.snd

/-- Change the first value of a name. -/
def setNamed {α : Type} (name : String) (change : α → α) : List (String × α) → List (String × α)
  | [] => []
  | (other, a) :: rest =>
      if other = name then (other, change a) :: rest else (other, a) :: setNamed name change rest

/-- Change the first frame in which something is named. -/
def setFrame {α : Type} (entries : Frame → List (String × α)) (name : String)
    (change : Frame → Frame) : List Frame → List Frame
  | [] => []
  | f :: rest =>
      if (named name (entries f)).isSome then change f :: rest
      else f :: setFrame entries name change rest

/-- Changing the first frame in which something is named changes nothing that the change leaves
alone. -/
theorem map_setFrame {α β : Type} {g : Frame → β} {entries : Frame → List (String × α)}
    {change : Frame → Frame} (same : ∀ f, g (change f) = g f) (name : String)
    (frames : List Frame) : (setFrame entries name change frames).map g = frames.map g := by
  induction frames with
  | nil => rfl
  | cons f rest ih =>
      unfold setFrame
      split
      · rw [List.map_cons, List.map_cons, same]
      · rw [List.map_cons, List.map_cons, ih]

/-- The innermost variable of a name. -/
def findVar (frames : List Frame) (name : String) : Option Var :=
  frames.findSome? fun f => named name f.vars

/-- The innermost exception of a name, with the code it was given. -/
def findException (frames : List Frame) (name : String) : Option (Option Nat) :=
  frames.findSome? fun f => named name f.exceptions

/-- The innermost cursor of a name. -/
def findCursor (frames : List Frame) (name : String) : Option Cursor :=
  frames.findSome? fun f => named name f.cursors

/-- Change the innermost variable of a name. -/
def setVar (name : String) (change : Var → Var) : List Frame → List Frame :=
  setFrame Frame.vars name fun f => { f with vars := setNamed name change f.vars }

/-- Give the innermost exception of a name a code. -/
def setException (name : String) (code : Nat) : List Frame → List Frame :=
  setFrame Frame.exceptions name fun f =>
    { f with exceptions := setNamed name (fun _ => some code) f.exceptions }

/-- Open or close the innermost cursor of a name. -/
def setCursor (name : String) (opened : Option OpenCursor) : List Frame → List Frame :=
  setFrame Frame.cursors name fun f =>
    { f with cursors := setNamed name (fun c => { c with opened }) f.cursors }

/-! ## The interpreter -/

/-- One interpreter: its binds, the frames of the blocks being run, SQL%ROWCOUNT, and the
exceptions being handled. One that runs a function called from SQL may not change data. -/
structure Interp where
  binds : List Value
  readOnly : Bool
  frames : List Frame := []
  rowcount : Option Nat := none
  handling : List Exc := []

namespace Interp

variable (it : Interp)

/-- Whether a name is that of a variable. -/
def isVar (name : String) : Bool := (findVar it.frames name).isSome

/-- The attributes of the last SQL statement. -/
def sqlAttribute (name : String) : Option Value :=
  if name = "ROWCOUNT" then some ((it.rowcount.map fun n => Value.ofInt n).getD .null)
  else if name = "FOUND" then some (MockOracle.Interp.boolValue (it.rowcount.map fun n => 0 < n))
  else if name = "NOTFOUND" then some (MockOracle.Interp.boolValue (it.rowcount.map fun n => n = 0))
  else if name = "ISOPEN" then some (.boolean false)
  else none

/-- The variables a SQL expression sees. -/
def lookup : VarLookup
  | none, name =>
      match findVar it.frames name with
      | some ⟨_, .scalar v, _, _⟩ => some v
      | some ⟨_, .record _, _, _⟩ => none
      | none =>
          if name = "SQLCODE" then some (.ofInt ((it.handling.head?.map Exc.sqlcode).getD 0))
          else if name = "SQLERRM" then
            some (.varchar ((it.handling.head?.map Exc.sqlerrm).getD
              "ORA-0000: normal, successful completion"))
          else none
  | some qualifier, name =>
      if qualifier = "SQL%" then it.sqlAttribute name
      else if qualifier.toList.getLast? = some '%' then
        (findCursor it.frames (String.ofList qualifier.toList.dropLast)).bind fun c =>
          MockOracle.Interp.cursorAttribute (c.opened.map fun o => ⟨o.rowcount, o.found⟩) name
      else
        match findVar it.frames qualifier with
        | some ⟨_, .record fields, _, _⟩ => named name fields
        | _ => none

/-- Assign to a variable, converting the value. -/
def assignVar (dates : DateFormats) (env : Env) (name : String) (v : Value) :
    Except OraError Interp :=
  match findVar it.frames name with
  | none => .error (notDeclared name)
  | some var =>
      if var.constant then .error (notTarget name)
      else
        match convert dates env var.type v with
        | .error e => .error e
        | .ok converted =>
            if var.notNull && converted.value.isNull then .error (valueError "")
            else
              .ok { it with
                frames := setVar name (fun var => { var with slot := .scalar converted.value })
                  it.frames }

/-- The fields of a record with one changed. A record without fields takes on the field. -/
def assignField (fields : List (String × Value)) (field : String) (v : Value) :
    Except OraError (List (String × Value)) :=
  if (named field fields).isSome then .ok (setNamed field (fun _ => v) fields)
  else if fields.isEmpty then .ok [(field, v)]
  else .error (noComponent field)

/-- Assign a value to a variable, a field of a record, or a bind. -/
def assign (dates : DateFormats) (env : Env) (target : Target) (v : Value) :
    Except OraError Interp :=
  match target with
  | .bind i =>
      .ok { it with
        binds := (it.binds ++ List.replicate (i + 1 - it.binds.length) Value.null).set i v }
  | .var name => it.assignVar dates env name v
  | .field record field =>
      match findVar it.frames record with
      | none => .error (notDeclared record)
      | some ⟨_, .scalar _, _, _⟩ => .error (noComponent field)
      | some ⟨_, .record fields, _, _⟩ =>
          match assignField fields field v with
          | .error e => .error e
          | .ok fields =>
              .ok { it with
                frames := setVar record (fun var => { var with slot := .record fields }) it.frames }

/-- The fields of a record that takes a row. -/
def rowFields (fields : List (String × Value)) (columns : List String) (row : Row) :
    List (String × Value) :=
  if fields.length = row.length then (fields.map Prod.fst).zip row else columns.zip row

/-- Give a record a row. -/
def fillRecord (name : String) (columns : List String) (row : Row) : Interp :=
  { it with
    frames := setVar name (fun var =>
      match var.slot with
      | .record fields => { var with slot := .record (rowFields fields columns row) }
      | .scalar _ => var) it.frames }

end Interp

/-! ## Steps -/

/-- What SQL statements return. -/
structure Outcome where
  rowsAffected : Nat := 0
  rows : List Row := []
  /-- The names of a query's columns. -/
  names : List String := []

/-- SQL that is being run. It may call stored functions, which it gives the data as they are then,
before it comes to a result. -/
inductive SqlRun (H α : Type) where
  | done (result : Except OraError α) (data : H)
  | call (routine : Routine) (args : List Value) (data : H)
      (resume : Except OraError Value → H → SqlRun H α)

/-- What the interpreter needs from its surroundings. `H` is what SQL changes. The depth of calls and
DBMS_OUTPUT's buffer are not part of it: SQL changes them only by the functions it calls. -/
structure Host (H : Type) where
  dates : DateFormats
  env : H → Env
  routine : H → String → Option Routine
  /-- The type of a table's column. -/
  columnType : H → String → String → Option SqlType
  /-- The names of a table's columns. -/
  columns : H → String → Option (List String)
  eval : H → List Value → VarLookup → Expr → SqlRun H Value
  evalBool : H → List Value → VarLookup → Expr → SqlRun H (Option Bool)
  execute : H → Statement → List Value → Option VarLookup → SqlRun H Outcome
  /-- A statement and the number of its binds. -/
  parse : String → Except OraError (Statement × Nat)

/-- The interpreter that is running, those that wait for it, and what they share. -/
structure State (H : Type) where
  data : H
  /-- How deeply PL/SQL calls are nested. -/
  depth : Nat
  output : Output
  it : Interp
  callers : List Interp := []

/-- The ways in which the state changes. -/
inductive Action (H : Type) (dates : DateFormats) where
  /-- A frame for a block, a loop, or the parameters of a cursor. -/
  | pushFrame (params : List (String × Σ type, Initial dates type))
  | popFrame
  | declare (name : String) {type : VarType} (initial : Initial dates type)
      (constant notNull : Bool)
  | declareException (name : String)
  | initException (name : String) (code : Nat)
  | declareCursor (decl : CursorDecl)
  | declareRoutine (r : Routine)
  /-- The routines of the caller's blocks stay callable. -/
  | inherit (routines : List Routine)
  /-- The counter of an integer FOR loop. A loop's variable is the only one of its frame. -/
  | counter (name : String) (i : Int)
  /-- The record of a cursor FOR loop. -/
  | rowVar (name : String) (fields : List (String × Value))
  | assign (target : Target) (v : Value)
  | fillRecord (name : String) (columns : List String) (row : Row)
  | setCursor (name : String) (opened : Option OpenCursor)
  | handle (exc : Exc)
  | handled
  | rowcount (n : Nat)
  /-- Another interpreter runs. -/
  | enter (binds : List Value) (readOnly : Bool)
  | leave
  | deeper
  | shallower
  | setData (data : H)
  | setOutput (output : Output)

namespace Action

variable {H : Type} (host : Host H)

/-- Change the innermost frame. -/
def inFrame (change : Frame → Frame) (it : Interp) : Interp :=
  { it with frames := it.frames.modifyHead change }

/-- The interpreter after an action that concerns it alone. -/
def onInterp (data : H) (it : Interp) : Action H host.dates → Except OraError Interp
  | pushFrame params =>
      .ok { it with
        frames := { vars := (params.map fun p => (p.1, p.2.2.var true false)).reverse } :: it.frames }
  | popFrame => .ok { it with frames := it.frames.tail }
  | declare name initial constant notNull =>
      if notNull && initial.isNull then .error (valueError "")
      else
        .ok (inFrame (fun f => { f with vars := (name, initial.var constant notNull) :: f.vars }) it)
  | declareException name =>
      .ok (inFrame (fun f => { f with exceptions := (name, none) :: f.exceptions }) it)
  | initException name code =>
      if (findException it.frames name).isSome then
        .ok { it with frames := setException name code it.frames }
      else .error (notDeclared name)
  | declareCursor decl =>
      .ok (inFrame (fun f => { f with cursors := (decl.name, ⟨decl, none⟩) :: f.cursors }) it)
  | declareRoutine r => .ok (inFrame (fun f => { f with routines := r :: f.routines }) it)
  | inherit routines => .ok (inFrame (fun f => { f with routines := routines ++ f.routines }) it)
  | counter name i =>
      .ok (inFrame (fun f => { f with vars := [(name, ⟨.integer, .scalar (.ofInt i), true, true⟩)] }) it)
  | rowVar name fields =>
      .ok (inFrame (fun f => { f with vars := [(name, ⟨.record, .record fields, false, false⟩)] }) it)
  | assign target v => it.assign host.dates (host.env data) target v
  | fillRecord name columns row => .ok (it.fillRecord name columns row)
  | setCursor name opened => .ok { it with frames := Plsql.setCursor name opened it.frames }
  | handle exc => .ok { it with handling := exc :: it.handling }
  | handled => .ok { it with handling := it.handling.tail }
  | rowcount n => .ok { it with rowcount := some n }
  | enter _ _ | leave | deeper | shallower | setData _ | setOutput _ => .ok it

/-- The state after an action. -/
def apply (a : Action H host.dates) (s : State H) : Except Exc (State H) :=
  match a with
  | enter binds readOnly => .ok { s with it := { binds, readOnly }, callers := s.it :: s.callers }
  | leave => .ok { s with it := s.callers.headD s.it, callers := s.callers.tail }
  | deeper => .ok { s with depth := s.depth + 1 }
  | shallower => .ok { s with depth := s.depth - 1 }
  | setData data => .ok { s with data }
  | setOutput output => .ok { s with output }
  | a =>
      match onInterp host s.data s.it a with
      | .ok it => .ok { s with it }
      | .error e => .error ⟨e, none⟩

end Action

end MockOracle.Plsql
