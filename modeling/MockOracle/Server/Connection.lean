import MockOracle.Core.Value
import MockOracle.Semantics.Execution

/-!
# Cursors of a connection

The part of the server's `session.rs` that runs statements for a logged-in client: EXECUTE,
re-execute, FETCH and CLOSE_CURSORS over the connection's table of cursors. The database
session behind it is arbitrary. Requests are taken as read from the wire, and replies as the
fields that are written to it; the cursor id in a reply's end-of-call message has 16 bits.
-/

namespace MockOracle.Server

open Std Semantics

structure Column where
  name : String
  sqlType : SqlType

/-- How a statement uses a bind position. -/
inductive BindDir where
  | in
  | inOut
  | returning

/-- The value of a bind after a statement ran. -/
inductive OutBind where
  | in
  | value (v : Value)
  | returning (vs : List Value)

/-- A bind position's type as the client described it. -/
structure BindMeta where
  oraType : Nat
  maxSize : Nat

/-- The result of executing one statement. -/
structure QueryResult where
  isQuery : Bool
  columns : List Column
  rows : List Row
  rowsAffected : Nat
  outBinds : List OutBind

structure Cursor where
  sql : String
  binds : List BindMeta
  bindDirs : List BindDir
  columns : List Column
  pending : List Row
  fetched : Nat

/-- The database session of a connection, and the conversion of OUT values, which can refuse
a value that the client's buffer cannot hold. -/
structure Backend where
  Db : Type
  execute : String → List Value → Db → Except OraError QueryResult × Db
  commit : Db → Except OraError Unit × Db
  savepoint : Db → Nat
  rollbackTo : Nat → Db → Db
  inTransaction : Db → Bool
  bindDirections : String → List BindDir
  writeOutBinds : List OutBind → List BindMeta → List Value → Except OraError (List Nat)

/-- The end-of-call message. `error` is `none` on success. -/
structure EndOfCall where
  callStatus : Nat
  cursorId : Nat
  rowCount : Nat
  error : Option OraError

structure Reply where
  /-- The columns of a query, when it is described. -/
  describe : Option (List Column)
  /-- OUT bind values, one entry per execution. -/
  outRows : List (List Nat)
  rows : List Row
  endOfCall : EndOfCall

/-- A connection with its database session. -/
structure Connection (B : Backend) where
  cursors : ExtTreeMap Nat Cursor
  nextCursorId : Nat
  db : B.Db

/-- A request after login. Identifiers and counts are as read from the wire. -/
inductive Request where
  /-- EXECUTE with a statement text, or again for a cursor. -/
  | execute (sql : Option String) (cursorId : Nat) (binds : List BindMeta)
      (bindRows : List (List Value)) (executions fetch : Nat) (commit : Bool)
  | reexecute (cursorId numIters : Nat) (bindRows : List (List Value)) (fetching commit : Bool)
  | fetch (cursorId arraySize : Nat)
  | closeCursors (ids : List Nat)

def invalidCursor : OraError := ⟨1001, "invalid cursor"⟩

def noDataFound : OraError := ⟨1403, "no data found"⟩

variable {B : Backend}

namespace Connection

def new (db : B.Db) : Connection B := ⟨∅, 1, db⟩

/-- Whether a transaction is open. -/
def callStatus (db : B.Db) : Nat := if B.inTransaction db then 2 else 0

/-- The 16-bit field that carries a cursor id. -/
def asU16 (cursorId : Nat) : Nat := cursorId % 2 ^ 16

def failure (callStatus cursorId rowCount : Nat) (e : OraError) : Reply :=
  ⟨none, [], [], ⟨callStatus, asU16 cursorId, rowCount, some e⟩⟩

/-- What a statement is executed with. -/
structure Call where
  sql : String
  binds : List BindMeta
  bindDirs : List BindDir
  bindRows : List (List Value)
  executions : Nat
  fetch : Nat
  commit : Bool

/-- The executions so far. -/
structure Progress (B : Backend) where
  result : Option QueryResult
  rowsAffected : Nat
  outRows : List (List Nat)
  db : B.Db

/-- An error, the row count and status it is reported with, and the database after it. -/
structure Failed (B : Backend) where
  error : OraError
  rowCount : Nat
  callStatus : Nat
  db : B.Db

/-- Execute the statement once for each list of bind values. An OUT value that does not fit
undoes all executions of the call. -/
def executeAll (call : Call) (savepoint : Nat) :
    List (List Value) → Progress B → Except (Failed B) (Progress B)
  | [], progress => .ok progress
  | values :: rest, progress =>
      match B.execute call.sql values progress.db with
      | (.error e, db) => .error ⟨e, progress.rowsAffected, callStatus db, db⟩
      | (.ok r, db) =>
          let rowsAffected := progress.rowsAffected + r.rowsAffected
          if r.outBinds.isEmpty then
            executeAll call savepoint rest ⟨some r, rowsAffected, progress.outRows, db⟩
          else
            match B.writeOutBinds r.outBinds call.binds values with
            | .error e =>
                let db := B.rollbackTo savepoint db
                .error ⟨e, 0, callStatus db, db⟩
            | .ok row =>
                executeAll call savepoint rest ⟨some r, rowsAffected, progress.outRows ++ [row], db⟩

/-- All executions of a call, and the commit that may follow them. -/
def perform (call : Call) (db : B.Db) : Except (Failed B) (Progress B) :=
  let runs :=
    if call.bindRows.isEmpty then List.replicate (max call.executions 1) [] else call.bindRows
  match executeAll call (B.savepoint db) runs ⟨none, 0, [], db⟩ with
  | .error failed => .error failed
  | .ok progress =>
      if call.commit then
        match B.commit progress.db with
        | (.error e, db) => .error ⟨e, progress.rowsAffected, 0, db⟩
        | (.ok _, db) => .ok { progress with db := db }
      else .ok progress

/-- The cursor of a result, before any of its rows is sent. -/
def cursorOf (call : Call) (result : QueryResult) : Cursor :=
  ⟨call.sql, call.binds, call.bindDirs, result.columns, result.rows, 0⟩

end Connection

namespace Cursor

/-- The cursor without the rows that the next fetch of at most `max` rows sends. -/
def drain (cursor : Cursor) (max : Nat) : Cursor :=
  let n := min max cursor.pending.length
  { cursor with pending := cursor.pending.drop n, fetched := cursor.fetched + n }

/-- The rows that the next fetch of at most `max` rows sends. -/
def sent (cursor : Cursor) (max : Nat) : List Row :=
  cursor.pending.take (min max cursor.pending.length)

end Cursor

namespace Connection

variable (c : Connection B)

/-- Send up to `max` pending rows of a cursor, then the end-of-call message: ORA-01403 when the
cursor is exhausted. -/
def sendRows (cursorId max : Nat) (describe : Option (List Column)) (outRows : List (List Nat)) :
    Reply × Connection B :=
  match c.cursors[cursorId]? with
  | none => (failure (callStatus c.db) 0 0 invalidCursor, c)
  | some cursor =>
      let left := cursor.drain max
      let error := if left.pending.isEmpty then some noDataFound else none
      (⟨describe, outRows, cursor.sent max,
          ⟨callStatus c.db, asU16 cursorId, left.fetched, error⟩⟩,
        { c with cursors := c.cursors.insert cursorId left })

/-- Run a statement and store its cursor, under a new id when `cursorId` is zero. The counter
of ids has 32 bits. -/
def runStatement (cursorId : Nat) (call : Call) : Reply × Connection B :=
  match perform call c.db with
  | .error failed =>
      (failure failed.callStatus cursorId failed.rowCount failed.error, { c with db := failed.db })
  | .ok progress =>
      match progress.result with
      -- There is at least one execution, so there is a result.
      | none => (failure 0 cursorId 0 invalidCursor, { c with db := progress.db })
      | some result =>
          let (cursorId, nextCursorId) :=
            if cursorId = 0 then (c.nextCursorId, (c.nextCursorId + 1) % 2 ^ 32)
            else (cursorId, c.nextCursorId)
          let stored : Connection B :=
            ⟨c.cursors.insert cursorId (cursorOf call result), nextCursorId, progress.db⟩
          if result.isQuery then
            stored.sendRows cursorId call.fetch (some result.columns) progress.outRows
          else
            (⟨none, progress.outRows, [],
              ⟨callStatus progress.db, asU16 cursorId, progress.rowsAffected, none⟩⟩, stored)

/-- The call for a cursor that is executed again by EXECUTE. -/
def executeCall (cursor : Cursor) (binds : List BindMeta) (bindRows : List (List Value))
    (executions fetch : Nat) (commit : Bool) : Call :=
  ⟨cursor.sql, binds, B.bindDirections cursor.sql, bindRows, executions, fetch, commit⟩

/-- The call of a re-execute. For DML the iteration count is the number of executions; queries
run once. -/
def reexecuteCall (cursor : Cursor) (numIters : Nat) (bindRows : List (List Value))
    (fetching commit : Bool) : Call :=
  ⟨cursor.sql, cursor.binds, cursor.bindDirs, bindRows,
    if cursor.columns.isEmpty then numIters else 1, if fetching then numIters else 0, commit⟩

/-- Serve one request. CLOSE_CURSORS comes in front of another request and has no reply of
its own. -/
def serve (request : Request) : Option Reply × Connection B :=
  match request with
  | .execute (some sql) _ binds bindRows executions fetch commit =>
      let (reply, c) := c.runStatement 0
        ⟨sql, binds, B.bindDirections sql, bindRows, executions, fetch, commit⟩
      (some reply, c)
  | .execute none cursorId binds bindRows executions fetch commit =>
      match c.cursors[cursorId]? with
      | none => (some (failure (callStatus c.db) 0 0 invalidCursor), c)
      | some cursor =>
          let (reply, c) := c.runStatement cursorId
            (executeCall (B := B) cursor binds bindRows executions fetch commit)
          (some reply, c)
  | .reexecute cursorId numIters bindRows fetching commit =>
      match c.cursors[cursorId]? with
      | none => (some (failure (callStatus c.db) 0 0 invalidCursor), c)
      | some cursor =>
          let (reply, c) := c.runStatement cursorId
            (reexecuteCall cursor numIters bindRows fetching commit)
          (some reply, c)
  | .fetch cursorId arraySize =>
      let (reply, c) := c.sendRows cursorId arraySize none []
      (some reply, c)
  | .closeCursors ids =>
      (none, { c with cursors := ids.foldl (fun cursors id => cursors.erase id) c.cursors })

end Connection

/-- A database whose statements all succeed and return nothing. -/
def quiet : Backend where
  Db := Unit
  execute _ _ _ := (.ok ⟨false, [], [], 0, []⟩, ())
  commit _ := (.ok (), ())
  savepoint _ := 0
  rollbackTo _ _ := ()
  inTransaction _ := false
  bindDirections _ := []
  writeOutBinds _ _ _ := .ok []

end MockOracle.Server
