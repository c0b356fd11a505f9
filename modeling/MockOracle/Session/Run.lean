import MockOracle.Session.Ddl

/-!
# Running statements and blocks

`World.run` dispatches a statement. A PL/SQL block runs its statements through the same
function; between them it evaluates expressions and decides what to do next from what it
has seen. A `Script` is one block in this view: the tree of everything it may ask of its
session, with a branch for every answer. The interpreter that turns a block into its
script is not part of this module, so what is proved here holds for any.
-/

namespace MockOracle

open Std Semantics

/-- The result of a statement. -/
structure Outcome where
  rowsAffected : Nat
  columns : List (String × SqlType)
  rows : List Row

def Outcome.none : Outcome := ⟨0, [], []⟩

namespace World

/-- Run a query on the state this session sees. -/
def query (ev : Evaluator) (q : Query) (binds : List Value) (vars : Option VarLookup) (w : World) :
    Except OraError Outcome × World :=
  match ev.query ⟨w.catalog, binds, w.db.state, vars⟩ q none w.evalState with
  | .ok rel eval =>
      (.ok ⟨rel.rows.length, rel.cols.map fun c => (c.name, c.sqlType), rel.rows⟩, w.setEval eval)
  | .error e eval => (.error e, w.setEval eval)

def alterSession (ev : Evaluator) (name value : String) (w : World) :
    Except OraError Unit × World :=
  match ev.alterSession w.session.env name value with
  | .ok env => (.ok (), { w with session := { w.session with env } })
  | .error e => (.error e, w)

/-- A statement that only succeeds or fails, as an outcome. -/
def plain (result : Except OraError Unit × World) : Except OraError Outcome × World :=
  (result.1.map fun _ => .none, result.2)

def runDml (ev : Evaluator) (stmt : DmlStatement) (binds : List Value) (vars : Option VarLookup)
    (w : World) : Except OraError Outcome × World :=
  let result := w.dml ev binds vars stmt
  (result.1.map fun r => ⟨r.1, [], r.2⟩, result.2)

/-- DDL commits any open transaction first, then changes the committed state directly. -/
def commitAndDdl (ev : Evaluator) (binds : List Value) (stmt : Statement) (w : World) :
    Except OraError Unit × World :=
  match w.commit with
  | (.error e, w) => (.error e, w)
  | (.ok _, w) => w.ddl ev binds stmt

/-- Run a statement other than a block. -/
def run (ev : Evaluator) (stmt : Statement) (binds : List Value) (vars : Option VarLookup)
    (w : World) : Except OraError Outcome × World :=
  match stmt with
  | .query q => w.query ev q binds vars
  | .insert i => w.runDml ev (.insert i) binds vars
  | .update u => w.runDml ev (.update u) binds vars
  | .delete d => w.runDml ev (.delete d) binds vars
  | .commit => plain w.commit
  | .rollback => (.ok .none, w.rollback)
  | .alterSession name value => plain (w.alterSession ev name value)
  | stmt => plain (w.commitAndDdl ev binds stmt)

end World

/-- What a block asks of its session, one request after another. -/
inductive Script where
  | done (result : Except OraError (List Value))
  /-- Evaluate something on the state the session sees. -/
  | evaluate (step : Ex → EvalState → EvalState) (next : Ex → EvalState → Script)
  | execute (stmt : Statement) (binds : List Value) (vars : Option VarLookup)
      (next : Except OraError Outcome → Script)
  /-- Run a block inside this one as a statement of its own. -/
  | block (inner : Script) (next : Except OraError (List Value) → Script)

namespace World

/-- Undo to a savepoint if a block failed. -/
def settle (savepoint : Savepoint) (result : Except OraError (List Value) × World) :
    Except OraError (List Value) × World :=
  match result with
  | (.error e, w) => (.error e, { w with session := w.session.rollbackTo savepoint })
  | (.ok values, w) => (.ok values, w)

def runScript (ev : Evaluator) : Script → World → Except OraError (List Value) × World
  | .done result, w => (result, w)
  | .evaluate step next, w =>
      let ex : Ex := ⟨w.catalog, [], w.db.state, none⟩
      runScript ev (next ex w.evalState) (w.setEval (step ex w.evalState))
  | .execute stmt binds vars next, w =>
      let result := w.run ev stmt binds vars
      runScript ev (next result.1) result.2
  | .block inner next, w =>
      let result := settle w.session.savepoint (runScript ev inner w)
      runScript ev (next result.1) result.2

/-- Run a block as one statement: if it fails, its uncommitted changes are undone. -/
def block (ev : Evaluator) (script : Script) (w : World) : Except OraError (List Value) × World :=
  settle w.session.savepoint (w.runScript ev script)

end World

end MockOracle
