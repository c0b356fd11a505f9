import MockOracle.Eval.Typing

/-!
# Sequences in a row

A row advances each sequence its expressions mention once, and keeps the values until it is
done. The values live in the session's environment, by the sequence's name without schema.
-/

namespace MockOracle

open Std

/-- The nearest 128-bit integer. -/
def saturate (n : Int) : Int := max (-(2 ^ 127)) (min n (2 ^ 127 - 1))

/-- The number a counter gives and the counter after it; a sequence that is exhausted and does
not cycle gives none. -/
def SequenceDef.draw (def_ : SequenceDef) (next : Int) : Option (Int × Int) :=
  let outside : Bool := def_.max < next || next < def_.min
  if outside && !def_.cycle then none
  else
    let v := if outside then (if 0 < def_.increment then def_.min else def_.max) else next
    some (v, saturate (v + def_.increment))

/-- Draw the next number of a sequence. Its counter starts at START WITH. -/
def nextSequence (name : String) (def_ : SequenceDef) : EvalM Int := fun st =>
  let next := st.sequences.getD name def_.start
  match def_.draw next with
  | none =>
      let limit := if 0 < def_.increment then "MAXVALUE" else "MINVALUE"
      .error ⟨8004, "sequence " ++ name ++ ".NEXTVAL exceeds " ++ limit ++
        " and cannot be instantiated"⟩ { st with sequences := st.sequences.insert name next }
  | some (v, after) => .ok v { st with sequences := st.sequences.insert name after }

/-- Change the environment. -/
def modifyEnv (f : Env → Env) : EvalM Unit := fun st => .ok () { st with env := f st.env }

def noSequence : OraError := ⟨2289, "sequence does not exist"⟩

/-- Advance a sequence and make its value the session's current one. -/
def advanceSequence (ex : Ex) (name : String) : EvalM Int := do
  let short := shortName name
  match ex.committed.sequences[short]? with
  | none => throw noSequence
  | some def_ =>
      let v ← nextSequence short def_
      modifyEnv fun env => { env with currval := env.currval.insert short v }
      return v

/-- NEXTVAL or CURRVAL: the row's value if there is one. -/
def sequenceValue (ex : Ex) (name : String) (next : Bool) : EvalM Value := do
  let short := shortName name
  if (ex.committed.sequences[short]?).isNone then throw noSequence
  let env := (← get).env
  match env.rowSequences[short]?, next, env.currval[short]? with
  | some v, _, _ => return .ofInt v
  | none, true, _ => return .ofInt (← advanceSequence ex short)
  | none, false, some v => return .ofInt v
  | none, false, none =>
      throw ⟨8002, "sequence " ++ short ++ ".CURRVAL is not yet defined in this session"⟩

/-- The sequences whose NEXTVAL an expression mentions, added to those found so far. -/
def nextvalNames (found : List String) (e : Expr) : List String :=
  let found := match e with
    | .sequence name true => if found.contains name then found else found ++ [name]
    | _ => found
  e.children.attach.foldl (fun found c => nextvalNames found c.1) found
termination_by sizeOf e
decreasing_by exact Expr.sizeOf_children c.2

/-- Advance each named sequence and keep its value for the row. -/
def advanceAll (ex : Ex) : List String → EvalM Unit
  | [] => pure ()
  | name :: rest => do
      let v ← advanceSequence ex name
      modifyEnv fun env => { env with rowSequences := env.rowSequences.insert (shortName name) v }
      advanceAll ex rest

/-- Start a row: forget the previous row's values and advance each sequence whose NEXTVAL the
row's expressions mention. -/
def startRow (ex : Ex) (exprs : List Expr) : EvalM Unit := do
  modifyEnv fun env => { env with rowSequences := ∅ }
  advanceAll ex (exprs.foldl nextvalNames [])

/-- Evaluate `body` for one row, whose sequence values last until it is done. -/
def rowGuard {α : Type} (ex : Ex) (exprs : List Expr) (body : EvalM α) : EvalM α := fun st =>
  match startRow ex exprs st with
  | .error e st => .error e st.endRow
  | .ok _ st =>
      match body st with
      | .ok a st => .ok a st.endRow
      | .error e st => .error e st.endRow

end MockOracle
