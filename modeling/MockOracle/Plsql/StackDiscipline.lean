import MockOracle.Plsql.Statements

/-!
# Frames are popped however a statement ends

A statement, a block, the opening of a cursor and a call leave the frames, the exceptions being
handled and the depth of calls as they were, whether they end normally, by EXIT, CONTINUE or RETURN,
or by an exception. Declarations change the innermost frame only, and a routine runs in frames of its
own. Each function of the interpreter keeps one of these relations if those it calls do.
-/

namespace MockOracle.Plsql

open Semantics

variable {H : Type} {host : Host H}

/-! ## What stays the same -/

/-- What a frame declares, apart from what its variables and cursors hold now. -/
def Frame.declared (f : Frame) :
    List (String × VarType × Bool × Bool) × List String × List (String × CursorDecl) × List Routine :=
  (f.vars.map fun v => (v.1, v.2.type, v.2.constant, v.2.notNull), f.exceptions.map Prod.fst,
    f.cursors.map fun c => (c.1, c.2.decl), f.routines)

/-- Nothing is left on a stack or missing from it: the frames are the same ones, the same exceptions
are being handled, calls are as deep, and the same interpreters wait. -/
structure Level (s s' : State H) : Prop where
  frames : s'.it.frames.map Frame.declared = s.it.frames.map Frame.declared
  handling : s'.it.handling = s.it.handling
  depth : s'.depth = s.depth
  callers : s'.callers = s.callers

/-- The same but for the innermost frame. -/
structure LevelOutside (s s' : State H) : Prop where
  frames : s'.it.frames.tail.map Frame.declared = s.it.frames.tail.map Frame.declared
  handling : s'.it.handling = s.it.handling
  depth : s'.depth = s.depth
  callers : s'.callers = s.callers

/-- The same but for the interpreter that is running. -/
structure LevelBelow (s s' : State H) : Prop where
  depth : s'.depth = s.depth
  callers : s'.callers = s.callers

/-- Staying level is reflexive and goes through any number of steps. -/
instance : IsPreorder (State H) Level where
  refl _ := ⟨rfl, rfl, rfl, rfl⟩
  trans _ _ _ one two := ⟨two.frames.trans one.frames, two.handling.trans one.handling,
    two.depth.trans one.depth, two.callers.trans one.callers⟩

/-- Staying level outside the innermost frame goes through any number of steps. -/
instance : IsPreorder (State H) LevelOutside where
  refl _ := ⟨rfl, rfl, rfl, rfl⟩
  trans _ _ _ one two := ⟨two.frames.trans one.frames, two.handling.trans one.handling,
    two.depth.trans one.depth, two.callers.trans one.callers⟩

/-- Staying level below the running interpreter goes through any number of steps. -/
instance : IsPreorder (State H) LevelBelow where
  refl _ := ⟨rfl, rfl⟩
  trans _ _ _ one two := ⟨two.depth.trans one.depth, two.callers.trans one.callers⟩

/-- What leaves all frames as they were leaves those below the innermost one as they were. -/
theorem Level.outside {s s' : State H} (level : Level s s') : LevelOutside s s' where
  frames := by rw [List.map_tail, level.frames, ← List.map_tail]
  handling := level.handling
  depth := level.depth
  callers := level.callers

/-- The callers and the depth of calls are among what stays level. -/
theorem Level.below {s s' : State H} (level : Level s s') : LevelBelow s s' :=
  ⟨level.depth, level.callers⟩

/-- The callers and the depth of calls are among what stays level outside the innermost frame. -/
theorem LevelOutside.below {s s' : State H} (level : LevelOutside s s') : LevelBelow s s' :=
  ⟨level.depth, level.callers⟩

/-! ## Actions -/

/-- Changing a named thing changes nothing that is read off all things alike before and after. -/
theorem map_setNamed {α β : Type} {g : String × α → β} {change : α → α}
    (same : ∀ name a, g (name, change a) = g (name, a)) (name : String)
    (entries : List (String × α)) : (setNamed name change entries).map g = entries.map g := by
  induction entries with
  | nil => rfl
  | cons entry rest ih =>
      obtain ⟨other, a⟩ := entry
      unfold setNamed
      split
      · rw [List.map_cons, List.map_cons, same]
      · rw [List.map_cons, List.map_cons, ih]

/-- Giving a variable another value declares nothing. -/
theorem declared_setVar {change : Var → Var}
    (same : ∀ v, (change v).type = v.type ∧ (change v).constant = v.constant ∧
      (change v).notNull = v.notNull) (name : String) (frames : List Frame) :
    (setVar name change frames).map Frame.declared = frames.map Frame.declared := by
  refine map_setFrame (fun f => ?_) name frames
  have vars : (setNamed name change f.vars).map
      (fun v => (v.1, v.2.type, v.2.constant, v.2.notNull)) =
        f.vars.map fun v => (v.1, v.2.type, v.2.constant, v.2.notNull) := by
    apply map_setNamed
    intro other v
    obtain ⟨type, constant, notNull⟩ := same v
    rw [type, constant, notNull]
  simp only [Frame.declared, vars]

/-- PRAGMA EXCEPTION_INIT declares no other exception. -/
theorem declared_setException (name : String) (code : Nat) (frames : List Frame) :
    (setException name code frames).map Frame.declared = frames.map Frame.declared := by
  refine map_setFrame (fun f => ?_) name frames
  have names : (setNamed name (fun _ => some code) f.exceptions).map Prod.fst =
      f.exceptions.map Prod.fst := by
    apply map_setNamed
    exact fun _ _ => rfl
  simp only [Frame.declared, names]

/-- Opening, fetching from or closing a cursor declares nothing. -/
theorem declared_setCursor (name : String) (opened : Option OpenCursor) (frames : List Frame) :
    (setCursor name opened frames).map Frame.declared = frames.map Frame.declared := by
  refine map_setFrame (fun f => ?_) name frames
  have cursors : (setNamed name (fun c : Cursor => { c with opened }) f.cursors).map
      (fun c => (c.1, c.2.decl)) = f.cursors.map fun c => (c.1, c.2.decl) := by
    apply map_setNamed
    exact fun _ _ => rfl
  simp only [Frame.declared, cursors]

namespace Interp

variable {it it' : Interp}

/-- An assignment to a variable declares nothing and handles nothing. -/
theorem assignVar_declared {dates : DateFormats} {env : Env} {name : String} {v : Value}
    (assigned : it.assignVar dates env name v = .ok it') :
    it'.frames.map Frame.declared = it.frames.map Frame.declared ∧ it'.handling = it.handling := by
  unfold assignVar at assigned
  split at assigned
  · cases assigned
  · split at assigned
    · cases assigned
    · split at assigned
      · cases assigned
      · split at assigned
        · cases assigned
        · cases assigned
          refine ⟨?_, rfl⟩
          apply declared_setVar
          exact fun _ => ⟨rfl, rfl, rfl⟩

/-- An assignment to a variable, a field or a bind declares nothing and handles nothing. -/
theorem assign_declared {dates : DateFormats} {env : Env} {target : Target} {v : Value}
    (assigned : it.assign dates env target v = .ok it') :
    it'.frames.map Frame.declared = it.frames.map Frame.declared ∧ it'.handling = it.handling := by
  cases target with
  | bind i =>
      cases assigned
      exact ⟨rfl, rfl⟩
  | var name => exact assignVar_declared assigned
  | field record field =>
      simp only [assign] at assigned
      split at assigned
      · cases assigned
      · cases assigned
      · split at assigned
        · cases assigned
        · cases assigned
          refine ⟨?_, rfl⟩
          apply declared_setVar
          exact fun _ => ⟨rfl, rfl, rfl⟩

/-- The variable of a cursor FOR loop takes its rows without being declared again. -/
theorem fillRecord_declared (it : Interp) (name : String) (columns : List String) (row : Row) :
    (it.fillRecord name columns row).frames.map Frame.declared = it.frames.map Frame.declared := by
  refine declared_setVar (fun var => ?_) name it.frames
  cases var.slot <;> exact ⟨rfl, rfl, rfl⟩

end Interp

/-- The actions that push and pop nothing and declare nothing. -/
def Action.Plain {dates : DateFormats} : Action H dates → Prop
  | .initException _ _ | .assign _ _ | .fillRecord _ _ _ | .setCursor _ _ | .rowcount _
  | .setData _ | .setOutput _ => True
  | _ => False

/-- The actions that change the innermost frame. -/
def Action.Declares {dates : DateFormats} : Action H dates → Prop
  | .declare _ _ _ _ | .declareException _ | .declareCursor _ | .declareRoutine _ | .inherit _
  | .counter _ _ | .rowVar _ _ => True
  | _ => False

/-- A plain action changes none of the stacks. -/
theorem Action.Plain.level {a : Action H host.dates} (plain : a.Plain) (s s' : State H)
    (applied : a.apply host s = .ok s') : Level s s' := by
  cases a with
  | assign target v =>
      simp only [Action.apply, Action.onInterp] at applied
      split at applied
      · next it assigned =>
          cases applied
          obtain ⟨frames, handling⟩ := Interp.assign_declared assigned
          exact ⟨frames, handling, rfl, rfl⟩
      · cases applied
  | initException name code =>
      simp only [Action.apply, Action.onInterp] at applied
      by_cases known : (findException s.it.frames name).isSome
      · rw [if_pos known] at applied
        cases applied
        exact ⟨declared_setException name code _, rfl, rfl, rfl⟩
      · rw [if_neg known] at applied
        cases applied
  | fillRecord name columns row =>
      cases applied
      exact ⟨s.it.fillRecord_declared name columns row, rfl, rfl, rfl⟩
  | setCursor name opened =>
      cases applied
      exact ⟨declared_setCursor name opened _, rfl, rfl, rfl⟩
  | rowcount | setData | setOutput =>
      cases applied
      exact ⟨rfl, rfl, rfl, rfl⟩
  | _ => exact plain.elim

/-- A declaration changes the innermost frame only. -/
theorem Action.Declares.levelOutside {a : Action H host.dates} (declares : a.Declares)
    (s s' : State H) (applied : a.apply host s = .ok s') : LevelOutside s s' := by
  have same : ∀ (frames : List Frame) change, (frames.modifyHead change).tail = frames.tail := by
    intro frames change
    cases frames <;> rfl
  cases a with
  | declare name initial constant notNull =>
      simp only [Action.apply, Action.onInterp] at applied
      split at applied
      · next it declared =>
          split at declared
          · cases declared
          · cases declared
            cases applied
            exact ⟨congrArg _ (same _ _), rfl, rfl, rfl⟩
      · cases applied
  | declareException | declareCursor | declareRoutine | inherit | counter | rowVar =>
      cases applied
      exact ⟨congrArg _ (same _ _), rfl, rfl, rfl⟩
  | _ => exact declares.elim

/-! ## What is pushed is popped -/

open Traced (Relates)

/-- The computation leaves the stacks as it found them. -/
abbrev Levels {α : Type} (m : Run host α) : Prop := Relates Level m

section Brackets

variable {α β : Type} {m : Run host α} {rest : Except Exc α → Run host β}

/-- A plain action alone is level. -/
theorem Levels.act {a : Action H host.dates} (plain : a.Plain) : Levels (act a) :=
  .step plain.level

/-- A frame that is pushed is popped again, however what runs in it ends. -/
theorem framed (params : List (String × Σ type, Initial host.dates type))
    (inside : Relates LevelOutside m) (after : ∀ result, Levels (rest result)) :
    Levels (do
      Plsql.act (.pushFrame params)
      let result ← m.attempt
      Plsql.act .popFrame
      rest result) := by
  apply Relates.bracket (fun _ => ⟨_, rfl⟩) (fun _ => ⟨_, rfl⟩) ?_ inside after
  intro a b c d pushed within popped
  cases pushed
  cases popped
  exact ⟨within.frames, within.handling, within.depth, within.callers⟩

/-- An interpreter that is entered is left again, however what it runs ends. -/
theorem entered (binds : List Value) (readOnly : Bool) (inside : Relates LevelBelow m)
    (after : ∀ result, Levels (rest result)) :
    Levels (do
      Plsql.act (.enter binds readOnly)
      let result ← m.attempt
      Plsql.act .leave
      rest result) := by
  apply Relates.bracket (fun _ => ⟨_, rfl⟩) (fun _ => ⟨_, rfl⟩) ?_ inside after
  intro a b c d entered within left
  cases entered
  cases left
  constructor
  · simp only [within.callers, List.headD_cons]
  · simp only [within.callers, List.headD_cons]
  · exact within.depth
  · simp only [within.callers, List.tail_cons]

/-- An exception that starts being handled stops being handled, however its handler ends. -/
theorem handling (exc : Exc) (inside : Levels m) (after : ∀ result, Levels (rest result)) :
    Levels (do
      Plsql.act (.handle exc)
      let result ← m.attempt
      Plsql.act .handled
      rest result) := by
  apply Relates.bracket (fun _ => ⟨_, rfl⟩) (fun _ => ⟨_, rfl⟩) ?_ inside after
  intro a b c d handled within finished
  cases handled
  cases finished
  exact ⟨within.frames, by simp only [within.handling, List.tail_cons], within.depth,
    within.callers⟩

/-- A call that makes the depth greater makes it smaller again, however the call ends. -/
theorem deepened (inside : Levels m) (after : ∀ result, Levels (rest result)) :
    Levels (do
      Plsql.act .deeper
      let result ← m.attempt
      Plsql.act .shallower
      rest result) := by
  apply Relates.bracket (fun _ => ⟨_, rfl⟩) (fun _ => ⟨_, rfl⟩) ?_ inside after
  intro a b c d deeper within shallower
  cases deeper
  cases shallower
  exact ⟨within.frames, within.handling, by simp only [within.depth, Nat.add_sub_cancel],
    within.callers⟩

end Brackets

/-! ## Reading -/

section Reading

variable {α : Type} {Rel : State H → State H → Prop} [IsPreorder (State H) Rel]

/-- Raising an error changes nothing. -/
theorem raiseError_relates (e : OraError) : Relates Rel (raiseError e : Run host α) := .fail _

/-- An outcome that is passed on changes nothing. -/
theorem orRaise_relates (result : Except OraError α) : Relates Rel (orRaise result : Run host α) := by
  cases result with
  | ok a => exact .pure a
  | error e => exact .fail _

/-- Reading the interpreter changes nothing. -/
theorem interp_relates : Relates Rel (interp : Run host Interp) := .map _ .read

/-- Looking up a routine changes nothing. -/
theorem routineNamed_relates (name : String) :
    Relates Rel (routineNamed name : Run host (Option Routine)) := .map _ .read

/-- Looking for calls in an expression changes nothing. -/
theorem hasCall_relates (e : Expr) : Relates Rel (hasCall e : Run host Bool) :=
  .bind .read fun _ => .pure _

/-- Comparing two values changes nothing. -/
theorem equal_relates (a b : Value) : Relates Rel (equal host a b) :=
  .bind .read fun _ => .bind (orRaise_relates _) fun _ => .pure _

/-- Matching a value against one of DECODE changes nothing. -/
theorem pairHits_relates (v s : Value) : Relates Rel (pairHits host v s) := by
  unfold pairHits
  split
  · exact .pure true
  · exact equal_relates v s

/-- Resolving a declared type changes nothing. -/
theorem varType_relates (type : TypeRef) : Relates Rel (varType host type) :=
  .bind .read fun _ => orRaise_relates _

/-- Converting a value changes nothing. -/
theorem convertTo_relates (type : VarType) (v : Value) : Relates Rel (convertTo host type v) :=
  .bind .read fun _ => orRaise_relates _

/-- Looking up a cursor changes nothing. -/
theorem cursorNamed_relates (name : String) : Relates Rel (cursorNamed host name) := by
  refine .bind interp_relates fun it => ?_
  cases findCursor it.frames name with
  | some c => exact .pure c
  | none => exact raiseError_relates _

end Reading

/-! ## Expressions -/

/-- The functions of an interpreter leave the stacks as they found them. -/
structure Calls.Disciplined (calls : Calls host) : Prop where
  eval : ∀ e, Levels (calls.eval e)
  evalBool : ∀ e, Levels (calls.evalBool e)
  resolveCalls : ∀ e, Levels (calls.resolveCalls e)
  call : ∀ r args, Levels (calls.call r args)
  invoke : ∀ r args, Levels (calls.invoke r args)
  statements : ∀ body, Levels (calls.statements body)
  block : ∀ b, Levels (calls.block b)

variable {self : Calls host} (level : self.Disciplined)

include level

/-- A function that SQL calls leaves the interpreter it has entered. -/
theorem callFunction_levels (r : Routine) (args : List Value) :
    Levels (callFunction host self r args) := by
  unfold callFunction
  split
  · exact .pure _
  · split
    · exact .pure _
    · refine entered [] true ((level.invoke r _).mono fun _ _ => Level.below) fun result => ?_
      exact .pure _

/-- SQL is level, with all the functions that it calls. -/
theorem runSql_levels {α : Type} (run : SqlRun H α) : Levels (runSql host self run) := by
  induction run with
  | done result data => exact .bind (Levels.act trivial) fun _ => .pure _
  | call r args data resume ih =>
      refine .bind (Levels.act trivial) fun _ => ?_
      exact .bind (callFunction_levels level r args) fun result => .bind .read fun s => ih _ _

/-- Evaluating what is left to SQL is level. -/
theorem sqlEval_levels (e : Expr) : Levels (sqlEval host self e) := by
  refine .bind .read fun s => .bind (runSql_levels level _) fun result => ?_
  cases result with
  | ok v => exact .pure v
  | error e => exact raiseError_relates _

/-- Evaluating a condition that is left to SQL is level. -/
theorem sqlEvalBool_levels (e : Expr) : Levels (sqlEvalBool host self e) := by
  refine .bind .read fun s => .bind (runSql_levels level _) fun result => ?_
  cases result with
  | ok b => exact .pure b
  | error e => exact raiseError_relates _

/-- Executing a SQL statement is level. -/
theorem execute_levels (stmt : Statement) (binds : List Value) (vars : Option VarLookup) :
    Levels (execute host self stmt binds vars) := by
  refine .bind .read fun s => ?_
  split
  · exact .bind (runSql_levels level _) fun _ => orRaise_relates _
  · exact raiseError_relates _
  · exact .bind (runSql_levels level _) fun _ => orRaise_relates _

/-- A SQL statement of a block is level. -/
theorem runStatement_levels (stmt : Statement) : Levels (runStatement host self stmt) :=
  .bind interp_relates fun _ => execute_levels level _ _ _

omit level in
/-- AND is level if its operands are. -/
theorem both_levels {left right : Run host (Option Bool)} (one : Levels left) (two : Levels right) :
    Levels (both host left right) := by
  refine .bind one fun l => ?_
  split
  · exact .pure _
  · refine .bind two fun r => ?_
    split <;> exact .pure _

omit level in
/-- OR is level if its operands are. -/
theorem either_levels {left right : Run host (Option Bool)} (one : Levels left)
    (two : Levels right) : Levels (either host left right) := by
  refine .bind one fun l => ?_
  split
  · exact .pure _
  · refine .bind two fun r => ?_
    split <;> exact .pure _

/-- Matching a WHEN of CASE is level. -/
theorem whenHits_levels (subject : Option Value) (when_ : Expr) :
    Levels (whenHits host self subject when_) := by
  cases subject with
  | some s => exact .bind (level.eval _) fun _ => equal_relates _ _
  | none => exact .map _ (level.evalBool _)

/-- The branches of CASE are level. -/
theorem lazyWhens_levels (subject : Option Value) (else_ : Option Expr)
    (whens : List (Expr × Expr)) : Levels (lazyWhens host self subject else_ whens) := by
  induction whens with
  | nil =>
      cases else_ with
      | some e => exact level.eval e
      | none => exact .pure _
  | cons branch rest ih =>
      refine .bind (whenHits_levels level _ _) fun hit => ?_
      split
      · exact level.eval _
      · exact ih

/-- NVL and COALESCE are level. -/
theorem firstNonNull_levels (args : List Expr) : Levels (firstNonNull host self args) := by
  induction args with
  | nil => exact .pure _
  | cons a rest ih =>
      refine .bind (level.eval a) fun v => ?_
      split
      · exact .pure _
      · exact ih

/-- The pairs of DECODE are level. -/
theorem lazyPairs_levels (v : Value) (pairs : List Expr) :
    Levels (lazyPairs host self v pairs) := by
  induction pairs using lazyPairs.induct with
  | case1 search result rest ih =>
      refine .bind (level.eval search) fun s => .bind (pairHits_relates _ _) fun hit => ?_
      split
      · exact level.eval result
      · exact ih
  | case2 default => exact level.eval default
  | case3 => exact .pure _

/-- An optional expression is level. -/
theorem evalOption_levels (e : Option Expr) : Levels (evalOption host self e) := by
  cases e with
  | some e => exact .map _ (level.eval e)
  | none => exact .pure _

/-- The functions with lazy arguments are level. -/
theorem lazyFunction_levels (name : String) (args : List Expr) :
    Levels (lazyFunction host self name args) := by
  unfold lazyFunction
  split
  · exact .map _ (firstNonNull_levels level args)
  · split
    · split
      · refine .bind (level.eval _) fun v => ?_
        split <;> exact .map _ (level.eval _)
      · exact .pure _
    · split
      · split
        · exact .bind (level.eval _) fun v => .map _ (lazyPairs_levels level v _)
        · exact .pure _
      · exact .pure _

/-- Lazy evaluation is level. -/
theorem evalLazy_levels (e : Expr) : Levels (evalLazy host self e) := by
  unfold evalLazy
  split
  · exact .map _ (level.evalBool _)
  · exact .map _ (level.evalBool _)
  · exact .bind (evalOption_levels level _) fun subject =>
      .map _ (lazyWhens_levels level subject _ _)
  · refine .bind (routineNamed_relates _) fun r => ?_
    split
    · exact .pure _
    · exact lazyFunction_levels level _ _
  · exact .pure _

/-- Resolving the calls of a list of expressions is level. -/
theorem resolveAll_levels (es : List Expr) : Levels (resolveAll host self es) := by
  induction es with
  | nil => exact .pure _
  | cons e rest ih => exact .bind (level.resolveCalls e) fun _ => .map _ ih

/-- Resolving the calls of an optional expression is level. -/
theorem resolveOption_levels (e : Option Expr) : Levels (resolveOption host self e) := by
  cases e with
  | none => exact .pure _
  | some e => exact .map _ (level.resolveCalls e)

/-- Resolving the calls of CASE branches is level. -/
theorem resolveWhens_levels (whens : List (Expr × Expr)) :
    Levels (resolveWhens host self whens) := by
  induction whens with
  | nil => exact .pure _
  | cons branch rest ih =>
      exact .bind (level.resolveCalls _) fun _ => .bind (level.resolveCalls _) fun _ => .map _ ih

/-- Resolving the calls of operands is level. -/
theorem resolveOperands_levels (e : Expr) : Levels (resolveOperands host self e) := by
  have calls := level.resolveCalls
  have all := resolveAll_levels level
  have option := resolveOption_levels level
  unfold resolveOperands
  split
  · refine .bind (routineNamed_relates _) fun r => ?_
    split
    · exact .map _ (level.call _ _)
    · exact .pure _
  · refine .bind (routineNamed_relates _) fun r => ?_
    split
    · exact .bind (all _) fun _ => .map _ (level.call _ _)
    · exact .map _ (all _)
  · exact .map _ (calls _)
  · exact .map _ (calls _)
  · exact .bind (calls _) fun _ => .map _ (calls _)
  · exact .map _ (calls _)
  · exact .bind (calls _) fun _ => .bind (calls _) fun _ => .map _ (calls _)
  · exact .bind (calls _) fun _ => .map _ (all _)
  · exact .bind (calls _) fun _ => .bind (calls _) fun _ => .map _ (option _)
  · exact .bind (option _) fun _ => .bind (resolveWhens_levels level _) fun _ => .map _ (option _)
  · exact .pure _

/-- Resolving the calls of an expression is level. -/
theorem resolveCalls_levels (e : Expr) : Levels (resolveCalls host self e) := by
  refine .bind (hasCall_relates e) fun calls => ?_
  split
  · exact .pure _
  · refine .bind (evalLazy_levels level e) fun v => ?_
    cases v with
    | some v => exact .pure _
    | none => exact resolveOperands_levels level e

/-- Evaluating an expression is level. -/
theorem eval_levels (e : Expr) : Levels (eval host self e) :=
  .bind (level.resolveCalls e) fun e => sqlEval_levels level e

/-- Evaluating a condition is level. -/
theorem evalBool_levels (e : Expr) : Levels (evalBool host self e) := by
  refine .bind (hasCall_relates e) fun calls => ?_
  split
  · exact both_levels (level.evalBool _) (level.evalBool _)
  · exact either_levels (level.evalBool _) (level.evalBool _)
  · exact .map _ (level.evalBool _)
  · exact .bind (level.resolveCalls _) fun e => sqlEvalBool_levels level e

/-- Evaluating an integer is level. -/
theorem evalInt_levels (e : Expr) : Levels (evalInt host self e) :=
  .bind (level.eval e) fun _ => orRaise_relates _

/-- Evaluating a list of expressions is level. -/
theorem evalAll_levels (es : List Expr) : Levels (evalAll host self es) := by
  induction es with
  | nil => exact .pure _
  | cons e rest ih => exact .bind (level.eval e) fun _ => .map _ ih

/-! ## Declarations and assignments -/

/-- Declaring a variable changes the innermost frame only. -/
theorem declareVar_relates (v : VarDecl) : Relates LevelOutside (declareVar host self v) := by
  refine .bind (varType_relates _) fun resolved => ?_
  split
  · exact .step (Action.Declares.levelOutside trivial)
  · refine .bind ((level.eval _).mono fun _ _ => Level.outside) fun value => ?_
    refine .bind (convertTo_relates _ _) fun converted => ?_
    exact .step (Action.Declares.levelOutside trivial)

/-- The declarations of a block change the innermost frame only. -/
theorem declareAll_relates (decls : List Decl) :
    Relates LevelOutside (declareAll host self decls) := by
  induction decls with
  | nil => exact .pure _
  | cons d rest ih =>
      refine .bind ?_ fun _ => ih
      cases d with
      | var v => exact declareVar_relates level v
      | exceptionInit name code =>
          exact Relates.mono (Levels.act trivial) fun _ _ => Level.outside
      | exception | cursor | routine => exact .step (Action.Declares.levelOutside trivial)

omit level in
/-- Assigning the OUT arguments of a call is level. -/
theorem assignAll_levels (assigned : List (Target × Value)) : Levels (assignAll host assigned) := by
  induction assigned with
  | nil => exact .pure _
  | cons entry rest ih => exact .bind (Levels.act trivial) fun _ => ih

omit level in
/-- Assigning the columns of a row is level. -/
theorem assignColumns_levels (targets : List Target) (row : Row) :
    Levels (assignColumns host targets row) := by
  unfold assignColumns
  split
  · exact raiseError_relates _
  · split
    · exact raiseError_relates _
    · exact assignAll_levels _

omit level in
/-- Assigning a row to variables or to a record is level. -/
theorem assignRow_levels (targets : List Target) (columns : List String) (row : Row) :
    Levels (assignRow host targets columns row) := by
  unfold assignRow
  split
  · refine .bind interp_relates fun it => ?_
    split
    · exact Levels.act trivial
    · exact assignColumns_levels _ _
  · exact assignColumns_levels _ _

omit level in
/-- RETURNING INTO is level. -/
theorem assignReturning_levels (into : List Expr) (rows : List Row) :
    Levels (assignReturning host into rows) := by
  have assigns : ∀ returned, Levels (assignReturned host returned) := by
    intro returned
    induction returned with
    | nil => exact .pure _
    | cons entry rest ih =>
        exact .bind (orRaise_relates _) fun _ => .bind (Levels.act trivial) fun _ => ih
  unfold assignReturning
  split
  · exact raiseError_relates _
  · exact assigns _

/-! ## Cursors -/

/-- Evaluating an argument of a cursor is level. -/
theorem cursorArg_levels (name : String) (arg default : Option Expr) :
    Levels (cursorArg host self name arg default) := by
  unfold cursorArg
  split
  · exact level.eval _
  · exact level.eval _
  · exact raiseError_relates _

/-- Evaluating the arguments of a cursor is level. -/
theorem cursorParams_levels (name : String) (params : List Param) (args : List Expr) :
    Levels (cursorParams host self name params args) := by
  induction params generalizing args with
  | nil => exact .pure _
  | cons p params ih =>
      refine .bind (cursorArg_levels level _ _ _) fun v => ?_
      refine .bind (varType_relates _) fun resolved => ?_
      exact .bind (convertTo_relates _ _) fun converted => .map _ (ih _)

/-- Opening a cursor is level: its query runs in a frame with its parameters, which is popped. -/
theorem openQuery_levels (name : String) (args : List Expr) :
    Levels (openQuery host self name args) := by
  refine .bind (cursorNamed_relates name) fun c => ?_
  split
  · exact raiseError_relates _
  · refine .bind (cursorParams_levels level _ _ _) fun params => ?_
    refine framed params ((runStatement_levels level _).mono fun _ _ => Level.outside) fun o => ?_
    exact .bind (.lift o) fun o => .pure _

omit level in
/-- FETCH is level. -/
theorem fetch_levels (cursor : String) (into : List Target) : Levels (fetch host cursor into) := by
  refine .bind (cursorNamed_relates cursor) fun c => ?_
  split
  · exact raiseError_relates _
  · split
    · exact Levels.act trivial
    · exact .bind (Levels.act trivial) fun _ => assignRow_levels _ _ _

/-! ## Calls -/

/-- Evaluating an argument of a call is level. -/
theorem passArg_levels (r : Routine) (p : Param) (arg : Option Expr) :
    Levels (passArg host self r p arg) := by
  have passed : ∀ mode e, Levels (passedIn host self mode e) := by
    intro mode e
    unfold passedIn
    split
    · exact level.eval e
    · exact .pure _
  unfold passArg
  split
  · exact .map _ (level.eval _)
  · split
    · exact .map _ (level.eval _)
    · exact raiseError_relates _
  · split
    · exact raiseError_relates _
    · exact .map _ (passed _ _)
  · exact raiseError_relates _

/-- Evaluating the arguments of a call is level. -/
theorem passArgs_levels (r : Routine) (args : List (Param × Option Expr)) :
    Levels (passArgs host self r args) := by
  induction args with
  | nil => exact .pure _
  | cons entry rest ih => exact .bind (passArg_levels level _ _ _) fun _ => .map _ ih

/-- A call of a routine is level. -/
theorem call_levels (r : Routine) (args : List Arg) : Levels (call host self r args) := by
  refine .bind (orRaise_relates _) fun slots => ?_
  refine .bind (passArgs_levels level _ _) fun values => ?_
  refine .bind (level.invoke _ _) fun result => ?_
  exact .bind (assignAll_levels _) fun _ => .pure _

omit level in
/-- Declaring a parameter changes the innermost frame only. -/
theorem declareParam_relates (p : Param) (value : Value) (constant : Bool) :
    Relates LevelOutside (declareParam host p value constant) := by
  refine .bind (varType_relates _) fun resolved => ?_
  split
  · exact .bind (convertTo_relates _ _) fun _ => .step (Action.Declares.levelOutside trivial)
  · exact .step (Action.Declares.levelOutside trivial)

omit level in
/-- Declaring the parameters of a routine changes the innermost frame only. -/
theorem declareParams_relates (args : List (Param × ArgValue)) :
    Relates LevelOutside (declareParams host args) := by
  induction args with
  | nil => exact .pure _
  | cons entry rest ih =>
      obtain ⟨p, v | ⟨target, v⟩⟩ := entry
      · exact .bind (declareParam_relates _ _ _) fun _ => ih
      · exact .bind (declareParam_relates _ _ _) fun _ => .map _ ih

omit level in
/-- Returning from a routine is level. -/
theorem returned_levels (r : Routine) (flow : Flow) : Levels (returned host r flow) := by
  unfold returned
  split
  · exact .bind (varType_relates _) fun _ => .bind (convertTo_relates _ _) fun _ => .pure _
  · exact raiseError_relates _
  · exact .pure _

/-- A routine runs in frames of its own: only the depth and the callers are as before. -/
theorem invoked_relates (outer : Interp) (r : Routine) (args : List ArgValue) :
    Relates LevelBelow (invoked host self outer r args) := by
  have pushed : Relates LevelBelow (act (.pushFrame []) : Run host Unit) := by
    apply Relates.step
    intro s s' applied
    cases applied
    exact ⟨rfl, rfl⟩
  refine .bind pushed fun _ => ?_
  have inherits : Relates LevelOutside
      (act (.inherit (outer.frames.flatMap (·.routines))) : Run host Unit) :=
    .step (Action.Declares.levelOutside trivial)
  refine .bind (inherits.mono fun _ _ => LevelOutside.below) fun _ => ?_
  refine .bind ((declareParams_relates _).mono fun _ _ => LevelOutside.below) fun outs => ?_
  refine .bind ((level.block _).mono fun _ _ => Level.below) fun flow => ?_
  refine .bind ((returned_levels r flow).mono fun _ _ => Level.below) fun result => ?_
  exact .bind interp_relates fun it => .pure _

/-- Running a routine restores the frames of its caller. -/
theorem invokeInner_levels (r : Routine) (args : List ArgValue) :
    Levels (invokeInner host self r args) := by
  refine .bind interp_relates fun outer => ?_
  exact entered [] outer.readOnly (invoked_relates level outer r args) fun result => .lift result

/-- Running a routine, one level deeper, is level. -/
theorem invoke_levels (r : Routine) (args : List ArgValue) : Levels (invoke host self r args) := by
  refine .bind .read fun s => ?_
  split
  · exact raiseError_relates _
  · exact deepened (invokeInner_levels level r args) fun result => .lift result

/-! ## Built-in procedures -/

omit level in
/-- DBMS_OUTPUT is level. -/
theorem putText_levels (text : String) (endLine : Bool) : Levels (putText host text endLine) :=
  .bind .read fun _ => .bind (Levels.act trivial) fun _ => orRaise_relates _

/-- PUT and PUT_LINE are level. -/
theorem putLine_levels (endLine : Bool) (arg : Option Expr) :
    Levels (putLine host self endLine arg) := by
  cases arg with
  | some e => exact .bind (level.eval e) fun _ => .bind .read fun _ => putText_levels _ _
  | none => exact putText_levels _ _

/-- RAISE_APPLICATION_ERROR is level. -/
theorem raiseApplicationError_levels (code message : Expr) :
    Levels (raiseApplicationError host self code message) := by
  refine .bind (evalInt_levels level code) fun code => .bind (level.eval message) fun message => ?_
  split <;> exact raiseError_relates _

omit level in
/-- GET_LINE is level. -/
theorem getLine_levels (args : List Expr) : Levels (getLine host args) := by
  refine .bind (orRaise_relates _) fun targets => ?_
  split
  · refine .bind .read fun s => ?_
    refine .bind (Levels.act trivial) fun _ => ?_
    exact .bind (Levels.act trivial) fun _ => Levels.act trivial
  · exact raiseError_relates _

/-- Every built-in procedure is level. -/
theorem builtinNamed_levels {name : String} {args : List Expr} {run : Run host Unit}
    (known : builtinNamed host self name args = some run) : Levels run := by
  have put := putLine_levels level
  unfold builtinNamed at known
  split_ifs at known <;> cases known
  · split
    · exact raiseApplicationError_levels level _ _
    · exact raiseError_relates _
  · exact put _ _
  · exact put _ _
  · exact putText_levels _ _
  · exact .bind .read fun _ => Levels.act trivial
  · exact Levels.act trivial
  · exact getLine_levels _
  · exact .bind (evalAll_levels level _) fun _ => .pure _
  · exact .pure _

/-- A call of a built-in procedure is level. -/
theorem builtin_levels (name : String) (args : List Arg) :
    Levels (builtin host self name args) := by
  unfold builtin
  split
  · next known => exact .bind (builtinNamed_levels level known) fun _ => .pure _
  · exact .pure _

/-- A procedure call is level. -/
theorem callStatement_levels (name : String) (args : List Arg) :
    Levels (callStatement host self name args) := by
  refine .bind (builtin_levels level name args) fun done => ?_
  split
  · exact .pure _
  · refine .bind (routineNamed_relates name) fun r => ?_
    split
    · exact raiseError_relates _
    · split
      · exact raiseError_relates _
      · exact .bind (level.call _ _) fun _ => .pure _

/-! ## SQL statements -/

omit level in
/-- The rows that a statement has changed are counted, and its RETURNING values assigned. -/
theorem changedRows_levels (stmt : Statement) (o : Outcome) : Levels (do
    act (.rowcount o.rowsAffected)
    match returningInto stmt with
    | some into => assignReturning host into o.rows
    | none => return ()) := by
  refine .bind (Levels.act trivial) fun _ => ?_
  split
  · exact assignReturning_levels _ _
  · exact .pure _

/-- A SQL statement with its INTO is level. -/
theorem sqlStatement_levels (stmt : Statement) (into : List Target) :
    Levels (sqlStatement host self stmt into) := by
  refine .bind (runStatement_levels level stmt) fun o => ?_
  split
  · refine .bind (Levels.act trivial) fun _ => .bind (orRaise_relates _) fun row => ?_
    exact assignRow_levels _ _ _
  · exact changedRows_levels _ o
  · exact changedRows_levels _ o
  · exact changedRows_levels _ o
  · exact .pure _

/-- A dynamic block is level: it runs in an interpreter of its own. -/
theorem dynamicBlock_levels (b : Block) (binds : List Value) :
    Levels (dynamicBlock host self b binds) := by
  refine .bind interp_relates fun it => ?_
  refine entered binds it.readOnly ((level.block b).mono fun _ _ => Level.below) fun result => ?_
  exact .bind (.lift result) fun _ => .pure _

/-- A dynamic SQL statement is level. -/
theorem dynamicSql_levels (stmt : Statement) (binds : List Value) (into : List Target) :
    Levels (dynamicSql host self stmt binds into) := by
  refine .bind (execute_levels level _ _ _) fun o => ?_
  split
  · split
    · exact Levels.act trivial
    · refine .bind (orRaise_relates _) fun row => ?_
      exact .bind (Levels.act trivial) fun _ => assignRow_levels _ _ _
  · exact Levels.act trivial
  · exact Levels.act trivial
  · exact Levels.act trivial
  · exact Levels.act trivial

/-- EXECUTE IMMEDIATE is level. -/
theorem executeImmediate_levels (sql : Expr) (into : List Target) (using_ : List Expr) :
    Levels (executeImmediate host self sql into using_) := by
  refine .bind (level.eval sql) fun v => ?_
  split
  · exact raiseError_relates _
  · refine .bind (evalAll_levels level _) fun binds => ?_
    refine .bind (orRaise_relates _) fun parsed => ?_
    split
    split
    · exact raiseError_relates _
    · split
      · exact dynamicBlock_levels level _ _
      · exact dynamicSql_levels level _ _ _

/-! ## Loops -/

/-- An iteration of a loop is level, whether it goes on, exits or returns. -/
theorem loopIteration_levels (label : Option String) (body : List Stmt) :
    Levels (loopIteration host self label body) := by
  refine .bind (level.statements body) fun flow => ?_
  cases flow <;> exact .pure _

omit level in
/-- A loop over integers keeps what its iterations keep. -/
theorem countLoop_relates {Rel : State H → State H → Prop} [IsPreorder (State H) Rel]
    {iterate : Int → Run host (Option Flow)} (iterates : ∀ i, Relates Rel (iterate i)) (lo hi : Int)
    (reverse : Bool) (i : Int) : Relates Rel (countLoop iterate lo hi reverse i) := by
  induction i using countLoop.induct lo hi reverse with
  | case1 i within ih =>
      rw [countLoop, dif_pos within]
      refine .bind (iterates i) fun flow => ?_
      cases flow with
      | some flow => exact .pure _
      | none =>
          dsimp only
          split
          · next next counted => exact ih next counted
          · exact .panic
  | case2 i outside =>
      rw [countLoop, dif_neg outside]
      exact .pure _

/-- An integer FOR loop pops the frame of its counter, however it ends. -/
theorem forRange_levels (label : Option String) (var : String) (reverse : Bool) (lo hi : Int)
    (body : List Stmt) : Levels (forRange host self label var reverse lo hi body) := by
  refine framed [] ?_ fun result => .lift result
  apply countLoop_relates
  intro i
  refine .bind (.step (Action.Declares.levelOutside trivial)) fun _ => ?_
  exact (loopIteration_levels level label body).mono fun _ _ => Level.outside

/-- The loop over the rows of a cursor changes the frame of its variable only. -/
theorem rowLoop_relates (label : Option String) (var : String) (columns : List String)
    (body : List Stmt) (rows : List Row) :
    Relates LevelOutside (rowLoop host self label var columns body rows) := by
  induction rows with
  | nil => exact .pure _
  | cons row rest ih =>
      refine .bind (.step (Action.Declares.levelOutside trivial)) fun _ => ?_
      refine .bind ((loopIteration_levels level label body).mono fun _ _ => Level.outside) ?_
      intro flow
      cases flow with
      | some flow => exact .pure _
      | none => exact ih

/-- A cursor FOR loop pops the frame of its variable, however it ends. -/
theorem forCursor_levels (label : Option String) (var : String) (source : CursorSource)
    (body : List Stmt) : Levels (forCursor host self label var source body) := by
  have rows : Levels (cursorRows host self source) := by
    cases source with
    | query q => exact .bind (runStatement_levels level _) fun _ => .pure _
    | named name args => exact .bind (openQuery_levels level _ _) fun _ => .pure _
  refine .bind rows fun (columns, rows) => ?_
  exact framed [] (rowLoop_relates level label var columns body rows) fun result => .lift result

/-! ## Statements -/

/-- IF is level. -/
theorem ifBranches_levels (else_ : Option (List Stmt)) (branches : List (Expr × List Stmt)) :
    Levels (ifBranches host self else_ branches) := by
  induction branches with
  | nil =>
      cases else_ with
      | some body => exact level.statements body
      | none => exact .pure _
  | cons branch rest ih =>
      refine .bind (level.evalBool _) fun b => ?_
      split
      · exact level.statements _
      · exact ih

/-- CASE is level. -/
theorem caseBranches_levels (subject : Option Value) (else_ : Option (List Stmt))
    (whens : List (Expr × List Stmt)) : Levels (caseBranches host self subject else_ whens) := by
  induction whens with
  | nil =>
      cases else_ with
      | some body => exact level.statements body
      | none => exact raiseError_relates _
  | cons branch rest ih =>
      refine .bind (whenHits_levels level _ _) fun hit => ?_
      split
      · exact level.statements _
      · exact ih

/-- The condition of EXIT and CONTINUE is level. -/
theorem goes_levels (when_ : Option Expr) : Levels (goes host self when_) := by
  cases when_ with
  | some c => exact .map _ (level.evalBool c)
  | none => exact .pure _

/-- Every statement is level. -/
theorem statement_levels (s : Stmt) : Levels (statement host self s) := by
  cases s with
  | null => exact .pure _
  | assign target value =>
      exact .bind (level.eval value) fun _ => .bind (Levels.act trivial) fun _ => .pure _
  | «if» branches else_ => exact ifBranches_levels level else_ branches
  | case operand whens else_ =>
      exact .bind (evalOption_levels level operand) fun subject =>
        caseBranches_levels level subject else_ whens
  | loop label body =>
      refine .bind (loopIteration_levels level label body) fun flow => ?_
      cases flow with
      | some flow => exact .pure _
      | none => exact level.statements _
  | «while» label cond body =>
      refine .bind (level.evalBool cond) fun b => ?_
      split
      · refine .bind (loopIteration_levels level label body) fun flow => ?_
        cases flow with
        | some flow => exact .pure _
        | none => exact level.statements _
      · exact .pure _
  | forRange label var reverse low high body =>
      refine .bind (evalInt_levels level low) fun lo => .bind (evalInt_levels level high) ?_
      exact fun hi => forRange_levels level label var reverse lo hi body
  | forCursor label var source body => exact forCursor_levels level label var source body
  | exit | «continue» => exact .bind (goes_levels level _) fun _ => .pure _
  | «return» e => exact .bind (evalOption_levels level e) fun _ => .pure _
  | raise name =>
      cases name with
      | none =>
          refine .bind interp_relates fun it => ?_
          split
          · exact .fail _
          · exact raiseError_relates _
      | some name => exact .bind interp_relates fun it => .fail _
  | sql stmt into => exact .bind (sqlStatement_levels level stmt into) fun _ => .pure _
  | call name args => exact .bind (callStatement_levels level name args) fun _ => .pure _
  | executeImmediate sql into using_ =>
      exact .bind (executeImmediate_levels level sql into using_) fun _ => .pure _
  | «open» cursor args =>
      refine .bind (cursorNamed_relates cursor) fun c => ?_
      split
      · exact raiseError_relates _
      · refine .bind (openQuery_levels level cursor args) fun o => ?_
        refine .bind (cursorNamed_relates cursor) fun _ => ?_
        exact .bind (Levels.act trivial) fun _ => .pure _
  | fetch cursor into => exact .bind (fetch_levels cursor into) fun _ => .pure _
  | close cursor =>
      refine .bind (cursorNamed_relates cursor) fun c => ?_
      split
      · exact raiseError_relates _
      · exact .bind (Levels.act trivial) fun _ => .pure _
  | block b => exact level.block b

/-- A list of statements is level. -/
theorem statements_levels (body : List Stmt) : Levels (statements host self body) := by
  induction body with
  | nil => exact .pure _
  | cons s rest ih =>
      refine .bind (statement_levels level s) fun flow => ?_
      cases flow with
      | normal => exact ih
      | exit | «continue» | «return» => exact .pure _

/-! ## Blocks -/

/-- A handler is level: the exception it handles is not being handled any more when it ends. -/
theorem handle_levels (exc : Exc) (handlers : List Handler) :
    Levels (handle host self exc handlers) := by
  induction handlers with
  | nil => exact .fail _
  | cons h rest ih =>
      obtain ⟨exceptions, body⟩ := h
      refine .bind interp_relates fun it => ?_
      split
      · exact handling exc (level.statements body) fun result => .lift result
      · exact ih

/-- The body of a block is level, with its handlers. -/
theorem blockBody_levels (body : List Stmt) (handlers : List Handler) :
    Levels (blockBody host self body handlers) := by
  refine .bind (.attempt (level.statements body)) fun result => ?_
  cases result with
  | ok flow => exact .pure _
  | error exc => exact handle_levels level exc handlers

/-- A block changes the frame that has been pushed for it only. -/
theorem blockInFrame_relates (b : Block) : Relates LevelOutside (blockInFrame host self b) := by
  obtain ⟨decls, body, handlers⟩ := b
  refine .bind (declareAll_relates level decls) fun _ => ?_
  exact (blockBody_levels level body handlers).mono fun _ _ => Level.outside

/-- A block pops its frame, however it ends. -/
theorem block_levels (b : Block) : Levels (block host self b) :=
  framed [] (blockInFrame_relates level b) fun result => .lift result

omit level in
/-- Whatever the bound on calls, the functions of the interpreter leave the stacks as they found
them. -/
theorem calls_disciplined (n : Nat) : (calls host n).Disciplined := by
  induction n with
  | zero => constructor <;> intros <;> exact .timeout
  | succ n ih =>
      exact {
        eval := eval_levels ih
        evalBool := evalBool_levels ih
        resolveCalls := resolveCalls_levels ih
        call := call_levels ih
        invoke := invoke_levels ih
        statements := statements_levels ih
        block := block_levels ih }

/-! ## Where handlers run -/

/-- Whether one of a handler's names catches an exception. -/
def handles (frames : List Frame) (exc : Exc) : Handler → Bool
  | .mk exceptions _ => exceptions.any fun name => catches frames name exc

/-- The state in which the statements of a handler start. -/
def State.handling (s : State H) (exc : Exc) : State H :=
  { s with it := { s.it with handling := exc :: s.it.handling } }

omit level in
variable (self) in
/-- The statements of a handler, and the end of handling the exception. -/
def handlerRun (body : List Stmt) : Run host Flow := do
  let result ← Traced.attempt (self.statements body)
  act .handled
  Traced.lift result

omit level in
/-- The first handler that catches an exception runs while the exception is being handled. -/
theorem handle_outcome {s : State H} {exc : Exc} {handlers : List Handler}
    {exceptions : List String} {body : List Stmt}
    (first : handlers.find? (handles s.it.frames exc) = some (.mk exceptions body)) :
    (handle host self exc handlers).outcome s = (handlerRun self body).outcome (s.handling exc) := by
  induction handlers with
  | nil => cases first
  | cons h rest ih =>
      obtain ⟨names, stmts⟩ := h
      have read : (interp : Run host Interp).Gives s s.it s := rfl
      rw [handle, read.bind]
      by_cases hit : handles s.it.frames exc (.mk names stmts)
      · rw [List.find?_cons_of_pos hit] at first
        cases first
        have entered : (act (.handle exc) : Run host Unit).Gives s () (s.handling exc) :=
          Traced.outcome_step rfl
        unfold handles at hit
        rw [if_pos hit, entered.bind]
        rfl
      · rw [List.find?_cons_of_neg hit] at first
        unfold handles at hit
        rw [if_neg hit]
        exact ih first

omit level in
/-- When the body of a block fails, its handlers run in the state that it failed in. -/
theorem blockBody_outcome {s s' : State H} {exc : Exc} {body : List Stmt} (handlers : List Handler)
    (failed : (self.statements body).outcome s = (.error exc, s')) :
    (blockBody host self body handlers).outcome s = (handle host self exc handlers).outcome s' := by
  have caught : (Traced.attempt (self.statements body)).Gives s (.error exc) s' :=
    Traced.outcome_attempt_error failed
  rw [blockBody, caught.bind]

omit level in
/-- Every statement, block, opening of a cursor and call of a routine, from PL/SQL or from SQL,
leaves the frames, the exceptions being handled and the depth of calls as it found them, however it
ends. The statements of a handler start with the frames that were there when the block's body
started. -/
theorem stack_discipline (host : Host H) (n : ℕ) :
    (∀ s, Levels (statement host (calls host n) s)) ∧
    (∀ b, Levels (block host (calls host n) b)) ∧
    (∀ name args, Levels (openQuery host (calls host n) name args)) ∧
    (∀ r args, Levels (call host (calls host n) r args)) ∧
    (∀ r args, Levels (invoke host (calls host n) r args)) ∧
    (∀ r args, Levels (callFunction host (calls host n) r args)) ∧
    ∀ body handlers s s' exc, ((calls host n).statements body).outcome s = (.error exc, s') →
      s'.it.frames.map Frame.declared = s.it.frames.map Frame.declared ∧
      ∀ exceptions handler,
        handlers.find? (handles s'.it.frames exc) = some (.mk exceptions handler) →
        (blockBody host (calls host n) body handlers).outcome s =
          (handlerRun (calls host n) handler).outcome (s'.handling exc) := by
  have level : (calls host n).Disciplined := calls_disciplined n
  refine ⟨statement_levels level, block_levels level, openQuery_levels level, call_levels level,
    invoke_levels level, callFunction_levels level, fun body handlers s s' exc failed => ⟨?_, ?_⟩⟩
  · have within := level.statements body s
    have ending : (((calls host n).statements body) s).ending = .error exc :=
      congrArg Prod.fst failed
    have last : (((calls host n).statements body) s).last = s' := congrArg Prod.snd failed
    rw [ending, last] at within
    exact (within trivial).frames
  · intro exceptions handler first
    rw [blockBody_outcome handlers failed, handle_outcome first]

/-- In a block that declares an exception E. -/
def declaresE : State Unit :=
  ⟨(), 0, {}, { binds := [], readOnly := false, frames := [{ exceptions := [("E", none)] }] }, []⟩

/-- `DECLARE X INTEGER; BEGIN BEGIN RAISE E; EXCEPTION WHEN NO_DATA_FOUND THEN NULL; END; EXCEPTION
WHEN TOO_MANY_ROWS THEN NULL; END`. -/
def raisesE : List Stmt :=
  [.block (.mk [.var ⟨"X", .integer, false, false, none⟩]
    [.block (.mk [] [.raise (some "E")] [.mk ["NO_DATA_FOUND"] [.null]])]
    [.mk ["TOO_MANY_ROWS"] [.null]])]

omit level in
/-- E leaves both inner blocks, and the second handler of the outer block catches it, with the frame
of that block only. -/
theorem stack_discipline_handler : ∃ exc s',
    ((calls Host.plain 8).statements raisesE).outcome declaresE = (.error exc, s') ∧
      exc.user = some "E" ∧ s'.it.frames.map Frame.declared = [([], ["E"], [], [])] ∧
      (blockBody Host.plain (calls Host.plain 8) raisesE
          [.mk ["TOO_MANY_ROWS"] [], .mk ["ZERO_DIVIDE", "E"] [.null]]).outcome declaresE =
        (handlerRun (calls Host.plain 8) [.null]).outcome (s'.handling exc) := by
  obtain ⟨exc, s', failed, user, first⟩ : ∃ exc s',
      ((calls Host.plain 8).statements raisesE).outcome declaresE = (.error exc, s') ∧
        exc.user = some "E" ∧
        [Handler.mk ["TOO_MANY_ROWS"] [], .mk ["ZERO_DIVIDE", "E"] [.null]].find?
          (handles s'.it.frames exc) = some (.mk ["ZERO_DIVIDE", "E"] [.null]) := by
    refine ⟨_, _, rfl, ?_, ?_⟩
    · rfl
    · rfl
  obtain ⟨_, _, _, _, _, _, handler⟩ := stack_discipline Host.plain 8
  obtain ⟨frames, caught⟩ := handler raisesE _ declaresE s' exc failed
  exact ⟨exc, s', failed, user, frames, caught _ _ first⟩

end MockOracle.Plsql
