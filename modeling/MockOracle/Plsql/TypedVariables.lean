import MockOracle.Plsql.Statements

/-!
# Variables keep their types

What a step can do to the variables of the frames is said once, in `Touched`. From it follow the two
facts about runs: variables hold what their declarations let them hold for as long as no record is
given NULL as a whole, and a constant stays as it was declared for as long as its frame does.
-/

namespace MockOracle.Plsql

open Semantics

variable {H : Type} {host : Host H}

/-! ## Typed states -/

/-- The variable holds what its declaration lets it hold: a record if it is one, else a value of its
type, which is not NULL if it is NOT NULL. -/
def Var.Typed (dates : DateFormats) (var : Var) : Prop :=
  match var.slot with
  | .record _ => var.type = .record
  | .scalar v => var.type ≠ .record ∧ var.type.Holds dates v ∧ (var.notNull = true → v ≠ .null)

/-- The frames of the interpreter that is running and of those that wait for it, newest first. -/
def State.frames (s : State H) : List Frame := s.it.frames ++ s.callers.flatMap (·.frames)

/-- Every variable holds what its declaration lets it hold. -/
def State.Typed (dates : DateFormats) (s : State H) : Prop :=
  ∀ f ∈ s.frames, ∀ v ∈ f.vars, v.2.Typed dates

/-- The constant holds a single value. Only parameters can be records that may not be assigned. -/
def Var.isConstant (var : Var) : Bool :=
  var.constant && match var.slot with
    | .scalar _ => true
    | .record _ => false

/-- A frame's constants with their values. -/
def Frame.constants (f : Frame) : List (String × Var) := f.vars.filter fun v => v.2.isConstant

/-- The constants of the frame that has `k` older ones. -/
def constantsAt : List Frame → Nat → List (String × Var)
  | [], _ => []
  | f :: older, k => if k = older.length then f.constants else constantsAt older k

/-- The type is a record's, and the value NULL. -/
def Initial.NullRecord {dates : DateFormats} {type : VarType} : Initial dates type → Prop
  | value _ => type = .record
  | record _ => False

/-- The step gives NULL to a record variable as a whole: as the argument of a cursor's parameter,
as its default, or by an assignment. -/
def Action.NullsRecord {dates : DateFormats} (s : State H) : Action H dates → Prop
  | .pushFrame params => ∃ p ∈ params, p.2.2.NullRecord
  | .declare _ initial _ _ => initial.NullRecord
  | .assign (.var name) v => v = .null ∧ ∃ var, findVar s.it.frames name = some var ∧
      var.type = .record ∧ var.constant = false ∧ var.notNull = false
  | _ => False

/-- The step gives a loop another variable. -/
def Action.Renews {dates : DateFormats} : Action H dates → Prop
  | .counter _ _ | .rowVar _ _ => True
  | _ => False

/-! ## Setting a variable -/

/-- One variable is changed. -/
inductive Rewrite (name : String) (var var' : Var) : List Frame → List Frame → Prop where
  | here {f : Frame} {vs ws older} (vars : f.vars = vs ++ (name, var) :: ws) :
      Rewrite name var var' (f :: older) ({ f with vars := vs ++ (name, var') :: ws } :: older)
  | older {f frames frames'} (rewrite : Rewrite name var var' frames frames') :
      Rewrite name var var' (f :: frames) (f :: frames')

/-- A change of one variable is one with more frames behind it. -/
theorem Rewrite.append {name : String} {var var' : Var} {frames frames' : List Frame}
    (rewrite : Rewrite name var var' frames frames') (rest : List Frame) :
    Rewrite name var var' (frames ++ rest) (frames' ++ rest) := by
  induction rewrite with
  | here vars => exact .here vars
  | older _ ih => exact .older ih

/-- Changing a named thing changes it where it is found. -/
theorem setNamed_of_named {α : Type} {name : String} {entries : List (String × α)} {a : α}
    (found : named name entries = some a) (change : α → α) :
    ∃ before after, entries = before ++ (name, a) :: after ∧
      setNamed name change entries = before ++ (name, change a) :: after := by
  induction entries with
  | nil => cases found
  | cons entry rest ih =>
      obtain ⟨other, b⟩ := entry
      by_cases same : other = name
      · subst same
        have is : b = a := by simpa [named] using found
        subst is
        exact ⟨[], rest, rfl, by simp [setNamed]⟩
      · have further : named name rest = some a := by simpa [named, same] using found
        obtain ⟨before, after, split, set⟩ := ih further
        refine ⟨(other, b) :: before, after, by rw [split, List.cons_append], ?_⟩
        rw [setNamed, if_neg same, set, List.cons_append]

/-- Changing a variable that is found changes this variable only. -/
theorem setVar_rewrites {name : String} {frames : List Frame} {var : Var}
    (found : findVar frames name = some var) (change : Var → Var) :
    Rewrite name var (change var) frames (setVar name change frames) := by
  induction frames with
  | nil => cases found
  | cons f rest ih =>
      unfold setVar setFrame
      unfold findVar at found
      rw [List.findSome?_cons] at found
      cases here : named name f.vars with
      | some v =>
          rw [here] at found
          cases found
          obtain ⟨before, after, split, set⟩ := setNamed_of_named here change
          simp only [Option.isSome_some, if_true, set]
          exact .here split
      | none =>
          rw [here] at found
          simp only [Option.isSome_none, Bool.false_eq_true, if_false]
          exact .older (ih found)

/-- Changing a variable that is not there changes nothing. -/
theorem setVar_missing {name : String} {frames : List Frame}
    (missing : findVar frames name = none) (change : Var → Var) :
    setVar name change frames = frames := by
  induction frames with
  | nil => rfl
  | cons f rest ih =>
      unfold findVar at missing
      rw [List.findSome?_cons] at missing
      cases here : named name f.vars with
      | some v =>
          rw [here] at missing
          cases missing
      | none =>
          rw [here] at missing
          unfold setVar setFrame
          simp only [here, Option.isSome_none, Bool.false_eq_true, if_false]
          exact congrArg _ (ih missing)

/-! ## What a step does to variables -/

/-- The frames after a step, as far as their variables are concerned. -/
inductive Touched (s : State H) : Action H host.dates → List Frame → Prop where
  | pushed {params} {f : Frame}
      (vars : f.vars = (params.map fun p => (p.1, p.2.2.var true false)).reverse) :
      Touched s (.pushFrame params) (f :: s.frames)
  | dropped {a frames} (suffix : frames <:+ s.frames) : Touched s a frames
  | declared {name type} {initial : Initial host.dates type} {constant notNull} {f : Frame} {older}
      (frames : s.frames = f :: older) (checked : ¬ (notNull && initial.isNull) = true) :
      Touched s (.declare name initial constant notNull)
        ({ f with vars := (name, initial.var constant notNull) :: f.vars } :: older)
  | renewed {a : Action H host.dates} {v : String × Var} {f : Frame} {older} (renews : a.Renews)
      (frames : s.frames = f :: older) (typed : v.2.Typed host.dates) :
      Touched s a ({ f with vars := [v] } :: older)
  | assigned {name v var frames} {converted : Converted host.dates var.type}
      (found : findVar s.it.frames name = some var) (writable : ¬ var.constant = true)
      (converts : convert host.dates (host.env s.data) var.type v = .ok converted)
      (checked : ¬ (var.notNull && converted.value.isNull) = true)
      (rewrite : Rewrite name var { var with slot := .scalar converted.value } s.frames frames) :
      Touched s (.assign (.var name) v) frames
  | filled {a name type fields fields' constant notNull frames}
      (rewrite : Rewrite name ⟨type, .record fields, constant, notNull⟩
        ⟨type, .record fields', constant, notNull⟩ s.frames frames) : Touched s a frames
  | same {a frames} (vars : frames.map Frame.vars = s.frames.map Frame.vars) : Touched s a frames

/-- Changing a variable to what it was changes nothing. -/
theorem Rewrite.eq {name : String} {var : Var} {frames frames' : List Frame}
    (rewrite : Rewrite name var var frames frames') : frames' = frames := by
  induction rewrite with
  | here vars => rw [← vars]
  | older _ ih => rw [ih]

/-- The frames after a change of the innermost one, if there is one. -/
theorem frames_inFrame (s : State H) (change : Frame → Frame) :
    (∃ f older, s.frames = f :: older ∧
      State.frames { s with it := Action.inFrame change s.it } = change f :: older) ∨
    State.frames { s with it := Action.inFrame change s.it } = s.frames := by
  unfold State.frames Action.inFrame
  cases s.it.frames with
  | nil => exact Or.inr rfl
  | cons f rest => exact Or.inl ⟨f, _, rfl, rfl⟩

/-- A step that changes no variables of the innermost frame touches none. -/
theorem Touched.inFrame {s : State H} {a : Action H host.dates} {change : Frame → Frame}
    (same : ∀ f, (change f).vars = f.vars) :
    Touched s a (State.frames { s with it := Action.inFrame change s.it }) := by
  obtain ⟨f, older, before, after⟩ | unchanged := frames_inFrame s change
  · refine .same ?_
    rw [before, after, List.map_cons, List.map_cons, same]
  · exact .same (congrArg _ unchanged)

/-- A step that gives a loop another variable touches this variable only. -/
theorem Touched.renew {s : State H} {a : Action H host.dates} {v : String × Var}
    (renews : a.Renews) (typed : v.2.Typed host.dates) :
    Touched s a (State.frames
      { s with it := Action.inFrame (fun f => { f with vars := [v] }) s.it }) := by
  obtain ⟨f, older, before, after⟩ | unchanged := frames_inFrame s fun f => { f with vars := [v] }
  · rw [after]
    exact .renewed renews before typed
  · exact .same (congrArg _ unchanged)

/-- Frames with the same variables are not touched. -/
theorem Touched.setFrames {s : State H} {a : Action H host.dates} {frames : List Frame}
    (same : frames.map Frame.vars = s.it.frames.map Frame.vars) :
    Touched s a (State.frames { s with it := { s.it with frames } }) := by
  refine .same ?_
  simp only [State.frames, List.map_append, same]

/-- A row that a record is filled with touches this record only. -/
theorem touched_fillRecord (s : State H) (name : String) (columns : List String) (row : Row) :
    @Touched _ host s (.fillRecord name columns row)
      (State.frames { s with it := s.it.fillRecord name columns row }) := by
  unfold Interp.fillRecord
  cases found : findVar s.it.frames name with
  | none =>
      rw [setVar_missing found]
      exact .same rfl
  | some var =>
      have rewrite := setVar_rewrites found fun var =>
        match var.slot with
        | .record fields => { var with slot := .record (Interp.rowFields fields columns row) }
        | .scalar _ => var
      obtain ⟨type, slot, constant, notNull⟩ := var
      cases slot with
      | scalar v => exact .same (congrArg _ (rewrite.append _).eq)
      | record fields => exact .filled (rewrite.append _)

/-- An assignment touches one variable, which may be assigned to, with a converted value. -/
theorem touched_assign {s : State H} {it : Interp} {target : Target} {v : Value}
    (assigned : s.it.assign host.dates (host.env s.data) target v = .ok it) :
    @Touched _ host s (.assign target v) (State.frames { s with it }) := by
  cases target with
  | bind i =>
      cases assigned
      exact .same rfl
  | var name =>
      simp only [Interp.assign, Interp.assignVar] at assigned
      split at assigned
      · cases assigned
      · next var found =>
          split at assigned
          · cases assigned
          · next writable =>
              split at assigned
              · cases assigned
              · next converted converts =>
                  split at assigned
                  · cases assigned
                  · next checked =>
                      cases assigned
                      have rewrite := setVar_rewrites found
                        fun var => { var with slot := .scalar converted.value }
                      exact .assigned found writable converts checked (rewrite.append _)
  | field record field =>
      simp only [Interp.assign] at assigned
      split at assigned
      · cases assigned
      · cases assigned
      · next type fields constant notNull found =>
          split at assigned
          · cases assigned
          · next fields' filled =>
              cases assigned
              have rewrite := setVar_rewrites found fun var => { var with slot := .record fields' }
              exact .filled (rewrite.append _)

/-- What a step does to the variables of all frames. -/
theorem touched {s s' : State H} {a : Action H host.dates} (applied : a.apply host s = .ok s') :
    Touched s a s'.frames := by
  cases a with
  | pushFrame params =>
      cases applied
      exact .pushed rfl
  | popFrame =>
      cases applied
      refine .dropped ?_
      unfold State.frames
      cases s.it.frames with
      | nil => exact List.suffix_rfl
      | cons f rest => exact List.suffix_cons f _
  | declare name initial constant notNull =>
      simp only [Action.apply, Action.onInterp] at applied
      split at applied
      · next it declared =>
          split at declared
          · cases declared
          · next checked =>
              cases declared
              cases applied
              obtain ⟨f, older, before, after⟩ | unchanged := frames_inFrame s
                fun f => { f with vars := (name, initial.var constant notNull) :: f.vars }
              · rw [after]
                exact .declared before checked
              · exact .same (congrArg _ unchanged)
      · cases applied
  | declareException | declareCursor | declareRoutine | inherit =>
      cases applied
      exact .inFrame fun _ => rfl
  | initException name code =>
      simp only [Action.apply, Action.onInterp] at applied
      by_cases known : (findException s.it.frames name).isSome
      · rw [if_pos known] at applied
        cases applied
        refine .setFrames (map_setFrame (fun f => ?_) name s.it.frames)
        rfl
      · rw [if_neg known] at applied
        cases applied
  | counter name i =>
      cases applied
      refine .renew trivial ⟨fun record => ?_, (Converted.int i).holds, fun _ null => ?_⟩
      · cases record
      · cases null
  | rowVar name fields =>
      cases applied
      exact .renew trivial rfl
  | assign target v =>
      simp only [Action.apply, Action.onInterp] at applied
      split at applied
      · next it assigned =>
          cases applied
          exact touched_assign assigned
      · cases applied
  | fillRecord name columns row =>
      cases applied
      exact touched_fillRecord s name columns row
  | setCursor name opened =>
      cases applied
      refine .setFrames (map_setFrame (fun f => ?_) name s.it.frames)
      rfl
  | leave =>
      cases applied
      refine .dropped ?_
      unfold State.frames
      cases s.callers with
      | nil => exact List.suffix_rfl
      | cons caller callers => exact List.suffix_append _ _
  | handle | handled | rowcount | enter | deeper | shallower | setData | setOutput =>
      cases applied
      exact .same rfl

/-! ## Types are kept -/

/-- A variable is declared with what its declaration lets it hold, unless a record is given NULL. -/
theorem Initial.typed {dates : DateFormats} {type : VarType} {initial : Initial dates type}
    {constant notNull : Bool} (record : ¬ initial.NullRecord)
    (checked : ¬ (notNull && initial.isNull) = true) :
    (initial.var constant notNull).Typed dates := by
  cases initial with
  | record fields => rfl
  | value v =>
      refine ⟨record, v.holds, fun required null => checked ?_⟩
      have required : notNull = true := required
      have isNull : v.value.isNull = true := by rw [null, Value.isNull_null]
      simp only [required, Initial.isNull, isNull, Bool.and_self]

/-- Frames stay typed when the variable that is changed does. -/
theorem Rewrite.typed {dates : DateFormats} {name : String} {var var' : Var}
    {frames frames' : List Frame} (rewrite : Rewrite name var var' frames frames')
    (typed : ∀ f ∈ frames, ∀ v ∈ f.vars, v.2.Typed dates)
    (changed : var.Typed dates → var'.Typed dates) : ∀ f ∈ frames', ∀ v ∈ f.vars, v.2.Typed dates := by
  induction rewrite with
  | here vars =>
      rw [List.forall_mem_cons] at typed ⊢
      refine ⟨?_, typed.2⟩
      have here := typed.1
      rw [vars, List.forall_mem_append, List.forall_mem_cons] at here
      rw [List.forall_mem_append, List.forall_mem_cons]
      exact ⟨here.1, changed here.2.1, here.2.2⟩
  | older _ ih =>
      rw [List.forall_mem_cons] at typed ⊢
      exact ⟨typed.1, ih typed.2⟩

/-- Frames with the same variables stay typed. -/
theorem typed_map_vars {dates : DateFormats} {frames frames' : List Frame}
    (same : frames'.map Frame.vars = frames.map Frame.vars)
    (typed : ∀ f ∈ frames, ∀ v ∈ f.vars, v.2.Typed dates) :
    ∀ f ∈ frames', ∀ v ∈ f.vars, v.2.Typed dates := by
  intro f member
  have vars : f.vars ∈ frames.map Frame.vars := by
    rw [← same]
    exact List.mem_map_of_mem member
  obtain ⟨f', member', equal⟩ := List.mem_map.mp vars
  rw [← equal]
  exact typed f' member'

/-- A conversion for a record gives NULL only. -/
theorem null_of_convert_record {dates : DateFormats} {env : Env} {v : Value}
    {converted : Converted dates .record} (converts : convert dates env .record v = .ok converted) :
    v = .null := by
  cases v with
  | null => rfl
  | _ => cases converts

/-- A step that gives no record NULL as a whole keeps variables typed. -/
theorem Touched.typed {s s' : State H} {a : Action H host.dates}
    (touched : Touched s a s'.frames) (careful : ¬ a.NullsRecord s) (typed : s.Typed host.dates) :
    s'.Typed host.dates := by
  unfold State.Typed at typed ⊢
  generalize s'.frames = frames at touched
  cases touched with
  | pushed vars =>
      rw [List.forall_mem_cons]
      refine ⟨fun v member => ?_, typed⟩
      rw [vars, List.mem_reverse, List.mem_map] at member
      obtain ⟨p, member, rfl⟩ := member
      exact Initial.typed (fun record => careful ⟨p, member, record⟩) Bool.false_ne_true
  | dropped suffix => exact fun f member => typed f (suffix.subset member)
  | declared before checked =>
      rw [before, List.forall_mem_cons] at typed
      rw [List.forall_mem_cons, List.forall_mem_cons]
      exact ⟨⟨Initial.typed careful checked, typed.1⟩, typed.2⟩
  | renewed _ before looped =>
      rw [before, List.forall_mem_cons] at typed
      rw [List.forall_mem_cons, List.forall_mem_singleton]
      exact ⟨looped, typed.2⟩
  | @assigned name v var _ converted found writable converts checked rewrite =>
      refine rewrite.typed typed fun _ => ⟨fun record => ?_, converted.holds, ?_⟩
      · obtain ⟨type, slot, constant, notNull⟩ := var
        cases (record : type = .record)
        have value : converted.value = .null := converted.holds
        rw [value, Value.isNull_null, Bool.and_true] at checked
        exact careful ⟨null_of_convert_record converts, _, found, rfl,
          Bool.eq_false_of_not_eq_true writable, Bool.eq_false_of_not_eq_true checked⟩
      · intro required null
        refine checked ?_
        rw [null, Value.isNull_null, Bool.and_true]
        exact required
  | filled rewrite => exact rewrite.typed typed id
  | same vars => exact typed_map_vars vars typed

/-! ## Constants are kept -/

/-- There are no constants above the newest frame. -/
theorem constantsAt_none {frames : List Frame} {k : Nat} (none : frames.length ≤ k) :
    constantsAt frames k = [] := by
  induction frames with
  | nil => rfl
  | cons f older ih =>
      rw [List.length_cons] at none
      rw [constantsAt, if_neg (by omega), ih (by omega)]

/-- The constants of a frame are found below newer frames too. -/
theorem constantsAt_suffix {frames frames' : List Frame} {k : Nat} (suffix : frames' <:+ frames)
    (there : k < frames'.length) : constantsAt frames k = constantsAt frames' k := by
  obtain ⟨newer, rfl⟩ := suffix
  induction newer with
  | nil => rfl
  | cons f newer ih =>
      rw [List.cons_append, constantsAt, if_neg (by rw [List.length_append]; omega), ih]

/-- Frames with the same constants have the same ones at each height. -/
theorem constantsAt_congr {frames frames' : List Frame}
    (same : frames'.map Frame.constants = frames.map Frame.constants) (k : Nat) :
    constantsAt frames' k = constantsAt frames k := by
  induction frames generalizing frames' with
  | nil =>
      rw [List.map_eq_nil_iff.mp same]
  | cons f older ih =>
      obtain ⟨f', older', rfl, constants, rest⟩ := List.map_eq_cons_iff.mp same
      have length : older'.length = older.length := by
        rw [← List.length_map, rest, List.length_map]
      rw [constantsAt, constantsAt, constants, ih rest, length]

/-- The constants of the newest frame may become more, and those of older ones stay. -/
theorem constantsAt_cons {f f' : Frame} {older : List Frame} {k : Nat}
    (grows : k = older.length → f.constants <:+ f'.constants) :
    constantsAt (f :: older) k <:+ constantsAt (f' :: older) k := by
  rw [constantsAt, constantsAt]
  split
  · next innermost => exact grows innermost
  · exact List.suffix_rfl

/-- Changing a variable changes no constants. -/
theorem Rewrite.constants {name : String} {var var' : Var} {frames frames' : List Frame}
    (rewrite : Rewrite name var var' frames frames') (before : var.isConstant = false)
    (after : var'.isConstant = false) :
    frames'.map Frame.constants = frames.map Frame.constants := by
  induction rewrite with
  | here vars =>
      rw [List.map_cons, List.map_cons]
      simp only [Frame.constants, vars, List.filter_append, List.filter_cons, before, after,
        Bool.false_eq_true, if_false]
  | older _ ih => rw [List.map_cons, List.map_cons, ih]

/-- The step leaves the frame with `k` older ones in its place, with the variable of its loop. -/
def Action.Keeps {dates : DateFormats} (k : Nat) (s s' : State H) (a : Action H dates) : Prop :=
  k < s'.frames.length ∧ (a.Renews → k + 1 ≠ s.frames.length)

/-- A step that keeps a frame keeps the constants in it. -/
theorem Touched.constants {s s' : State H} {a : Action H host.dates} {k : Nat}
    (touched : Touched s a s'.frames) (keeps : a.Keeps k s s') :
    constantsAt s.frames k <:+ constantsAt s'.frames k := by
  unfold Action.Keeps at keeps
  generalize s'.frames = frames at touched keeps
  cases touched with
  | pushed _ =>
      by_cases there : k < s.frames.length
      · rw [constantsAt_suffix (List.suffix_cons _ _) there]
      · rw [constantsAt_none (Nat.not_lt.mp there)]
        exact List.nil_suffix
  | dropped suffix =>
      rw [constantsAt_suffix suffix keeps.1]
  | declared before _ =>
      rw [before]
      refine constantsAt_cons fun _ => ?_
      exact (List.suffix_cons _ _).filter _
  | renewed renews before _ =>
      rw [before]
      refine constantsAt_cons fun innermost => ?_
      have other := keeps.2 renews
      rw [before, List.length_cons] at other
      omega
  | assigned found writable converts checked rewrite =>
      have same := rewrite.constants (by simp [Var.isConstant, writable])
        (by simp [Var.isConstant, writable])
      rw [constantsAt_congr same]
  | filled rewrite =>
      have same := rewrite.constants (Bool.and_false _) (Bool.and_false _)
      rw [constantsAt_congr same]
  | same vars =>
      have same : frames.map Frame.constants = s.frames.map Frame.constants := by
        have filtered := congrArg (List.map (List.filter fun v => v.2.isConstant)) vars
        rw [List.map_map, List.map_map] at filtered
        exact filtered
      rw [constantsAt_congr same]

/-! ## Runs -/

/-- What PL/SQL is started with: an anonymous block, or a stored function that SQL calls. -/
inductive Program where
  | block (b : Block)
  | function (r : Routine) (args : List Value)

/-- Run a program. -/
def Program.run (host : Host H) (fuel : ℕ) : Program → Run host Unit
  | block b => do let _ ← Plsql.block host (calls host fuel) b
  | function r args => do let _ ← callFunction host (calls host fuel) r args

/-- No PL/SQL is running. -/
def State.initial (data : H) (binds : List Value) (output : Output) : State H :=
  ⟨data, 0, output, { binds, readOnly := false }, []⟩

/-- A step that gives no record NULL as a whole. -/
def Careful (host : Host H) (s : State H) (a : Action H host.dates) (s' : State H) : Prop :=
  Takes (Action.apply host) s a s' ∧ ¬ a.NullsRecord s

/-- A step that leaves the frame with `k` older ones in place. -/
def Keeping (host : Host H) (k : ℕ) (s : State H) (a : Action H host.dates) (s' : State H) : Prop :=
  Takes (Action.apply host) s a s' ∧ a.Keeps k s s'

/-- A careful step keeps the variables typed. -/
theorem Careful.typed {s s' : State H} {a : Action H host.dates} (typed : s.Typed host.dates)
    (careful : Careful host s a s') : s'.Typed host.dates :=
  (touched careful.1).typed careful.2 typed

/-- As long as a frame stays in place, its constants stay and new ones come in front. -/
theorem constants_of_steps {k : ℕ} {s s' : State H} {actions : List (Action H host.dates)}
    (keeping : Steps (Keeping host k) s actions s') :
    constantsAt s.frames k <:+ constantsAt s'.frames k := by
  induction keeping with
  | nil => exact List.suffix_rfl
  | cons step _ ih => exact ((touched step.1).constants step.2).trans ih

/-- At every point of every run, every variable holds what its declaration lets it hold, if no step
before has given NULL to a record as a whole. From there on the constants of a frame keep their
values for as long as the frame stays. -/
theorem variables_keep_types (host : Host H) (fuel : ℕ) (program : Program) (data : H)
    (binds : List Value) (output : Output) {before after : List (Action H host.dates)}
    (split : (program.run host fuel (.initial data binds output)).trace = before ++ after) :
    ∃ s, Steps (Takes (Action.apply host)) (.initial data binds output) before s ∧
      (Steps (Careful host) (.initial data binds output) before s → s.Typed host.dates) ∧
      ∀ during rest, after = during ++ rest →
        ∃ s', Steps (Takes (Action.apply host)) s during s' ∧
          ∀ k, Steps (Keeping host k) s during s' →
            constantsAt s.frames k <:+ constantsAt s'.frames k := by
  have run := (program.run host fuel (.initial data binds output)).steps
  rw [split] at run
  obtain ⟨s, reached, further⟩ := run.split
  refine ⟨s, reached, fun careful => ?_, fun during rest here => ?_⟩
  · have start : (State.initial data binds output).Typed host.dates := fun f member => by
      cases member
    exact @Steps.preserves _ _ _ (State.Typed host.dates) Careful.typed _ _ _ careful start
  · rw [here] at further
    obtain ⟨s', reached', _⟩ := further.split
    exact ⟨s', reached', fun k keeping => constants_of_steps keeping⟩

/-- DECLARE C CONSTANT INTEGER := 1; R T%ROWTYPE; BEGIN body END. -/
def declaring (body : List Stmt) : Block :=
  .mk [.var ⟨"C", .integer, true, false, some (.literal (.ofInt 1))⟩,
    .var ⟨"R", .rowType "T", false, false, none⟩] body []

/-- The actions of the block. -/
def declaringTrace (body : List Stmt) : List (Action Unit Host.plain.dates) :=
  ((Program.block (declaring body)).run Host.plain 5 (.initial () [] {})).trace

/-- The declarations of the block give no record NULL as a whole, and leave its constant. -/
theorem careful_declaring : ∃ s,
    Steps (Careful Host.plain) (.initial () [] {}) ((declaringTrace [.null]).take 4) s ∧
      constantsAt s.frames 0 = [("C", ⟨.integer, .scalar (.ofInt 1), true, false⟩)] := by
  refine ⟨_, .cons ⟨rfl, ?_⟩ (.cons ⟨rfl, id⟩ (.cons ⟨rfl, ?_⟩ (.cons ⟨rfl, id⟩ .nil))), rfl⟩
  · rintro ⟨p, member, _⟩
    cases member
  · intro record
    cases record

/-- After the declarations of a block that does nothing, its constant and its record hold what they
were declared with. -/
theorem variables_keep_types_declaring : ∃ s,
    Steps (Takes (Action.apply Host.plain)) (.initial () [] {}) ((declaringTrace [.null]).take 4) s ∧
      s.Typed Host.plain.dates ∧
      constantsAt s.frames 0 = [("C", ⟨.integer, .scalar (.ofInt 1), true, false⟩)] := by
  obtain ⟨s, reached, typed, _⟩ := variables_keep_types Host.plain 5 (.block (declaring [.null]))
    () [] {} (List.take_append_drop 4 _).symm
  obtain ⟨s', careful, constants⟩ := careful_declaring
  cases Takes.unique_run reached (careful.imp And.left)
  exact ⟨s, reached, typed careful, constants⟩

/-- R := NULL makes the record a single value. -/
theorem record_assigned_null : ∃ before after s,
    declaringTrace [.assign (.var "R") (.literal .null)] = before ++ after ∧
      Steps (Takes (Action.apply Host.plain)) (.initial () [] {}) before s ∧
      ¬ s.Typed Host.plain.dates := by
  refine ⟨_, _, _, (List.take_append_drop 6 _).symm,
    .cons rfl (.cons rfl (.cons rfl (.cons rfl (.cons rfl (.cons rfl .nil))))), fun typed => ?_⟩
  exact (typed _ List.mem_cons_self _ List.mem_cons_self).1 rfl

end MockOracle.Plsql
