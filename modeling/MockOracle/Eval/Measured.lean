import MockOracle.Eval.Promise

/-!
# Where a value comes from

`static_type` takes the type of MIN, MAX, NVL, COALESCE, GREATEST and LEAST from their first
argument and that of UPPER, LOWER and INITCAP from theirs. The value of such a call keeps what the
type promises when it is the first argument's own value, or when the argument that is returned
instead, or the text after its letters are changed, is one the type takes. What a column holds
and what CAST makes of a text keep the promise by themselves.
-/

namespace MockOracle

/-- A scope over some columns, whose row and group keep what the columns promise. -/
inductive Scope.Within {dates : DateFormats} (p : TypePromise dates) (cols : List RelCol)
    (parent : Option Scope) : Scope → Prop
  | mk {row : Row} {group : Option (List Row)} {rownum : Int} (own : p.RowKeeps cols row)
      (grouped : ∀ rows, group = some rows → ∀ row ∈ rows, p.RowKeeps cols row) :
      Within p cols parent (.mk cols row group rownum parent)

/-- The mapping of a function that changes the case of letters. -/
def caseMapping (lib : Library) (name : String) : Option (String → String) :=
  if name = "UPPER" then some lib.toUppercase
  else if name = "LOWER" then some lib.toLowercase
  else if name = "INITCAP" then some (initcap lib)
  else none

/-- The aggregates that return one of the values they are over. -/
def isExtreme (name : String) : Bool := name = "MIN" || name = "MAX"

/-- The functions with the type of their first argument that return one of their arguments. -/
def isChoice (name : String) : Bool :=
  name = "NVL" || name = "COALESCE" || name = "GREATEST" || name = "LEAST"

/-- The target of a CAST, its second argument. -/
def castTarget (args : List Expr) : Option String :=
  match (args[1]? : Option Expr) with
  | some (.literal (.varchar2 target)) => some target
  | _ => none

/-- A CAST to a text type. -/
def castsToText (name : String) (args : List Expr) : Bool :=
  name = "CAST" && (((castTarget args).bind castType).bind SqlType.textLength).isSome

/-- The expressions whose values are computed and not passed on: all but columns, CASTs to a text
and the functions that have the type of their first argument. None has a text type. -/
def Expr.computes : Expr → Bool
  | .column _ _ => false
  | .function name args _ =>
      !(isExtreme name || isChoice name || caseFunctions.contains name || castsToText name args)
  | _ => true

/-- The value `v`, which an expression gives in a scope and a state, comes from where its type
does, or is one that the type takes. -/
inductive Kept (eng : Engine) (ex : Ex) (takes : Value → Prop) :
    Nat → Expr → Scope → EvalState → Value → Prop
  | null {n : Nat} {e : Expr} {scope : Scope} {st : EvalState} : Kept eng ex takes n e scope st .null
  | column {n : Nat} {table : Option String} {name : String} {scope : Scope} {st : EvalState}
      {v : Value} : Kept eng ex takes n (.column table name) scope st v
  | cast {n : Nat} {args : List Expr} {distinct : Bool} {scope : Scope} {st : EvalState} {v : Value}
      (text : castsToText "CAST" args = true) :
      Kept eng ex takes n (.function "CAST" args distinct) scope st v
  /-- The row of the group that the value comes from. -/
  | extreme {n : Nat} {name : String} {a : Expr} {distinct : Bool} {scope : Scope}
      {rows : List Row} {run : Row × EvalState} {st later : EvalState} {v : Value}
      (named : isExtreme name = true) (group : scope.group = some rows)
      (among : run ∈ visits (fun row => (eng.levels n).eval ex a (scope.inner row)) rows st)
      (evaluated : (eng.levels n).eval ex a (scope.inner run.1) run.2 = .ok v later)
      (own : Kept eng ex takes n a (scope.inner run.1) run.2 v) :
      Kept eng ex takes (n + 1) (.function name [a] distinct) scope st v
  /-- The first argument is returned. -/
  | first {n : Nat} {name : String} {a : Expr} {rest : List Expr} {distinct : Bool} {scope : Scope}
      {st later : EvalState} {v : Value} (named : isChoice name = true)
      (evaluated : (eng.levels n).eval ex a scope st = .ok v later)
      (own : Kept eng ex takes n a scope st v) :
      Kept eng ex takes (n + 1) (.function name (a :: rest) distinct) scope st v
  /-- Another argument is returned, which the type takes. -/
  | other {n : Nat} {name : String} {args : List Expr} {distinct : Bool} {scope : Scope}
      {st : EvalState} {v : Value} (named : isChoice name = true) (fits : takes v) :
      Kept eng ex takes n (.function name args distinct) scope st v
  /-- The argument's text with its letters changed is one the type takes. -/
  | mapping {n : Nat} {name : String} {f : String → String} {a : Expr} {distinct : Bool}
      {scope : Scope} {st later : EvalState} {u : Value} {text : String}
      (named : caseMapping eng.lib name = some f)
      (evaluated : (eng.levels n).eval ex a scope st = .ok u later)
      (shown : toText eng.lib.dates later.env u = some text)
      (fits : takes (Value.varchar (f text))) :
      Kept eng ex takes (n + 1) (.function name [a] distinct) scope st (Value.varchar (f text))
  | computed {n : Nat} {e : Expr} {scope : Scope} {st : EvalState} {v : Value}
      (form : e.computes = true) (fits : takes v) : Kept eng ex takes n e scope st v

section Kept

variable {eng : Engine} {ex : Ex} {p : TypePromise eng.lib.dates} {parent : Option Scope}
  {cols : List RelCol} {scope : Scope} {st st' : EvalState} {n : Nat} {t : SqlType} {v : Value}

/-! ## Text types -/

theorem castLength_wider {target : String} {n : Nat} (short : castLength 32 target = some n) :
    castLength 64 target = some n := by
  unfold castLength at short ⊢
  split at short
  · next named =>
      obtain ⟨read, small⟩ := Option.filter_eq_some_iff.mp short
      have := of_decide_eq_true small
      rw [if_pos named]
      exact Option.filter_eq_some_iff.mpr ⟨read, decide_eq_true (by omega)⟩
  · cases short

/-- A target with a text length is a VARCHAR2. -/
theorem castLength_of_castType {target : String} (typed : castType target = some t)
    (textual : t.textLength.isSome = true) :
    ∃ m, t = .varchar2 m ∧ castLength 64 target = some m ∧ target ≠ "NUMBER" ∧ target ≠ "DATE" ∧
      target ≠ "TIMESTAMP" := by
  unfold castType at typed
  split at typed
  · cases typed
    cases textual
  · split at typed
    · cases typed
      cases textual
    · split at typed
      · cases typed
        cases textual
      · next number date timestamp =>
          obtain ⟨m, read, rfl⟩ := Option.map_eq_some_iff.mp typed
          exact ⟨m, rfl, castLength_wider read, number, date, timestamp⟩

/-- A text of at most `m` bytes can be stored in a column of that length unchanged. -/
theorem conforms_varchar {dates : DateFormats} {text : String} {m : Nat}
    (fits : text.utf8ByteSize ≤ m) :
    (Value.varchar text).Conforms dates ⟨"", .varchar2 m, none, false, false⟩ := by
  by_cases empty : text.isEmpty
  · exact Or.inl (by rw [Value.varchar, if_pos empty])
  · have value : Value.varchar text = .varchar2 text := by rw [Value.varchar, if_neg empty]
    rw [value]
    refine Or.inr ⟨rfl, fun env user table => ?_⟩
    exact TableColumn.storeText_ok.mpr ⟨not_lt.mpr fits, value.symm⟩

/-- CAST to VARCHAR2 refuses what is longer than its target. -/
theorem conforms_castTo {lib : Library} {env : Env} {target : String} {w : Value}
    (typed : castType target = some t) (textual : t.textLength.isSome = true)
    (called : castTo lib env v target = .ok w) :
    w.Conforms lib.dates ⟨"", t, none, false, false⟩ := by
  obtain ⟨m, rfl, length, number, date, timestamp⟩ := castLength_of_castType typed textual
  simp only [castTo, number, date, timestamp, if_false, length, Option.getD_some] at called
  split at called
  · cases called
  · next short =>
      cases called
      exact conforms_varchar (Nat.le_of_not_lt short)

theorem textLength_functionType {name : String} {args : List Expr} {first : Option SqlType}
    (computes : (isExtreme name || isChoice name || caseFunctions.contains name ||
      castsToText name args) = false)
    (typed : functionType name args first = some t) : t.textLength = none := by
  simp only [Bool.or_eq_false_iff] at computes
  obtain ⟨⟨⟨extreme, choice⟩, mapping⟩, text⟩ := computes
  unfold functionType at typed
  split at typed
  · cases typed
    rfl
  · split at typed
    · cases typed
      rfl
    · split at typed
      · cases typed
        rfl
      · split at typed
        · split at typed <;> cases typed <;> rfl
        · split at typed
          · next first =>
              simp only [isExtreme, isChoice, Bool.or_eq_false_iff, decide_eq_false_iff_not]
                at extreme choice
              simp [firstArgumentFunctions, extreme, choice] at first
          · split at typed
            · next mapped =>
                rw [← List.contains_iff_mem, mapping] at mapped
                cases mapped
            · split at typed
              · next cast =>
                  subst cast
                  split at typed
                  · next target second =>
                      simp only [castsToText, castTarget, second, typed, decide_true,
                        Bool.true_and, Option.bind_some] at text
                      exact Option.not_isSome_iff_eq_none.mp (Bool.not_eq_true _ ▸ text)
                  · cases typed
              · cases typed

/-! ## Calls -/

/-- A call of a built-in function, with its arguments' values. -/
theorem builtin_of_eval {name : String} {args : List Expr} {distinct : Bool}
    (plain : isAggregate name = false)
    (known : ∀ env, (builtin eng.lib env eng.scalar name).isSome = true)
    (evaluated : (eng.levels (n + 1)).eval ex (.function name args distinct) scope st = .ok v st') :
    ∃ values middle f, forEach (fun a => (eng.levels n).eval ex a scope) args st =
        .ok values middle ∧
      builtin eng.lib middle.env eng.scalar name = some f ∧ f values = .ok v := by
  have evaluated : evalStep eng (eng.levels n) ex (.function name args distinct) scope st =
      .ok v st' := evaluated
  simp only [evalStep, plain] at evaluated
  obtain ⟨values, middle, each, called⟩ := bind_ok evaluated
  obtain ⟨current, _, got, called⟩ := bind_ok called
  cases got
  obtain ⟨f, found⟩ := Option.isSome_iff_exists.mp (known middle.env)
  rw [found] at called
  exact ⟨values, middle, f, each, found, (lift_ok called).1⟩

theorem find_own {table : Option String} {name : String} {i : Nat} {row : Row}
    {group : Option (List Row)} {rownum : Int} (found : findColumn cols table name = .ok (some i)) :
    Scope.find table name (.mk cols row group rownum parent) = .ok (some (row.getD i .null)) := by
  unfold Scope.find
  rw [found]
  rfl

/-- The value of a typed column keeps what the column promises. -/
theorem keeps_column {table : Option String} {name : String} (within : scope.Within p cols parent)
    (typed : staticType cols (.column table name) = some t)
    (evaluated : (eng.levels n).eval ex (.column table name) scope st = .ok v st') :
    p.keeps t v := by
  cases n with
  | zero => cases evaluated
  | succ n =>
      rw [staticType] at typed
      split at typed
      · next i found =>
          obtain ⟨c, at_, rfl⟩ := Option.map_eq_some_iff.mp typed
          obtain ⟨own, -⟩ := within
          obtain ⟨value, middle, got, last⟩ := bind_ok evaluated
          rw [find_own found] at got
          cases (lift_ok got).1
          rw [(pure_ok last).1]
          exact own.getD at_
      · cases typed

theorem eval_literal {u : Value} (evaluated : (eng.levels n).eval ex (.literal u) scope st = .ok v st') :
    v = u := by
  cases n with
  | zero => cases evaluated
  | succ n => exact (pure_ok evaluated).1

theorem castTarget_eq_some {args : List Expr} {target : String}
    (found : castTarget args = some target) :
    ∃ a rest, args = a :: .literal (.varchar2 target) :: rest := by
  unfold castTarget at found
  split at found
  · next second =>
      cases found
      rcases args with _ | ⟨a, _ | ⟨_, rest⟩⟩
      · cases second
      · cases second
      · cases second
        exact ⟨a, rest, rfl⟩
  · cases found

/-- The type of a CAST is the one its target names. -/
theorem functionType_cast (args : List Expr) (first : Option SqlType) :
    functionType "CAST" args first = (castTarget args).bind castType := by
  rcases args with _ | ⟨_, _ | ⟨second, _⟩⟩
  · rfl
  · rfl
  · cases second with
    | literal v => cases v <;> rfl
    | _ => rfl

/-- The value of a CAST to a text keeps what its type promises. -/
theorem keeps_cast {args : List Expr} {distinct : Bool} (text : castsToText "CAST" args = true)
    (typed : staticType cols (.function "CAST" args distinct) = some t)
    (evaluated : (eng.levels n).eval ex (.function "CAST" args distinct) scope st = .ok v st') :
    p.keeps t v := by
  cases n with
  | zero => cases evaluated
  | succ n =>
      obtain ⟨values, middle, f, each, found, called⟩ :=
        builtin_of_eval rfl (fun _ => rfl) evaluated
      cases found
      rw [staticType, functionType_cast] at typed
      simp only [castsToText, decide_true, Bool.true_and, typed, Option.bind_some] at text
      obtain ⟨target, second, typed⟩ := Option.bind_eq_some_iff.mp typed
      obtain ⟨a, rest, rfl⟩ := castTarget_eq_some second
      have each := forEach_ok each
      rcases each with _ | ⟨_, _ | ⟨shown, _⟩⟩
      obtain ⟨before, after, shown⟩ := shown
      obtain rfl := eval_literal shown
      unfold MockOracle.cast at called
      simp only at called
      split at called
      · cases called
        exact TypePromise.keeps_null t
      · exact p.stored (conforms_castTo typed text called)

/-! ## Soundness -/

theorem Scope.Within.inner {row : Row} {rows : List Row} (within : scope.Within p cols parent)
    (group : scope.group = some rows) (member : row ∈ rows) :
    (scope.inner row).Within p cols parent := by
  obtain ⟨own, grouped⟩ := within
  exact .mk (grouped rows group row member) fun _ none_ => by cases none_

theorem staticType_extreme {name : String} {a : Expr} {distinct : Bool}
    (named : isExtreme name = true) :
    staticType cols (.function name [a] distinct) = staticType cols a := by
  rw [isExtreme, Bool.or_eq_true, decide_eq_true_eq, decide_eq_true_eq] at named
  rcases named with rfl | rfl <;> rfl

theorem staticType_choice {name : String} {a : Expr} {rest : List Expr} {distinct : Bool}
    (named : isChoice name = true) :
    staticType cols (.function name (a :: rest) distinct) = staticType cols a := by
  simp only [isChoice, Bool.or_eq_true, decide_eq_true_eq] at named
  rcases named with ((rfl | rfl) | rfl) | rfl <;> rfl

/-- A value that comes from where its type does is one the type takes. -/
theorem Kept.takes {env : Env} {e : Expr}
    (kept : Kept eng ex (p.Takes env t) n e scope st v) (typed : staticType cols e = some t)
    (within : scope.Within p cols parent)
    (evaluated : (eng.levels n).eval ex e scope st = .ok v st') : p.Takes env t v := by
  induction kept generalizing st' with
  | null =>
      intro w coerced
      rw [coerceValue_null] at coerced
      cases coerced
      exact TypePromise.keeps_null t
  | column => exact fun w coerced => p.stable (keeps_column within typed evaluated) coerced
  | cast text => exact fun w coerced => p.stable (keeps_cast text typed evaluated) coerced
  | extreme named group among inner own ih =>
      rw [staticType_extreme named] at typed
      exact ih typed (within.inner group (mem_of_mem_visits among)) inner
  | first named inner own ih =>
      rw [staticType_choice named] at typed
      exact ih typed within inner
  | other named fits => exact fits
  | mapping named evaluated shown fits => exact fits
  | computed form fits => exact fits

end Kept

end MockOracle
