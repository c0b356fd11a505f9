import MockOracle.Eval.Literal
import MockOracle.Session.SequenceHistory
import MockOracle.System.System

/-!
# Sequences of a shared database

The counter of a sequence is shared by all sessions and belongs to no transaction: commits and
rollbacks leave it alone, and every NEXTVAL advances it. A run of requests therefore acts on a
sequence as the calls of NEXTVAL and the ALTER SEQUENCE statements in it, in their order and
whatever session they come from.
-/

namespace MockOracle

open Std Semantics

/-! ## What requests do to a sequence -/

/-- A number is drawn as the sequence says: what the call returns and what it leaves. -/
theorem nextSequence_call (name : String) (d : SequenceDef) (st : EvalState) :
    match (⟨d, st.sequences[name]?⟩ : Sequence).call with
    | (some v, s) => ∃ st', nextSequence name d st = .ok v st' ∧ st'.sequences[name]? = s.counter
    | (none, s) => ∃ e st', nextSequence name d st = .error e st' ∧ e.code = 8004 ∧
        st'.sequences[name]? = s.counter := by
  have next : (⟨d, st.sequences[name]?⟩ : Sequence).next = st.sequences.getD name d.start := by
    rw [Sequence.next, ExtTreeMap.getD_eq_getD_getElem?]
  unfold Sequence.call nextSequence
  rw [next]
  dsimp only
  cases d.draw (st.sequences.getD name d.start) with
  | none =>
      refine ⟨_, _, rfl, rfl, ?_⟩
      exact ExtTreeMap.getElem?_insert_self
  | some drawn =>
      refine ⟨_, rfl, ?_⟩
      exact ExtTreeMap.getElem?_insert_self

namespace World

/-- The sequence of a name, as the database has it. -/
def sequence (w : World) (name : String) : Option Sequence :=
  (w.db.state.sequences[name]?).map fun d => ⟨d, w.db.sequences[name]?⟩

/-- A sequence depends on its definition and its counter only. -/
theorem sequence_of_same {w w' : World} (state : w'.db.state.sequences = w.db.state.sequences)
    (counters : w'.db.sequences = w.db.sequences) (name : String) :
    w'.sequence name = w.sequence name := by
  rw [sequence, sequence, state, counters]

/-- COMMIT publishes the sequences that are committed already. -/
theorem commit_sequence {w : World} (valid : w.Valid) (name : String) :
    w.commit.2.sequence name = w.sequence name := by
  refine sequence_of_same ?_ ?_ name
  · unfold commit
    split
    · rfl
    · next txn open_ =>
        split
        · rfl
        · split
          · next state success =>
              have holds := (valid.txn txn open_).1
              unfold Txn.publish at success
              split at success
              · next same =>
                  cases success
                  have origin := holds.unchanged same.symm
                  rw [origin]
                  exact holds.keeps.sequences
              · split at success
                · next next_ replayed =>
                    cases success
                    have used := fun change member => (holds.fits change member).1
                    exact (replay_keeps used replayed).sequences
                · cases success
          · rfl
  · unfold commit
    split
    · rfl
    · split
      · rfl
      · split <;> rfl

/-- CREATE SEQUENCE defines a sequence that has given no number. -/
theorem createSequence_ok {w w' : World} {name : String} {options : List SequenceOption}
    (success : w.createSequence name options = (.ok (), w')) :
    ∃ d, sequenceDef none options = .ok d ∧ w'.sequence name = some ⟨d, none⟩ := by
  unfold createSequence at success
  dsimp only at success
  split at success
  · cases success
  · split at success
    · cases success
    · next d defined =>
        cases success
        refine ⟨d, defined, ?_⟩
        simp [sequence, setState, Catalog.bump]

/-- ALTER SEQUENCE changes the sequence as its options say. -/
theorem alterSequence_ok {w w' : World} {name : String} {options : List SequenceOption}
    {s : Sequence} (before : w.sequence name = some s)
    (success : w.alterSequence name options = (.ok (), w')) :
    ∃ s', s.alter options = .ok s' ∧ w'.sequence name = some s' := by
  obtain ⟨d, found, rfl⟩ := Option.map_eq_some_iff.mp before
  unfold alterSequence at success
  dsimp only at success
  rw [found] at success
  dsimp only at success
  split at success
  · cases success
  · next d' defined =>
      cases success
      have altered : Sequence.alter options ⟨d, w.db.sequences[name]?⟩ = .ok ⟨d', restartCounter d'
          options ((w.db.sequences[name]?).map fun next =>
            wrap (next - d.increment + d'.increment))⟩ := by
        rw [Sequence.alter, defined]
      refine ⟨_, altered, ?_⟩
      simp only [sequence, setState, Catalog.bump, ExtTreeMap.getElem?_insert_self, Option.map_some]
      cases moved : restartCounter d' options ((w.db.sequences[name]?).map fun next =>
          wrap (next - d.increment + d'.increment)) with
      | none =>
          -- Neither the counter was set nor does a RESTART set it.
          rw [restartCounter_eq] at moved
          obtain ⟨-, unset⟩ := Option.or_eq_none_iff.mp moved
          rw [Option.map_none, Option.getD_none, Option.map_eq_none_iff.mp unset]
      | some next => simp

end World

namespace System

variable {ev : Evaluator} {sys sys' : System} {name : String}

/-- The sequence of a name, as the database has it. -/
def sequence (sys : System) (name : String) : Option Sequence :=
  (sys.db.state.sequences[name]?).map fun d => ⟨d, sys.db.sequences[name]?⟩

/-- A request acts on a sequence as these calls and changes do, one after another. -/
def SequenceStep (ev : Evaluator) (name : String) (sys : System)
    (label : Event × List SequenceAction) (sys' : System) : Prop :=
  Step ev sys label.1 sys' ∧ ∃ s s', sys.sequence name = some s ∧ sys'.sequence name = some s' ∧
    Sequence.Run s label.2 s'

/-- A request that leaves the sequence alone. -/
theorem SequenceStep.of_same {request : Request} {s : Sequence} (before : sys.sequence name = some s)
    (same : (sys.act ev request).2.sequence name = sys.sequence name) :
    SequenceStep ev name sys ((request, (sys.act ev request).1), []) (sys.act ev request).2 :=
  ⟨rfl, s, s, before, same.trans before, .nil⟩

/-- COMMIT and ROLLBACK leave every sequence alone. -/
theorem SequenceStep.of_commit (valid : sys.Valid) {s : Sequence}
    (before : sys.sequence name = some s) (i : Nat) :
    SequenceStep ev name sys ((.commit i, (sys.act ev (.commit i)).1), [])
      (sys.act ev (.commit i)).2 :=
  .of_same before (World.commit_sequence (valid.world i) name)

/-- ROLLBACK leaves the sequence as it is. -/
theorem SequenceStep.of_rollback {s : Sequence} (before : sys.sequence name = some s) (i : Nat) :
    SequenceStep ev name sys ((.rollback i, .ok ()), []) (sys.act ev (.rollback i)).2 :=
  .of_same before rfl

/-- NEXTVAL of a sequence in a session. -/
def nextval (name : String) (i : Nat) : Request :=
  .execute i ⟨0, 0⟩ ⟨0, 0⟩ (.evaluate fun ex st =>
    match ex.committed.sequences[name]? with
    | none => st
    | some d =>
        match nextSequence name d st with
        | .ok _ st => st
        | .error _ st => st)

/-- NEXTVAL calls the sequence. -/
theorem nextval_sequence {s : Sequence} (before : sys.sequence name = some s) (i : Nat) :
    (sys.act ev (nextval name i)).2.sequence name = some s.call.2 := by
  obtain ⟨d, found, rfl⟩ := Option.map_eq_some_iff.mp before
  have committed : ((sys.world i).startStatement ⟨0, 0⟩ ⟨0, 0⟩).db.state.sequences[name]? = some d :=
    found
  have drawn := nextSequence_call name d ((sys.world i).startStatement ⟨0, 0⟩ ⟨0, 0⟩).evalState
  have counters : ((sys.world i).startStatement ⟨0, 0⟩ ⟨0, 0⟩).evalState.sequences =
      sys.db.sequences := rfl
  rw [counters] at drawn
  simp only [nextval, System.act, World.execute, committed]
  cases called : (⟨d, sys.db.sequences[name]?⟩ : Sequence).call with
  | mk outcome after =>
      have same : after.def_ = d := by
        have kept : (⟨d, sys.db.sequences[name]?⟩ : Sequence).call.2.def_ = d := by
          unfold Sequence.call
          split <;> rfl
        rw [called] at kept
        exact kept
      rw [called] at drawn
      cases outcome with
      | none =>
          obtain ⟨e, st', failed, -, counter⟩ := drawn
          rw [failed]
          simp only [System.sequence, System.put, World.setEval, World.startStatement, System.world,
            found, Option.map_some, counter, ← same]
      | some v =>
          obtain ⟨st', success, counter⟩ := drawn
          rw [success]
          simp only [System.sequence, System.put, World.setEval, World.startStatement, System.world,
            found, Option.map_some, counter, ← same]

/-- NEXTVAL is one call. -/
theorem SequenceStep.of_nextval {s : Sequence} (before : sys.sequence name = some s) (i : Nat) :
    SequenceStep ev name sys ((nextval name i, .ok ()), [.call s.call.1])
      (sys.act ev (nextval name i)).2 :=
  ⟨rfl, s, s.call.2, before, nextval_sequence before i, .cons (.call rfl) .nil⟩

/-- A run of requests acts on the sequence as all their actions do. -/
theorem sequence_run {labels : List (Event × List SequenceAction)} {s : Sequence}
    (run : Steps (SequenceStep ev name) sys labels sys') (before : sys.sequence name = some s) :
    ∃ s', sys'.sequence name = some s' ∧ Sequence.Run s (labels.flatMap Prod.snd) s' := by
  induction run generalizing s with
  | nil => exact ⟨s, before, .nil⟩
  | cons head _ ih =>
      obtain ⟨-, first, middle, here, after, acts⟩ := head
      rw [before] at here
      cases here
      obtain ⟨last, ended, rest⟩ := ih after
      exact ⟨last, ended, acts.append rest⟩

/-- DDL that succeeds has committed first. -/
theorem ddl_ok {w w' : World} {binds : List Value} {vars : Option VarLookup} {stmt : Statement}
    (runs : w.run ev stmt binds vars = World.plain (w.commitAndDdl ev binds stmt))
    (success : w.execute ev (.statement stmt binds vars) = (.ok (), w')) :
    w.commit.2.ddl ev binds stmt = (.ok (), w') := by
  simp only [World.execute, runs, World.plain, World.commitAndDdl] at success
  cases committed : w.commit with
  | mk outcome after =>
      rw [committed] at success
      cases outcome with
      | error e => cases success
      | ok _ =>
          cases altered : after.ddl ev binds stmt with
          | mk outcome last =>
              simp only [altered] at success
              cases outcome with
              | error e => cases success
              | ok _ =>
                  cases success
                  rfl

/-- A statement that a session executes successfully, in its world. -/
theorem execute_ok {i : Nat} {utc localTime : NaiveDateTime} {command : Command}
    (step : Step ev sys (.execute i utc localTime command, .ok ()) sys') :
    ∃ w, ((sys.world i).startStatement utc localTime).execute ev command = (.ok (), w) ∧
      w.db = sys'.db := by
  have equal : (_, _) = (_, _) := step
  obtain ⟨outcome, put⟩ := Prod.mk.inj equal
  refine ⟨_, Prod.ext outcome rfl, ?_⟩
  rw [← put]
  rfl

/-- CREATE SEQUENCE that succeeds leaves the sequence unused. -/
theorem createSequence_step {i : Nat} {utc localTime : NaiveDateTime}
    {options : List SequenceOption} {binds : List Value} {vars : Option VarLookup}
    (step : Step ev sys (.execute i utc localTime (.statement (.createSequence name options) binds
      vars), .ok ()) sys') :
    ∃ d, sequenceDef none options = .ok d ∧ sys'.sequence name = some ⟨d, none⟩ := by
  obtain ⟨w, executed, same⟩ := execute_ok step
  obtain ⟨d, defined, after⟩ := World.createSequence_ok (ddl_ok rfl executed)
  refine ⟨d, defined, ?_⟩
  rw [System.sequence, ← same]
  exact after

/-- ALTER SEQUENCE that succeeds is one change. -/
theorem SequenceStep.of_alter (valid : sys.Valid) {i : Nat} {utc localTime : NaiveDateTime}
    {options : List SequenceOption} {binds : List Value} {vars : Option VarLookup} {s : Sequence}
    (before : sys.sequence name = some s)
    (step : Step ev sys (.execute i utc localTime (.statement (.alterSequence name options) binds
      vars), .ok ()) sys') :
    SequenceStep ev name sys ((.execute i utc localTime (.statement (.alterSequence name options)
      binds vars), .ok ()), [.alter options]) sys' := by
  obtain ⟨w, executed, same⟩ := execute_ok step
  have started : ((sys.world i).startStatement utc localTime).Valid := ⟨valid.sound, valid.txn i⟩
  have committed := (World.commit_sequence started name).trans
    (before : ((sys.world i).startStatement utc localTime).sequence name = some s)
  obtain ⟨s', altered, after⟩ := World.alterSequence_ok committed (ddl_ok rfl executed)
  refine ⟨step, s, s', before, ?_, .cons (.alter altered) .nil⟩
  rw [System.sequence, ← same]
  exact after

/-! ## Numbers are handed out once -/

/-- Any number of calls can be made. -/
theorem exists_calls {s : Sequence} (before : sys.sequence name = some s) (n : Nat) :
    ∃ labels later, ∃ outcomes : List (Option Int), Steps (SequenceStep ev name) sys labels later ∧
      labels.flatMap Prod.snd = outcomes.map .call ∧ outcomes.length = n := by
  induction n generalizing sys s with
  | zero => exact ⟨[], sys, [], .nil, rfl, rfl⟩
  | succ n ih =>
      obtain ⟨labels, later, outcomes, run, calls, length⟩ := ih (nextval_sequence before 0)
      refine ⟨_ :: labels, later, s.call.1 :: outcomes, .cons (.of_nextval before 0) run, ?_, ?_⟩
      · rw [List.flatMap_cons, calls]
        rfl
      · rw [List.length_cons, length]

/-- The numbers of a sequence that does not cycle, in every run after its creation that does not
alter, drop or restore it: they follow each other from START WITH on without a repetition, within
the bounds, and end with the first failure. This holds exactly when the bound the sequence moves
to is not the end of the 128-bit range. -/
theorem sequence_numbers_iff {created : System} {i : Nat} {utc localTime : NaiveDateTime}
    {options : List SequenceOption} {binds : List Value} {vars : Option VarLookup}
    (creates : Step ev sys (.execute i utc localTime (.statement (.createSequence name options) binds
      vars), .ok ()) created)
    (fits : ∀ o ∈ options, o.Fits) {d : SequenceDef} (defined : sequenceDef none options = .ok d)
    (stops : d.cycle = false) :
    (∀ labels later, ∀ outcomes : List (Option Int), Steps (SequenceStep ev name) created labels later →
      labels.flatMap Prod.snd = outcomes.map .call → d.Numbers outcomes) ↔ ¬ d.AtLimit := by
  obtain ⟨d', defined', unused⟩ := createSequence_step creates
  rw [defined] at defined'
  cases defined'
  have accepted : d.Accepted := sequenceDef_accepted fits (fun o same => by cases same) defined
  constructor
  · intro always limit
    obtain ⟨labels, later, outcomes, run, calls, many⟩ :=
      @exists_calls ev _ _ _ unused ((d.max - d.min).toNat + 2)
    obtain ⟨s', -, acts⟩ := sequence_run run unused
    rw [calls] at acts
    exact Sequence.run_repeats limit accepted (sequenceDef_start defined) acts many
      (always labels later outcomes run calls)
  · intro short labels later outcomes run calls
    obtain ⟨s', -, acts⟩ := sequence_run run unused
    rw [calls] at acts
    exact Sequence.run_numbers accepted stops short acts

/-- A session creates a sequence. -/
def createSequence (options : List SequenceOption) : Request :=
  .sql 0 (.createSequence "S" options)

/-- A new database with one sequence, S. -/
def withSequence (options : List SequenceOption) : System :=
  (new fun _ => Literal.env "SCOTT").runAll literalEvaluator [createSequence options]

/-- START WITH and MAXVALUE at the end of the 128-bit range. -/
def limitOptions : List SequenceOption :=
  [.startWith (2 ^ 127 - 1), .maxValue (some (2 ^ 127 - 1))]

/-- NEXTVAL hands out the largest 128-bit integer twice. -/
theorem sequence_repeats :
    ∃ d, sequenceDef none limitOptions = .ok d ∧ d.cycle = false ∧
      (withSequence limitOptions).sequence "S" = some ⟨d, none⟩ ∧
      ¬ ∀ labels later, ∀ outcomes : List (Option Int),
        Steps (SequenceStep literalEvaluator "S") (withSequence limitOptions) labels later →
        labels.flatMap Prod.snd = outcomes.map .call → d.Numbers outcomes := by
  let d : SequenceDef := ⟨2 ^ 127 - 1, 1, 1, 2 ^ 127 - 1, false⟩
  have unused : (withSequence limitOptions).sequence "S" = some ⟨d, none⟩ := by
    have defined : ((withSequence limitOptions).db.state.sequences["S"]?,
        (withSequence limitOptions).db.sequences["S"]?) = (some d, none) := by decide +kernel
    obtain ⟨found, unset⟩ := Prod.mk.inj defined
    rw [System.sequence, found, unset]
    rfl
  refine ⟨d, by decide +kernel, rfl, unused, fun always => ?_⟩
  have called := @nextval_sequence literalEvaluator _ _ _ unused 0
  have twice := always _ _ [some (2 ^ 127 - 1), some (2 ^ 127 - 1)]
    (.cons (.of_nextval unused 0) (.cons (.of_nextval called 0) .nil)) rfl
  have distinct := twice.distinct
  simp [List.reduceOption] at distinct

/-- Two sessions use a sequence, with a commit and a rollback in between. -/
theorem exists_shared_use (valid : sys.Valid) {s : Sequence} (before : sys.sequence name = some s) :
    ∃ labels later, Steps (SequenceStep ev name) sys labels later ∧
      labels.map (fun label => label.1.1) =
        [nextval name 0, .commit 0, nextval name 1, .rollback 1, nextval name 0] ∧
      labels.flatMap Prod.snd = ([s.call.1, s.call.2.call.1, s.call.2.call.2.call.1]).map .call := by
  have one : (sys.act ev (nextval name 0)).2.sequence name = some s.call.2 :=
    nextval_sequence before 0
  have validOne := valid.act ev (nextval name 0)
  have committed : ((sys.act ev (nextval name 0)).2.act ev (.commit 0)).2.sequence name =
      some s.call.2 := (World.commit_sequence (validOne.world 0) name).trans one
  have two : ((((sys.act ev (nextval name 0)).2.act ev (.commit 0)).2.act ev
      (nextval name 1)).2).sequence name = some s.call.2.call.2 := nextval_sequence committed 1
  have rolledBack : (((((sys.act ev (nextval name 0)).2.act ev (.commit 0)).2.act ev
      (nextval name 1)).2).act ev (.rollback 1)).2.sequence name = some s.call.2.call.2 := two
  exact ⟨_, _, .cons (.of_nextval before 0) (.cons (.of_commit validOne one 0)
    (.cons (.of_nextval committed 1) (.cons (.of_rollback two 1)
      (.cons (.of_nextval rolledBack 0) .nil)))), rfl, rfl⟩

/-- An outcome that is a success is the success. -/
theorem eq_ok_of_isOk {outcome : Except OraError Unit} (success : outcome.isOk = true) :
    outcome = .ok () := by
  cases outcome with
  | error e => cases success
  | ok _ => rfl

/-- What CREATE SEQUENCE makes without options. -/
def plainSequence : SequenceDef := ⟨1, 1, 1, 9999999999999999999999999999, false⟩

/-- Without options a sequence is the plain one. -/
theorem plainSequence_defined : sequenceDef none [] = .ok plainSequence := by decide

/-- Creating a sequence is a step of the system. -/
theorem plainSequence_created :
    Step literalEvaluator (new fun _ => Literal.env "SCOTT") (createSequence [], .ok ())
      (withSequence []) := by
  have success : ((new fun _ => Literal.env "SCOTT").act literalEvaluator (createSequence [])).1.isOk =
      true := by decide +kernel
  exact Prod.ext (eq_ok_of_isOk success) rfl

/-- The plain sequence is not at its limit. -/
theorem plainSequence_short : ¬ plainSequence.AtLimit := by
  rintro (⟨-, max⟩ | ⟨down, -⟩)
  · exact absurd max (by decide)
  · exact absurd down (by decide)

/-- Two sessions use a sequence with the defaults, with a commit and a rollback in between. -/
theorem sequence_numbers_plain :
    ¬ plainSequence.AtLimit ∧ ∃ labels later,
      Steps (SequenceStep literalEvaluator "S") (withSequence []) labels later ∧
      labels.map (fun label => label.1.1) =
        [nextval "S" 0, .commit 0, nextval "S" 1, .rollback 1, nextval "S" 0] ∧
      labels.flatMap Prod.snd = [some 1, some 2, some 3].map .call ∧
      plainSequence.Numbers [some 1, some 2, some 3] := by
  obtain ⟨d, defined, unused⟩ := createSequence_step plainSequence_created
  rw [plainSequence_defined] at defined
  cases defined
  have valid := (reachable_runAll literalEvaluator (fun _ => Literal.env "SCOTT")
    [createSequence []]).valid
  obtain ⟨labels, later, run, requests, calls⟩ :=
    @exists_shared_use literalEvaluator (withSequence []) "S" valid _ unused
  have values : [(⟨plainSequence, none⟩ : Sequence).call.1,
      (⟨plainSequence, none⟩ : Sequence).call.2.call.1,
      (⟨plainSequence, none⟩ : Sequence).call.2.call.2.call.1] = [some 1, some 2, some 3] := by
    decide +kernel
  rw [values] at calls
  refine ⟨plainSequence_short, labels, later, run, requests, calls, ?_⟩
  exact (sequence_numbers_iff plainSequence_created (by simp) plainSequence_defined rfl).mpr
    plainSequence_short labels later _ run calls

/-! ## The number after ALTER SEQUENCE -/

/-- In every run after its creation whose ALTER SEQUENCE statements are allowed when they come, a
sequence continues where it should: with the value of a RESTART since the last number, else with
the last number plus the increment, else with START WITH. -/
theorem altered_sequence_continues {created later : System} {i : Nat}
    {utc localTime : NaiveDateTime} {options : List SequenceOption} {binds : List Value}
    {vars : Option VarLookup}
    (creates : Step ev sys (.execute i utc localTime (.statement (.createSequence name options) binds
      vars), .ok ()) created)
    (fits : ∀ o ∈ options, o.Fits) {d : SequenceDef} (defined : sequenceDef none options = .ok d)
    {labels : List (Event × List SequenceAction)}
    (run : Steps (SequenceStep ev name) created labels later)
    (fitsAll : ∀ action ∈ labels.flatMap Prod.snd, action.Fits)
    (allowed : (SequenceHistory.new d).AllowsAll (labels.flatMap Prod.snd)) :
    let h := (labels.flatMap Prod.snd).foldl SequenceHistory.after (.new d)
    later.db.state.sequences[name]? = some h.def_ ∧
      (h.def_.min ≤ h.expected → h.expected ≤ h.def_.max →
        ∀ j, ∃ st, nextSequence name h.def_ (later.world j).evalState = .ok h.expected st) := by
  intro h
  obtain ⟨d', defined', unused⟩ := createSequence_step creates
  rw [defined] at defined'
  cases defined'
  have accepted : d.Accepted := sequenceDef_accepted fits (fun o same => by cases same) defined
  obtain ⟨s, ended, acts⟩ := sequence_run run unused
  have tracks : s.Tracks h :=
    Sequence.Tracks.run acts (Sequence.tracks_new accepted) fitsAll allowed
  obtain ⟨d', found, rfl⟩ := Option.map_eq_some_iff.mp ended
  have same : d' = h.def_ := tracks.same
  refine ⟨by rw [found, same], fun low high j => ?_⟩
  have next := tracks.next_eq low high
  have within : d'.min ≤ (⟨d', later.db.sequences[name]?⟩ : Sequence).next ∧
      (⟨d', later.db.sequences[name]?⟩ : Sequence).next ≤ d'.max := by
    rw [next, same]
    exact ⟨low, high⟩
  have drawn := nextSequence_call name d' (later.world j).evalState
  rw [show (later.world j).evalState.sequences = later.db.sequences from rfl,
    Sequence.call_within within.1 within.2] at drawn
  obtain ⟨st, success, -⟩ := drawn
  rw [next, same] at success
  exact ⟨st, success⟩

/-- A session alters the sequence. -/
def alterSequence (options : List SequenceOption) : Request :=
  .sql 0 (.alterSequence "S" options)

/-- An ALTER SEQUENCE that succeeds is a step of the sequence. -/
theorem SequenceStep.of_altered {options : List SequenceOption}
    (reachable : Reachable literalEvaluator sys) (there : (sys.sequence "S").isSome = true)
    (success : (sys.act literalEvaluator (alterSequence options)).1.isOk = true) :
    SequenceStep literalEvaluator "S" sys ((alterSequence options, .ok ()), [.alter options])
      (sys.act literalEvaluator (alterSequence options)).2 := by
  obtain ⟨s, before⟩ := Option.isSome_iff_exists.mp there
  exact .of_alter reachable.valid before (Prod.ext (eq_ok_of_isOk success) rfl)

/-- NEXTVAL and then two changes of the sequence. -/
theorem exists_alters (first second : List SequenceOption)
    (once : (((withSequence []).runAll literalEvaluator [nextval "S" 0]).act literalEvaluator
      (alterSequence first)).1.isOk = true)
    (there : (((withSequence []).runAll literalEvaluator
      [nextval "S" 0, alterSequence first]).sequence "S").isSome = true)
    (twice : (((withSequence []).runAll literalEvaluator
      [nextval "S" 0, alterSequence first]).act literalEvaluator (alterSequence second)).1.isOk =
        true) :
    ∃ labels, Steps (SequenceStep literalEvaluator "S") (withSequence []) labels
        ((withSequence []).runAll literalEvaluator
          [nextval "S" 0, alterSequence first, alterSequence second]) ∧
      labels.flatMap Prod.snd = [.call (some 1), .alter first, .alter second] := by
  obtain ⟨d, defined, unused⟩ := createSequence_step plainSequence_created
  rw [plainSequence_defined] at defined
  cases defined
  have used := @nextval_sequence literalEvaluator _ _ _ unused 0
  have one : (⟨plainSequence, none⟩ : Sequence).call.1 = some 1 := by decide +kernel
  have run := Steps.cons (@SequenceStep.of_nextval literalEvaluator _ _ _ unused 0)
    (.cons (.of_altered (reachable_runAll literalEvaluator (fun _ => Literal.env "SCOTT")
        [createSequence [], nextval "S" 0]) (by rw [used]; rfl) once)
      (.cons (.of_altered (reachable_runAll literalEvaluator (fun _ => Literal.env "SCOTT")
        [createSequence [], nextval "S" 0, alterSequence first]) there twice) .nil))
  rw [one] at run
  exact ⟨_, run, rfl⟩

/-- After a RESTART at 100 the increment changes to 10, and NEXTVAL gives 109. -/
theorem altered_sequence_shifted :
    ∃ labels later, Steps (SequenceStep literalEvaluator "S") (withSequence []) labels later ∧
      (∀ action ∈ labels.flatMap Prod.snd, action.Fits) ∧
      let h := (labels.flatMap Prod.snd).foldl SequenceHistory.after (.new plainSequence)
      (h.restart = some 100 ∧ h.def_.min ≤ h.expected ∧ h.expected ≤ h.def_.max) ∧
        later.db.state.sequences["S"]? = some h.def_ ∧
        (∃ st, nextSequence "S" h.def_ (later.world 0).evalState = .ok 109 st) ∧
        ¬ ∃ st, nextSequence "S" h.def_ (later.world 0).evalState = .ok h.expected st := by
  obtain ⟨labels, run, actions⟩ := exists_alters [.restart (some 100)] [.incrementBy 10]
    (by decide +kernel) (by decide +kernel) (by decide +kernel)
  refine ⟨labels, _, run, ?_, ?_⟩
  · rw [actions]
    simp [SequenceAction.Fits, SequenceOption.Fits, Fits128]
  · intro h
    have history : h = ⟨⟨1, 10, 1, 9999999999999999999999999999, false⟩, some 1, some 100, false,
        false⟩ := by
      change (labels.flatMap Prod.snd).foldl _ _ = _
      rw [actions]
      rfl
    rw [history]
    have drawn : (match nextSequence "S" ⟨1, 10, 1, 9999999999999999999999999999, false⟩
        (((withSequence []).runAll literalEvaluator [nextval "S" 0,
          alterSequence [.restart (some 100)], alterSequence [.incrementBy 10]]).world 0).evalState with
        | .ok v _ => some v
        | .error _ _ => none) = some 109 := by decide +kernel
    split at drawn
    · next v st success =>
        cases drawn
        refine ⟨⟨rfl, by decide, by decide⟩, by decide +kernel, ⟨st, success⟩, ?_⟩
        rintro ⟨st', other⟩
        rw [success] at other
        cases other
    · cases drawn

/-- After a number has been handed out the increment changes to 10, and then the bound: the
sequence continues 10 after that number. -/
theorem altered_sequence_continues_increment :
    ∃ labels later, Steps (SequenceStep literalEvaluator "S") (withSequence []) labels later ∧
      labels.flatMap Prod.snd =
        [.call (some 1), .alter [.incrementBy 10], .alter [.maxValue (some 500)]] ∧
      ∃ d st, later.db.state.sequences["S"]? = some d ∧
        nextSequence "S" d (later.world 1).evalState = .ok 11 st := by
  obtain ⟨labels, run, actions⟩ := exists_alters [.incrementBy 10] [.maxValue (some 500)]
    (by decide +kernel) (by decide +kernel) (by decide +kernel)
  have continues := altered_sequence_continues plainSequence_created (by simp)
    plainSequence_defined run
    (by
      rw [actions]
      simp [SequenceAction.Fits, SequenceOption.Fits, Fits128])
    (by
      rw [actions]
      refine ⟨trivial, fun d _ _ _ => ⟨rfl, by decide, fun none_ => by cases none_⟩,
        fun d defined other _ => ?_, trivial⟩
      cases defined
      exact absurd rfl other)
  rw [actions] at continues
  obtain ⟨st, drawn⟩ := continues.2 (by decide) (by decide) 1
  exact ⟨labels, _, run, actions, _, st, continues.1, drawn⟩

end System

end MockOracle
