import MockOracle.Server.Connection

/-!
# What a reported cursor id designates

A client knows a cursor by the id that the end-of-call message of its EXECUTE reported. The
ledger is the client's side of a connection: for each id it was told and has not closed, the
cursor as its own requests under that id must have left it. The connection agrees with the
ledger as long as the counter of ids fits the 16-bit field in which ids are reported.
-/

namespace MockOracle.Server

open Std Semantics

variable {B : Backend}

namespace Connection

/-- The cursor that a call stores, without the rows it sends at once; `none` when it fails. -/
def Call.outcome (call : Call) (db : B.Db) : Option Cursor :=
  match perform call db with
  | .error _ => none
  | .ok progress => progress.result.map fun result =>
      if result.isQuery then (cursorOf call result).drain call.fetch else cursorOf call result

/-- The id under which the next statement text is stored. -/
def storedId (c : Connection B) (cursorId : Nat) : Nat :=
  if cursorId = 0 then c.nextCursorId else cursorId

/-- A call that fails leaves the cursors and the counter alone. -/
theorem runStatement_of_none {c : Connection B} (cursorId : Nat) {call : Call}
    (failed : call.outcome c.db = none) :
    (c.runStatement cursorId call).2.cursors = c.cursors ∧
      (c.runStatement cursorId call).2.nextCursorId = c.nextCursorId := by
  unfold Call.outcome at failed
  unfold runStatement
  split
  · exact ⟨rfl, rfl⟩
  · next progress ran =>
      rw [ran] at failed
      split
      · exact ⟨rfl, rfl⟩
      · next result found => simp [found] at failed

/-- A call that succeeds stores its cursor under one id and reports that id's last 16 bits. -/
theorem runStatement_of_some {c : Connection B} (cursorId : Nat) {call : Call} {cursor : Cursor}
    (outcome : call.outcome c.db = some cursor) :
    let ran := c.runStatement cursorId call
    (∀ id, ran.2.cursors[id]? = if id = c.storedId cursorId then some cursor else c.cursors[id]?) ∧
      ran.2.nextCursorId =
        (if cursorId = 0 then (c.nextCursorId + 1) % 2 ^ 32 else c.nextCursorId) ∧
      ran.1.endOfCall.cursorId = asU16 (c.storedId cursorId) := by
  unfold Call.outcome at outcome
  unfold runStatement
  split
  · next failed ran => simp [ran] at outcome
  · next progress ran =>
      rw [ran] at outcome
      split
      · next missing => simp [missing] at outcome
      · next result found =>
          simp only [found, Option.map_some, Option.some.injEq] at outcome
          have ids : (if cursorId = 0 then (c.nextCursorId, (c.nextCursorId + 1) % 2 ^ 32)
              else (cursorId, c.nextCursorId)) = (c.storedId cursorId,
                if cursorId = 0 then (c.nextCursorId + 1) % 2 ^ 32 else c.nextCursorId) := by
            unfold storedId
            split <;> rfl
          simp only [ids]
          split
          · next isQuery =>
              rw [if_pos isQuery] at outcome
              simp only [sendRows, ExtTreeMap.getElem?_insert_self, outcome, and_true]
              intro id
              simp only [ExtTreeMap.getElem?_insert, Std.compare_eq_iff_eq]
              by_cases same : id = c.storedId cursorId
              · simp [same]
              · simp [same, Ne.symm same]
          · next notQuery =>
              rw [if_neg notQuery] at outcome
              refine ⟨fun id => ?_, rfl, rfl⟩
              simp only [ExtTreeMap.getElem?_insert, Std.compare_eq_iff_eq, outcome]
              by_cases same : id = c.storedId cursorId
              · simp [same]
              · simp [same, Ne.symm same]

/-- A fetch takes rows from one cursor. -/
theorem sendRows_cursors (c : Connection B) (cursorId max : Nat) (describe : Option (List Column))
    (outRows : List (List Nat)) :
    let sent := (c.sendRows cursorId max describe outRows).2
    (∀ id, sent.cursors[id]? =
        if id = cursorId then c.cursors[id]?.map (·.drain max) else c.cursors[id]?) ∧
      sent.nextCursorId = c.nextCursorId := by
  unfold sendRows
  split
  · next missing =>
      refine ⟨fun id => ?_, rfl⟩
      by_cases same : id = cursorId
      · simp [same, missing]
      · simp [same]
  · next cursor found =>
      refine ⟨fun id => ?_, rfl⟩
      simp only [ExtTreeMap.getElem?_insert, Std.compare_eq_iff_eq]
      by_cases same : id = cursorId
      · simp [same, found]
      · simp [same, Ne.symm same]

/-- Closing removes exactly the named ids. -/
theorem getElem?_eraseAll {α : Type} (ids : List Nat) (cursors : ExtTreeMap Nat α) (id : Nat) :
    (ids.foldl (fun cursors id => cursors.erase id) cursors)[id]? =
      if id ∈ ids then none else cursors[id]? := by
  induction ids generalizing cursors with
  | nil => simp
  | cons first rest ih =>
      rw [List.foldl_cons, ih, ExtTreeMap.getElem?_erase]
      by_cases later : id ∈ rest
      · simp [later]
      · by_cases same : id = first
        · simp [same]
        · simp [later, same, Ne.symm same]

end Connection

open Connection

/-- The ids a client was told and has not closed, each with the cursor as the client's own
requests under that id must have left it. -/
abbrev Ledger := List (Nat × Cursor)

namespace Ledger

/-- Change the cursors known under one id. -/
def modify (ledger : Ledger) (id : Nat) (f : Cursor → Cursor) : Ledger :=
  ledger.map fun entry => if entry.1 = id then (entry.1, f entry.2) else entry

/-- The ledger after a request to a connection and its reply. -/
def follow (ledger : Ledger) (c : Connection B) : Request → Ledger
  | .execute (some sql) cursorId binds bindRows executions fetch commit =>
      let request := .execute (some sql) cursorId binds bindRows executions fetch commit
      let call : Call := ⟨sql, binds, B.bindDirections sql, bindRows, executions, fetch, commit⟩
      match call.outcome c.db, (c.serve request).1 with
      | some cursor, some reply => ledger ++ [(reply.endOfCall.cursorId, cursor)]
      | _, _ => ledger
  | .execute none cursorId binds bindRows executions fetch commit =>
      ledger.modify cursorId fun cursor =>
        ((executeCall (B := B) cursor binds bindRows executions fetch commit).outcome c.db).getD
          cursor
  | .reexecute cursorId numIters bindRows fetching commit =>
      ledger.modify cursorId fun cursor =>
        ((reexecuteCall cursor numIters bindRows fetching commit).outcome c.db).getD cursor
  | .fetch cursorId arraySize => ledger.modify cursorId (·.drain arraySize)
  | .closeCursors ids => ledger.filter fun entry => entry.1 ∉ ids

/-- Every reported id that is still open designates the cursor of the EXECUTE that reported it,
and no two open cursors have one id. -/
structure Unambiguous (ledger : Ledger) (c : Connection B) : Prop where
  designates : ∀ entry ∈ ledger, c.cursors[entry.1]? = some entry.2
  distinct : (ledger.map Prod.fst).Nodup

theorem mem_modify {ledger : Ledger} {id : Nat} {f : Cursor → Cursor} {entry : Nat × Cursor}
    (member : entry ∈ ledger.modify id f) :
    (entry ∈ ledger ∧ entry.1 ≠ id) ∨ ∃ cursor, (id, cursor) ∈ ledger ∧ entry = (id, f cursor) := by
  obtain ⟨old, among, rfl⟩ := List.mem_map.mp member
  by_cases same : old.1 = id
  · refine Or.inr ⟨old.2, ?_, ?_⟩
    · rw [← same]
      exact among
    · rw [if_pos same, same]
  · rw [if_neg same]
    exact Or.inl ⟨among, same⟩

theorem ids_modify (ledger : Ledger) (id : Nat) (f : Cursor → Cursor) :
    (ledger.modify id f).map Prod.fst = ledger.map Prod.fst := by
  rw [modify, List.map_map]
  refine List.map_congr_left fun entry _ => ?_
  simp only [Function.comp_apply]
  split <;> rfl

/-- Changing one cursor of a connection and the ledger's in the same way keeps them in
agreement. -/
theorem Unambiguous.modify {ledger : Ledger} {c c' : Connection B} {id : Nat}
    (agrees : ledger.Unambiguous c) (f : Cursor → Cursor)
    (here : ∀ cursor, c.cursors[id]? = some cursor → c'.cursors[id]? = some (f cursor))
    (elsewhere : ∀ other, other ≠ id → c'.cursors[other]? = c.cursors[other]?) :
    (ledger.modify id f).Unambiguous c' := by
  constructor
  · intro entry member
    rcases mem_modify member with ⟨among, other⟩ | ⟨cursor, among, rfl⟩
    · rw [elsewhere _ other]
      exact agrees.designates entry among
    · exact here cursor (agrees.designates _ among)
  · rw [ids_modify]
    exact agrees.distinct

end Ledger

/-- A connection, and what its client knows of its cursors. -/
abbrev Exchange (B : Backend) := Connection B × Ledger

/-- Serve one request. -/
def Exchange.Step (before : Exchange B) (request : Request) (after : Exchange B) : Prop :=
  after = ((before.1.serve request).2, before.2.follow before.1 request)

/-- The counter of ids fits the field in which ids are reported when a statement text comes. -/
def IdFits (before : Exchange B) : Request → Prop
  | .execute (some _) _ _ _ _ _ _ => before.1.nextCursorId < 2 ^ 16
  | _ => True

/-- What holds between the requests of a connection whose ids fit. -/
structure Exchange.Inv (e : Exchange B) : Prop where
  agrees : e.2.Unambiguous e.1
  issued : ∀ id cursor, e.1.cursors[id]? = some cursor → 1 ≤ id ∧ id < e.1.nextCursorId
  started : 1 ≤ e.1.nextCursorId

theorem Exchange.inv_new (db : B.Db) : Exchange.Inv (Connection.new db, []) where
  agrees := ⟨by simp, by simp⟩
  issued id cursor found := by simp [Connection.new] at found
  started := Nat.le_refl 1

namespace Exchange.Inv

variable {c : Connection B} {ledger : Ledger}

/-- A new statement text gets an id that no open cursor has, and is told it in full. -/
theorem execute (inv : Inv (c, ledger)) (fits : c.nextCursorId < 2 ^ 16) {call : Call}
    {cursor : Cursor} (outcome : call.outcome c.db = some cursor) :
    Inv ((c.runStatement 0 call).2,
      ledger ++ [((c.runStatement 0 call).1.endOfCall.cursorId, cursor)]) := by
  obtain ⟨stored, next, reported⟩ := runStatement_of_some 0 outcome
  have id : (c.runStatement 0 call).1.endOfCall.cursorId = c.nextCursorId := by
    rw [reported]
    exact Nat.mod_eq_of_lt fits
  have counter : (c.runStatement 0 call).2.nextCursorId = c.nextCursorId + 1 := by
    rw [next, if_pos rfl]
    exact Nat.mod_eq_of_lt (by omega)
  have older : ∀ entry ∈ ledger, entry.1 < c.nextCursorId := fun entry member =>
    (inv.issued _ _ (inv.agrees.designates entry member)).2
  rw [id]
  refine ⟨⟨?_, ?_⟩, ?_, ?_⟩
  · intro entry member
    rw [stored]
    rcases List.mem_append.mp member with old | new
    · have := older entry old
      rw [if_neg (show entry.1 ≠ c.storedId 0 from this.ne)]
      exact inv.agrees.designates entry old
    · rw [List.mem_singleton.mp new]
      exact if_pos rfl
  · rw [List.map_append, List.map_singleton, List.nodup_append]
    refine ⟨inv.agrees.distinct, List.nodup_singleton _, ?_⟩
    intro old member new same
    obtain ⟨entry, among, rfl⟩ := List.mem_map.mp member
    rw [List.mem_singleton.mp same]
    exact (older entry among).ne
  · intro id' cursor' found
    rw [counter]
    rw [stored] at found
    split at found
    · next same =>
        have started := inv.started
        simp only [Connection.storedId, if_true] at same
        dsimp only at started
        omega
    · obtain ⟨low, high⟩ := inv.issued id' cursor' found
      exact ⟨low, Nat.lt_succ_of_lt high⟩
  · rw [counter]
    exact Nat.le_add_left _ _

/-- A call that fails leaves the agreement alone. -/
theorem failed (inv : Inv (c, ledger)) (cursorId : Nat) {call : Call}
    (outcome : call.outcome c.db = none) : Inv ((c.runStatement cursorId call).2, ledger) := by
  obtain ⟨same, counter⟩ := runStatement_of_none cursorId outcome
  refine ⟨⟨?_, inv.agrees.distinct⟩, ?_, ?_⟩
  · dsimp only
    rw [same]
    exact inv.agrees.designates
  · dsimp only
    rw [same, counter]
    exact inv.issued
  · dsimp only
    rw [counter]
    exact inv.started

/-- Executing a cursor's own statement again changes that cursor and no other. -/
theorem rerun (inv : Inv (c, ledger)) (call : Cursor → Call) {cursorId : Nat} {cursor : Cursor}
    (found : c.cursors[cursorId]? = some cursor) :
    Inv ((c.runStatement cursorId (call cursor)).2,
      ledger.modify cursorId fun cursor => ((call cursor).outcome c.db).getD cursor) := by
  have positive : cursorId ≠ 0 := by
    have := (inv.issued _ _ found).1
    omega
  have here : ∀ other, c.cursors[cursorId]? = some other → other = cursor := fun other same =>
    Option.some.inj (same.symm.trans found)
  cases outcome : (call cursor).outcome c.db with
  | none =>
      have kept := inv.failed cursorId outcome
      refine ⟨kept.agrees.modify (fun cursor => ((call cursor).outcome c.db).getD cursor)
        (fun other found' => ?_) fun _ _ => rfl, kept.issued, kept.started⟩
      rw [(runStatement_of_none cursorId outcome).1] at found' ⊢
      rw [here other found', outcome]
      exact found
  | some fresh =>
      obtain ⟨stored, counter, -⟩ := runStatement_of_some cursorId outcome
      rw [if_neg positive] at counter
      have storedId : c.storedId cursorId = cursorId := if_neg positive
      rw [storedId] at stored
      refine ⟨inv.agrees.modify (fun cursor => ((call cursor).outcome c.db).getD cursor)
        (fun other found' => ?_) fun other different => ?_, ?_, ?_⟩
      · rw [here other found', outcome, stored, if_pos rfl]
        rfl
      · rw [stored, if_neg different]
      · intro id' cursor' found'
        dsimp only at found' ⊢
        rw [counter]
        rw [stored] at found'
        split at found'
        · next same =>
            rw [same]
            exact inv.issued _ _ found
        · exact inv.issued _ _ found'
      · dsimp only
        rw [counter]
        exact inv.started

/-- A request to a cursor that is not open changes nothing. -/
theorem missing (inv : Inv (c, ledger)) {cursorId : Nat} (f : Cursor → Cursor)
    (absent : c.cursors[cursorId]? = none) : Inv (c, ledger.modify cursorId f) :=
  ⟨inv.agrees.modify f (fun _ found => by simp [absent] at found) fun _ _ => rfl, inv.issued,
    inv.started⟩

/-- A fetch takes rows from the cursor of its id. -/
theorem fetch (inv : Inv (c, ledger)) (cursorId max : Nat) :
    Inv ((c.sendRows cursorId max none []).2, ledger.modify cursorId (·.drain max)) := by
  obtain ⟨sent, counter⟩ := c.sendRows_cursors cursorId max none []
  refine ⟨inv.agrees.modify (·.drain max) (fun cursor found => ?_) fun other different => ?_,
    ?_, ?_⟩
  · rw [sent, if_pos rfl, found]
    rfl
  · rw [sent, if_neg different]
  · intro id cursor found
    dsimp only at found ⊢
    rw [counter]
    rw [sent] at found
    split at found
    · obtain ⟨old, found', -⟩ := Option.map_eq_some_iff.mp found
      exact inv.issued _ _ found'
    · exact inv.issued _ _ found
  · dsimp only
    rw [counter]
    exact inv.started

/-- Closing forgets ids on both sides. -/
theorem close (inv : Inv (c, ledger)) (ids : List Nat) :
    Inv ({ c with cursors := ids.foldl (fun cursors id => cursors.erase id) c.cursors },
      ledger.filter fun entry => entry.1 ∉ ids) := by
  refine ⟨⟨?_, ?_⟩, ?_, inv.started⟩
  · intro entry member
    obtain ⟨among, open_⟩ := List.mem_filter.mp member
    rw [getElem?_eraseAll, if_neg (of_decide_eq_true open_)]
    exact inv.agrees.designates entry among
  · exact inv.agrees.distinct.sublist (List.filter_sublist.map _)
  · intro id cursor found
    rw [getElem?_eraseAll] at found
    split at found
    · cases found
    · exact inv.issued _ _ found

/-- One request keeps the connection and the client in agreement while ids fit. -/
theorem step {e e' : Exchange B} {request : Request} (inv : Inv e) (fits : IdFits e request)
    (served : e.Step request e') : Inv e' := by
  obtain ⟨c, ledger⟩ := e
  subst served
  cases request with
  | execute sql cursorId binds bindRows executions fetch commit =>
      cases sql with
      | some sql =>
          dsimp only [Ledger.follow, Connection.serve]
          split
          · next cursor reply outcome same =>
              cases same
              exact inv.execute fits outcome
          · next failing =>
              refine inv.failed 0 (Option.eq_none_iff_forall_ne_some.mpr fun cursor outcome => ?_)
              exact failing _ _ outcome rfl
      | none =>
          dsimp only [Ledger.follow, Connection.serve]
          split
          · next absent => exact inv.missing _ absent
          · next cursor found =>
              exact inv.rerun
                (fun cursor => executeCall (B := B) cursor binds bindRows executions fetch commit)
                found
  | reexecute cursorId numIters bindRows fetching commit =>
      dsimp only [Ledger.follow, Connection.serve]
      split
      · next absent => exact inv.missing _ absent
      · next cursor found =>
          exact inv.rerun
            (fun cursor => reexecuteCall cursor numIters bindRows fetching commit) found
  | fetch cursorId arraySize => exact inv.fetch cursorId arraySize
  | closeCursors ids => exact inv.close ids

end Exchange.Inv

/-- In every run in which the counter fits the field, at every EXECUTE of a text, each id that a
successful EXECUTE reported and the client has not closed designates the cursor of that
EXECUTE, and no two open cursors are reported under one id. -/
theorem cursor_ids_unambiguous (db : B.Db) {requests : List Request} {c : Connection B}
    {ledger : Ledger}
    (run : Steps (fun e request e' => Exchange.Step e request e' ∧ IdFits e request)
      (Connection.new db, []) requests (c, ledger)) :
    ledger.Unambiguous c :=
  (run.preserves (fun inv taken => inv.step taken.2 taken.1) (Exchange.inv_new db)).agrees

section Exhausted

def beginEnd : Request := .execute (some "BEGIN NULL; END;") 0 [] [] 1 0 false

/-- The cursor that each of these requests stores. -/
def quietCursor : Cursor := ⟨"BEGIN NULL; END;", [], [], [], [], 0⟩

/-- The client's ledger after `n` statement texts. -/
def toldIds (n : Nat) : Ledger := (List.range n).map fun i => (asU16 (i + 1), quietCursor)

/-- Each text gets the next id, in 16 bits. -/
theorem quiet_step (n : Nat) (small : n + 2 < 2 ^ 32) {c : Connection quiet}
    (counter : c.nextCursorId = n + 1) :
    ∃ c', Exchange.Step (c, toldIds n) beginEnd (c', toldIds (n + 1)) ∧
      c'.nextCursorId = n + 2 := by
  let call : Call := ⟨"BEGIN NULL; END;", [], [], [], 1, 0, false⟩
  have outcome : call.outcome c.db = some quietCursor := rfl
  obtain ⟨-, next, reported⟩ := runStatement_of_some 0 outcome
  have stored : c.storedId 0 = n + 1 := counter
  refine ⟨(c.runStatement 0 call).2, ?_, ?_⟩
  · rw [stored] at reported
    have grown : toldIds (n + 1) =
        toldIds n ++ [((c.runStatement 0 call).1.endOfCall.cursorId, quietCursor)] := by
      rw [reported, toldIds, List.range_succ, List.map_append]
      rfl
    rw [grown]
    rfl
  · rw [next, if_pos rfl, counter]
    exact Nat.mod_eq_of_lt small

/-- A long run of statement texts. -/
theorem quiet_run (n : Nat) (small : n + 1 < 2 ^ 32) :
    ∃ c : Connection quiet,
      Steps Exchange.Step (Connection.new (B := quiet) (), []) (List.replicate n beginEnd)
        (c, toldIds n) ∧ c.nextCursorId = n + 1 := by
  induction n with
  | zero => exact ⟨_, .nil, rfl⟩
  | succ n ih =>
      obtain ⟨c, run, counter⟩ := ih (by omega)
      obtain ⟨c', taken, counter'⟩ := quiet_step n small counter
      refine ⟨c', ?_, counter'⟩
      rw [List.replicate_succ']
      exact run.append (.cons taken .nil)

/-- The first id that does not fit the field comes back as an id that is still open. -/
theorem cursor_ids_repeat :
    ¬ ∀ (requests : List Request) (c : Connection quiet) (ledger : Ledger),
      Steps Exchange.Step (Connection.new (B := quiet) (), []) requests (c, ledger) →
        ledger.Unambiguous c := by
  intro always
  obtain ⟨c, run, -⟩ := quiet_run (2 ^ 16 + 1) (by norm_num)
  have distinct := (always _ c _ run).distinct
  have ids : (toldIds (2 ^ 16 + 1)).map Prod.fst =
      (List.range (2 ^ 16 + 1)).map fun i => asU16 (i + 1) := by
    rw [toldIds, List.map_map]
    rfl
  rw [ids] at distinct
  have same := List.inj_on_of_nodup_map distinct (x := 0) (by simp) (y := 2 ^ 16) (by simp)
    (by norm_num [asU16])
  norm_num at same

/-- Two statement texts under two ids. -/
theorem cursor_ids_unambiguous_twice :
    ∃ c : Connection quiet, (toldIds 2).Unambiguous c := by
  obtain ⟨first, executed, counter⟩ :=
    quiet_step 0 (by norm_num) (c := Connection.new (B := quiet) ()) rfl
  obtain ⟨second, executed', -⟩ := quiet_step 1 (by norm_num) counter
  refine ⟨second, cursor_ids_unambiguous (B := quiet) () (.cons ⟨executed, ?_⟩
    (.cons ⟨executed', ?_⟩ .nil))⟩
  · show 1 < 2 ^ 16
    norm_num
  · show first.nextCursorId < 2 ^ 16
    rw [counter]
    norm_num

end Exhausted

end MockOracle.Server
