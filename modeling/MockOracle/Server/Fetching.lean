import MockOracle.Server.CursorIds

/-!
# Every row is sent once

For each open cursor the books hold the rows of its last successful execution and the rows
sent since. What the cursor still has to send completes the rows sent to the result, whatever
other cursors are asked in between, so that nothing is lost, repeated or sent out of order.
-/

namespace MockOracle.Server

open Std Semantics

variable {B : Backend}

/-- The result of a cursor's last successful execution, and what was sent of it. -/
structure Account where
  result : List Row
  sent : List Row
  deriving DecidableEq

/-- The accounts of the open cursors, by id. -/
abbrev Books := ExtTreeMap Nat Account

namespace Connection

/-- The result of a call that succeeds. -/
def Call.result (call : Call) (db : B.Db) : Option QueryResult :=
  match perform call db with
  | .error _ => none
  | .ok progress => progress.result

/-- The call a request makes, with the cursor id it is for, zero for a new cursor. -/
def target (c : Connection B) : Request → Option (Nat × Call)
  | .execute (some sql) _ binds bindRows executions fetch commit =>
      some (0, ⟨sql, binds, B.bindDirections sql, bindRows, executions, fetch, commit⟩)
  | .execute none cursorId binds bindRows executions fetch commit =>
      (c.cursors[cursorId]?).map fun cursor =>
        (cursorId, executeCall (B := B) cursor binds bindRows executions fetch commit)
  | .reexecute cursorId numIters bindRows fetching commit =>
      (c.cursors[cursorId]?).map fun cursor =>
        (cursorId, reexecuteCall cursor numIters bindRows fetching commit)
  | .fetch _ _ | .closeCursors _ => none

/-- The rows a request was answered with. -/
def sentRows (c : Connection B) (request : Request) : List Row :=
  ((c.serve request).1.map Reply.rows).getD []

/-- The open cursors that a request is about. An EXECUTE of a text is about none. -/
def named : Request → List Nat
  | .execute (some _) _ _ _ _ _ _ => []
  | .execute none cursorId _ _ _ _ _ | .reexecute cursorId _ _ _ _ | .fetch cursorId _ => [cursorId]
  | .closeCursors ids => ids

/-- A request that aims at a statement runs it. -/
theorem serve_of_target {c : Connection B} {request : Request} {cursorId : Nat} {call : Call}
    (found : c.target request = some (cursorId, call)) :
    c.serve request =
      (some (c.runStatement cursorId call).1, (c.runStatement cursorId call).2) := by
  cases request with
  | execute sql id binds bindRows executions fetch commit =>
      cases sql with
      | some sql =>
          cases found
          rfl
      | none =>
          obtain ⟨cursor, open_, equal⟩ := Option.map_eq_some_iff.mp found
          cases equal
          simp only [serve, open_]
  | reexecute id numIters bindRows fetching commit =>
      obtain ⟨cursor, open_, equal⟩ := Option.map_eq_some_iff.mp found
      cases equal
      simp only [serve, open_]
  | fetch | closeCursors => cases found

/-- The cursor a call leaves, from its result. -/
def Call.left (call : Call) (result : QueryResult) : Cursor :=
  if result.isQuery then (cursorOf call result).drain call.fetch else cursorOf call result

/-- A call with a result leaves it on the cursor. -/
theorem Call.outcome_of_result {call : Call} {db : B.Db} {result : QueryResult}
    (success : call.result db = some result) : call.outcome db = some (call.left result) := by
  unfold Call.result at success
  unfold Call.outcome
  cases ran : perform call db with
  | error failed => simp [ran] at success
  | ok progress =>
      simp only [ran] at success ⊢
      rw [success]
      rfl

/-- A call without a result has no outcome. -/
theorem Call.outcome_of_no_result {call : Call} {db : B.Db} (failure : call.result db = none) :
    call.outcome db = none := by
  unfold Call.result at failure
  unfold Call.outcome
  cases ran : perform call db with
  | error failed => rfl
  | ok progress =>
      simp only [ran] at failure ⊢
      rw [failure]
      rfl

/-- The rows a fetch of an open cursor is answered with. -/
theorem rows_fetch (c : Connection B) (cursorId max : Nat) (cursor : Cursor)
    (open_ : c.cursors[cursorId]? = some cursor) :
    c.sentRows (.fetch cursorId max) = cursor.sent max := by
  simp only [sentRows, serve, sendRows, open_, Option.map_some, Option.getD_some]

/-- What the reply to a call that succeeds says. -/
theorem reply_of_result {c : Connection B} (cursorId : Nat) {call : Call} {result : QueryResult}
    (success : call.result c.db = some result) :
    let reply := (c.runStatement cursorId call).1
    (result.isQuery = true → reply.rows = (cursorOf call result).sent call.fetch ∧
      reply.endOfCall.rowCount = (call.left result).fetched ∧
      reply.endOfCall.error = if (call.left result).pending.isEmpty then some noDataFound else none) ∧
    (result.isQuery = false → reply.rows = []) := by
  unfold Call.result at success
  split at success
  · cases success
  · next progress ran =>
      unfold runStatement
      simp only [ran, success]
      refine ⟨fun isQuery => ?_, fun notQuery => ?_⟩
      · have left : call.left result = (cursorOf call result).drain call.fetch := if_pos isQuery
        simp only [isQuery, if_true, sendRows, ExtTreeMap.getElem?_insert_self, left]
        exact ⟨trivial, trivial, trivial⟩
      · simp [notQuery]

end Connection

namespace Cursor

/-- What is sent and what is left make up what was pending. -/
theorem sent_append_drain (cursor : Cursor) (max : Nat) :
    cursor.sent max ++ (cursor.drain max).pending = cursor.pending := List.take_append_drop _ _

/-- What is sent counts as fetched. -/
theorem fetched_drain (cursor : Cursor) (max : Nat) :
    (cursor.drain max).fetched = cursor.fetched + (cursor.sent max).length := by
  simp [drain, sent]

end Cursor

open Connection

/-- The books after a request: a successful execution opens the account of its cursor anew, and a
fetch adds the rows it was answered with. -/
def Books.record (books : Books) (c : Connection B) (request : Request) : Books :=
  match c.target request with
  | some (_, call) =>
      match call.result c.db, (c.serve request).1 with
      | some result, some reply => books.insert reply.endOfCall.cursorId ⟨result.rows, reply.rows⟩
      | _, _ => books
  | none =>
      match request with
      | .fetch cursorId _ =>
          match books[cursorId]? with
          | some account =>
              books.insert cursorId ⟨account.result, account.sent ++ c.sentRows request⟩
          | none => books
      | .closeCursors ids => ids.foldl (fun books id => books.erase id) books
      | _ => books

/-- What was sent and what is pending make up the result, and the count is right. -/
structure Account.Matches (account : Account) (cursor : Cursor) : Prop where
  complete : account.sent ++ cursor.pending = account.result
  counted : cursor.fetched = account.sent.length

/-- Serve one request, keeping the books. -/
def Booked.Step (before : Connection B × Books) (request : Request) (after : Connection B × Books) :
    Prop :=
  after = ((before.1.serve request).2, before.2.record before.1 request)

/-- A new cursor gets an id that fits the field in which ids are reported. -/
def FitsField (before : Connection B × Books) : Request → Prop
  | .execute (some _) _ _ _ _ _ _ => before.1.nextCursorId < 2 ^ 16
  | _ => True

/-- The books are right, and ids are handed out in order. -/
structure Booked (e : Connection B × Books) : Prop where
  accounts : ∀ id : Nat, Option.Rel Account.Matches e.2[id]? e.1.cursors[id]?
  issued : ∀ (id : Nat) cursor, e.1.cursors[id]? = some cursor → 1 ≤ id ∧ id < e.1.nextCursorId
  started : 1 ≤ e.1.nextCursorId
  fits : e.1.nextCursorId ≤ 2 ^ 16

namespace Booked

variable {c : Connection B} {books : Books}

/-- The books of a new connection are right. -/
theorem new (db : B.Db) : Booked (Connection.new db, (∅ : Books)) where
  accounts id := by
    simp only [Connection.new, ExtTreeMap.getElem?_empty]
    exact .none
  issued id cursor found := by simp [Connection.new] at found
  started := Nat.le_refl 1
  fits := by norm_num [Connection.new]

/-- The account and the cursor of a fresh execution. -/
theorem matches_left {cursorId : Nat} {call : Call} {result : QueryResult}
    (success : call.result c.db = some result) :
    Account.Matches ⟨result.rows, (c.runStatement cursorId call).1.rows⟩ (call.left result) := by
  obtain ⟨query, other⟩ := reply_of_result cursorId success
  cases isQuery : result.isQuery with
  | true =>
      have left : call.left result = (cursorOf call result).drain call.fetch := if_pos isQuery
      obtain ⟨rows, _, _⟩ := query isQuery
      rw [left, rows]
      exact ⟨Cursor.sent_append_drain _ _, by simp [Cursor.fetched_drain, cursorOf]⟩
  | false =>
      have left : call.left result = cursorOf call result := if_neg (by simp [isQuery])
      rw [left, other isQuery]
      exact ⟨rfl, rfl⟩

/-- The books stay right when a call fails. -/
theorem failed (booked : Booked (c, books)) (cursorId : Nat) {call : Call}
    (failure : call.result c.db = none) : Booked ((c.runStatement cursorId call).2, books) := by
  obtain ⟨same, counter⟩ := runStatement_of_none cursorId (Call.outcome_of_no_result failure)
  refine ⟨?_, ?_, ?_, ?_⟩ <;> dsimp only <;> simp only [same, counter]
  · exact booked.accounts
  · exact booked.issued
  · exact booked.started
  · exact booked.fits

/-- A successful execution opens one account. -/
theorem executed (booked : Booked (c, books)) {cursorId : Nat} {call : Call} {result : QueryResult}
    (success : call.result c.db = some result)
    (known : cursorId = 0 ∧ c.nextCursorId < 2 ^ 16 ∨ 1 ≤ cursorId ∧ cursorId < c.nextCursorId) :
    Booked ((c.runStatement cursorId call).2, books.insert
      (c.runStatement cursorId call).1.endOfCall.cursorId
      ⟨result.rows, (c.runStatement cursorId call).1.rows⟩) := by
  obtain ⟨stored, counter, reported⟩ :=
    runStatement_of_some cursorId (Call.outcome_of_result success)
  have started := booked.started
  have fits := booked.fits
  dsimp only at started fits
  have small : c.storedId cursorId < 2 ^ 16 := by
    unfold storedId
    split <;> omega
  have id : (c.runStatement cursorId call).1.endOfCall.cursorId = c.storedId cursorId := by
    rw [reported]
    exact Nat.mod_eq_of_lt small
  have next : (c.runStatement cursorId call).2.nextCursorId =
      if cursorId = 0 then c.nextCursorId + 1 else c.nextCursorId := by
    rw [counter]
    split
    · exact Nat.mod_eq_of_lt (by omega)
    · rfl
  have positive : 1 ≤ c.storedId cursorId ∧ c.storedId cursorId <
      (c.runStatement cursorId call).2.nextCursorId := by
    rw [next]
    unfold storedId
    split <;> omega
  refine ⟨fun other => ?_, fun other cursor found => ?_, ?_, ?_⟩
  · dsimp only
    rw [id, stored, ExtTreeMap.getElem?_insert]
    simp only [Std.compare_eq_iff_eq]
    by_cases same : other = c.storedId cursorId
    · rw [if_pos same, if_pos same.symm]
      exact .some (matches_left success)
    · rw [if_neg same, if_neg (Ne.symm same)]
      exact booked.accounts other
  · dsimp only at found ⊢
    rw [stored] at found
    split at found
    · next same =>
        rw [same]
        exact positive
    · have older := booked.issued other cursor found
      dsimp only at older
      rw [next]
      split <;> omega
  · dsimp only
    omega
  · dsimp only
    rw [next]
    split <;> omega

/-- A fetch adds its rows to the account of its cursor. -/
theorem fetched (booked : Booked (c, books)) (cursorId max : Nat) :
    Booked ((c.serve (.fetch cursorId max)).2, books.record c (.fetch cursorId max)) := by
  obtain ⟨sent, counter⟩ := c.sendRows_cursors cursorId max none []
  have rows := c.rows_fetch cursorId max
  refine ⟨fun id => ?_, fun id cursor found => ?_, ?_, ?_⟩
  · have here := booked.accounts cursorId
    have there := booked.accounts id
    dsimp only [serve, Books.record, target] at here there ⊢
    rw [sent]
    cases account : books[cursorId]? with
    | none =>
        rw [account] at here
        dsimp only
        split
        · next same =>
            subst same
            rw [account]
            cases open_ : c.cursors[id]? with
            | none => exact .none
            | some cursor =>
                rw [open_] at here
                cases here
        · exact there
    | some a =>
        rw [account] at here
        cases open_ : c.cursors[cursorId]? with
        | none =>
            rw [open_] at here
            cases here
        | some cursor =>
            rw [open_] at here
            obtain ⟨complete, counted⟩ := Option.rel_some_some.mp here
            dsimp only
            rw [ExtTreeMap.getElem?_insert]
            simp only [Std.compare_eq_iff_eq]
            by_cases same : id = cursorId
            · subst same
              rw [if_pos rfl, if_pos rfl, open_, rows cursor open_]
              refine .some ⟨?_, ?_⟩
              · rw [List.append_assoc, Cursor.sent_append_drain, complete]
              · rw [Cursor.fetched_drain, counted, List.length_append]
            · rw [if_neg same, if_neg (Ne.symm same)]
              exact there
  · dsimp only [serve] at found ⊢
    rw [counter]
    rw [sent] at found
    split at found
    · obtain ⟨old, found', -⟩ := Option.map_eq_some_iff.mp found
      exact booked.issued _ _ found'
    · exact booked.issued _ _ found
  · dsimp only [serve]
    rw [counter]
    exact booked.started
  · dsimp only [serve]
    rw [counter]
    exact booked.fits

/-- The books stay right when cursors are closed. -/
theorem closed (booked : Booked (c, books)) (ids : List Nat) :
    Booked ((c.serve (.closeCursors ids)).2, books.record c (.closeCursors ids)) := by
  refine ⟨fun id => ?_, fun id cursor found => ?_, booked.started, booked.fits⟩
  · show Option.Rel _ (ids.foldl (fun books id => books.erase id) books)[id]?
      (ids.foldl (fun cursors id => cursors.erase id) c.cursors)[id]?
    rw [getElem?_eraseAll, getElem?_eraseAll]
    split
    · exact .none
    · exact booked.accounts id
  · simp only [serve, getElem?_eraseAll] at found
    split at found
    · cases found
    · exact booked.issued id cursor found

/-- One request keeps the books right while ids fit. -/
theorem step {e e' : Connection B × Books} {request : Request} (booked : Booked e)
    (fits : FitsField e request) (served : Booked.Step e request e') : Booked e' := by
  obtain ⟨c, books⟩ := e
  subst served
  dsimp only
  cases found : c.target request with
  | some call =>
      obtain ⟨cursorId, call⟩ := call
      have known : cursorId = 0 ∧ c.nextCursorId < 2 ^ 16 ∨
          1 ≤ cursorId ∧ cursorId < c.nextCursorId := by
        cases request with
        | execute sql id =>
            cases sql with
            | some sql =>
                cases found
                exact Or.inl ⟨rfl, fits⟩
            | none =>
                obtain ⟨cursor, open_, equal⟩ := Option.map_eq_some_iff.mp found
                cases equal
                exact Or.inr (booked.issued _ cursor open_)
        | reexecute id =>
            obtain ⟨cursor, open_, equal⟩ := Option.map_eq_some_iff.mp found
            cases equal
            exact Or.inr (booked.issued _ cursor open_)
        | fetch | closeCursors => cases found
      simp only [Books.record, found, serve_of_target found]
      cases success : call.result c.db with
      | some result => exact booked.executed success known
      | none => exact booked.failed cursorId success
  | none =>
      cases request with
      | execute sql id =>
          cases sql with
          | some sql => cases found
          | none =>
              simp only [Books.record, found, serve, Option.map_eq_none_iff.mp found]
              exact booked
      | reexecute id =>
          simp only [Books.record, found, serve, Option.map_eq_none_iff.mp found]
          exact booked
      | fetch cursorId max => exact booked.fetched cursorId max
      | closeCursors ids => exact booked.closed ids

/-- A cursor that stays open is not the one a request names. -/
theorem distinct_of_named (booked : Booked (c, books)) {id cursorId : Nat} {cursor : Cursor}
    (open_ : c.cursors[cursorId]? = some cursor) (other : id ∉ [cursorId]) :
    id ≠ c.storedId cursorId := by
  have positive := (booked.issued cursorId cursor open_).1
  rw [storedId, if_neg (by omega)]
  simpa using other

/-- A request leaves every open cursor alone that it does not name. -/
theorem frame (booked : Booked (c, books)) (request : Request)
    {id : Nat} {cursor : Cursor} (open_ : c.cursors[id]? = some cursor) (other : id ∉ named request) :
    (c.serve request).2.cursors[id]? = some cursor := by
  cases found : c.target request with
  | some call =>
      obtain ⟨cursorId, call⟩ := call
      have elsewhere : id ≠ c.storedId cursorId := by
        cases request with
        | execute sql target =>
            cases sql with
            | some sql =>
                cases found
                exact (booked.issued _ _ open_).2.ne
            | none =>
                obtain ⟨_, there, equal⟩ := Option.map_eq_some_iff.mp found
                cases equal
                exact distinct_of_named booked there other
        | reexecute target =>
            obtain ⟨_, there, equal⟩ := Option.map_eq_some_iff.mp found
            cases equal
            exact distinct_of_named booked there other
        | fetch | closeCursors => cases found
      rw [serve_of_target found]
      cases success : call.result c.db with
      | some result =>
          rw [(runStatement_of_some cursorId (Call.outcome_of_result success)).1, if_neg elsewhere]
          exact open_
      | none =>
          rw [(runStatement_of_none cursorId (Call.outcome_of_no_result success)).1]
          exact open_
  | none =>
      cases request with
      | execute sql target =>
          cases sql with
          | some sql => cases found
          | none =>
              simp only [serve, Option.map_eq_none_iff.mp found]
              exact open_
      | reexecute target =>
          simp only [serve, Option.map_eq_none_iff.mp found]
          exact open_
      | fetch cursorId max =>
          dsimp only [serve]
          rw [(c.sendRows_cursors cursorId max none []).1, if_neg (by simpa [named] using other)]
          exact open_
      | closeCursors ids =>
          dsimp only [serve]
          rw [getElem?_eraseAll, if_neg (show id ∉ ids from other)]
          exact open_

end Booked

/-- Nothing is pending exactly when everything is sent. -/
theorem signal_eq {sent pending result : List Row} (complete : sent ++ pending = result) :
    (if pending.isEmpty then some noDataFound else none) =
      if sent = result then some noDataFound else none := by
  subst complete
  cases pending with
  | nil => simp
  | cons row rest => simp

/-- In every run whose ids fit the field, each open cursor has sent a prefix of the result of its last
successful execution and counted it, and has the rest to send; the reply that sends rows signals
the end of the data exactly when all rows of the result are sent; and no request touches an
open cursor that it does not name. -/
theorem rows_sent_once (db : B.Db) {requests : List Request} {c : Connection B} {books : Books}
    (run : Steps (fun e request e' => Booked.Step e request e' ∧ FitsField e request)
      (Connection.new db, (∅ : Books)) requests (c, books)) :
    (∀ id : Nat, Option.Rel Account.Matches books[id]? c.cursors[id]?) ∧
    (∀ (id : Nat) max account, books[id]? = some account → ∃ reply,
      (c.serve (.fetch id max)).1 = some reply ∧
      reply.endOfCall.rowCount = (account.sent ++ reply.rows).length ∧
      reply.endOfCall.error =
        if account.sent ++ reply.rows = account.result then some noDataFound else none) ∧
    (∀ request cursorId call result, c.target request = some (cursorId, call) →
      call.result c.db = some result → result.isQuery = true → ∃ reply,
      (c.serve request).1 = some reply ∧ reply.endOfCall.rowCount = reply.rows.length ∧
      reply.endOfCall.error = if reply.rows = result.rows then some noDataFound else none) ∧
    ∀ request (id : Nat) cursor, c.cursors[id]? = some cursor →
      id ∉ named request → (c.serve request).2.cursors[id]? = some cursor := by
  have booked : Booked (c, books) :=
    run.preserves (fun booked taken => booked.step taken.2 taken.1) (Booked.new db)
  refine ⟨booked.accounts, fun id max account listed => ?_,
    fun request cursorId call result found success isQuery => ?_,
    fun request id cursor open_ other => booked.frame request open_ other⟩
  · have here := booked.accounts id
    dsimp only at here
    rw [listed] at here
    cases open_ : c.cursors[id]? with
    | none =>
        rw [open_] at here
        cases here
    | some cursor =>
        rw [open_] at here
        obtain ⟨complete, counted⟩ := Option.rel_some_some.mp here
        simp only [serve, sendRows, open_]
        refine ⟨_, rfl, ?_, ?_⟩
        · rw [Cursor.fetched_drain, counted, List.length_append]
        · exact signal_eq (by rw [List.append_assoc, Cursor.sent_append_drain, complete])
  · obtain ⟨rows, count, error⟩ := (reply_of_result cursorId success).1 isQuery
    have fresh := @Booked.matches_left B c cursorId call result success
    rw [serve_of_target found]
    refine ⟨_, rfl, ?_, ?_⟩
    · rw [count]
      exact fresh.counted
    · rw [error]
      exact signal_eq fresh.complete

section Threes

/-- A database whose statements all return the rows 1, 2 and 3. -/
def threes : Backend where
  Db := Unit
  execute _ _ _ :=
    (.ok ⟨true, [⟨"N", .number 0 (-127)⟩], [[.ofInt 1], [.ofInt 2], [.ofInt 3]], 0, []⟩, ())
  commit _ := (.ok (), ())
  savepoint _ := 0
  rollbackTo _ _ := ()
  inTransaction _ := false
  bindDirections _ := []
  writeOutBinds _ _ _ := .ok []

/-- A connection after a query that sends one row at once, and a fetch of one more. -/
def fetchedTwo : Connection threes × Books :=
  let first : Request := .execute (some "SELECT n FROM t") 0 [] [] 1 1 false
  let start : Connection threes := Connection.new (B := threes) ()
  let executed := ((start.serve first).2, (∅ : Books).record start first)
  ((executed.1.serve (.fetch 1 1)).2, executed.2.record executed.1 (.fetch 1 1))

/-- Two of three rows are sent, in order, and the third is still to come. -/
theorem rows_sent_once_threes :
    fetchedTwo.2[1]? = some ⟨[[.ofInt 1], [.ofInt 2], [.ofInt 3]], [[.ofInt 1], [.ofInt 2]]⟩ ∧
      Option.Rel Account.Matches fetchedTwo.2[1]? fetchedTwo.1.cursors[1]? := by
  refine ⟨by decide +kernel, ?_⟩
  have run : Steps (fun e request e' => Booked.Step e request e' ∧ FitsField e request)
      (Connection.new (B := threes) (), (∅ : Books))
      [.execute (some "SELECT n FROM t") 0 [] [] 1 1 false, .fetch 1 1] fetchedTwo := by
    refine .cons ⟨rfl, ?_⟩ (.cons ⟨rfl, trivial⟩ .nil)
    show 1 < 2 ^ 16
    norm_num
  exact (rows_sent_once (B := threes) () run).1 1

end Threes

end MockOracle.Server
