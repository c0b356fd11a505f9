import MockOracle.Server.Connection
import MockOracle.Server.Ttc

/-!
# The login of a connection

The part of the server's `session.rs` that reads a request off the wire and decides what may
run: the two login phases, and every other function only once the client is logged in. The
cryptography of the challenge is arbitrary, and so is the decoding of EXECUTE and re-execute.
What a request did with the login and the database session is kept as a list of deeds.
-/

namespace MockOracle.Server

open Std Semantics Semantics.Codec

/-- Why a login is refused: the credentials, or a message that the gate cannot read. -/
inductive LoginError where
  | invalidCredentials
  | protocol (message : String)

/-- The texts sent to the client in the phase-one response. -/
structure PhaseOne where
  sesskey : String
  vfrData : String
  cskSalt : String
  vgenCount : String
  sderCount : String

/-- What a connection takes from elsewhere: challenges and their check, new database sessions,
and the decoding of statements. -/
structure Gate (B : Backend) where
  Challenge : Type
  phaseOne : Challenge → PhaseOne
  /-- `verify` with the client's session key and password, and the configured password. -/
  verify : Challenge → String → String → String → Except LoginError String
  password : String
  /-- The service name in upper case. -/
  service : String
  session : String → B.Db
  rollback : B.Db → B.Db
  readExecute : Connection B → ReadBuf Request
  readReexecute : Connection B → ReadBuf Request

/-- Where the login of a connection stands. -/
inductive LoginState (C : Type) where
  | none
  | challenged (user : String) (challenge : C)
  | loggedIn

/-- A connection with its login. -/
structure Session (B : Backend) (G : Gate B) where
  login : LoginState G.Challenge
  dbSession : Option B.Db
  cursors : ExtTreeMap Nat Cursor
  nextCursorId : Nat

/-- What a request did with the login and the database session. -/
inductive Deed (C : Type) where
  | challenged (challenge : C)
  | verified (challenge : C) (accepted : Bool)
  /-- Phase two without a challenge. -/
  | refused
  /-- A function other than the login phases used the database session. -/
  | reached (func : UInt8)
  /-- It found no database session. -/
  | panicked (func : UInt8)
  deriving DecidableEq

/-- What is written back. -/
inductive Answer where
  | protocol
  | dataTypes
  | challenge (phaseOne : PhaseOne)
  | loggedIn (params : List (String × String))
  | status (callStatus : Nat)
  | error (callStatus : Nat) (e : OraError)
  | reply (reply : Option Reply)

/-- The answer of a request, or why it was malformed, with the state after it and its deeds. -/
structure Handled (B : Backend) (G : Gate B) where
  answer : Except IoError Answer
  session : Session B G
  deeds : List (Deed G.Challenge)

/-- The message that negotiates the protocol. -/
def msgProtocol : UInt8 := 1

/-- The message that negotiates the data types. -/
def msgDataTypes : UInt8 := 2

/-- The message that calls a function. -/
def msgFunction : UInt8 := 3

/-- The message that comes before a function call in the same packet. -/
def msgPiggyback : UInt8 := 17

/-- Execute a cursor again. -/
def funcReexecute : UInt8 := 4

/-- Fetch more rows of a cursor. -/
def funcFetch : UInt8 := 5

/-- Close the connection. -/
def funcLogoff : UInt8 := 9

/-- Commit the open transaction. -/
def funcCommit : UInt8 := 14

/-- Roll the open transaction back. -/
def funcRollback : UInt8 := 15

/-- Execute a cursor again and fetch its first rows. -/
def funcReexecuteAndFetch : UInt8 := 78

/-- Execute a statement. -/
def funcExecute : UInt8 := 94

/-- The piggyback that closes cursors. -/
def funcCloseCursors : UInt8 := 105

/-- The second phase of a login: the answer to the challenge. -/
def funcAuthPhaseTwo : UInt8 := 115

/-- The first phase of a login: the request of a challenge. -/
def funcAuthPhaseOne : UInt8 := 118

/-- Ask whether the connection is alive. -/
def funcPing : UInt8 := 147

/-- The error of a login with wrong credentials. -/
def logonDenied : OraError := ⟨1017, "invalid credential or not authorized; logon denied"⟩

/-- The error of a function called before the login. -/
def notLoggedOn : OraError := ⟨1012, "not logged on"⟩

/-- The pairs of a login message; a later one replaces an earlier one. -/
def readPairs : Nat → ExtTreeMap String String → ReadBuf (ExtTreeMap String String)
  | 0, pairs => pure pairs
  | n + 1, pairs => do
      let (k, v, _) ← ReadBuf.keyValue
      readPairs n (pairs.insert k v)

/-- The user and the pairs of a login message. -/
def readAuth : ReadBuf (String × ExtTreeMap String String) := do
  let _ ← ReadBuf.u8
  let userLen ← ReadBuf.ub4
  let _ ← ReadBuf.ub4
  let _ ← ReadBuf.u8
  let numPairs ← ReadBuf.ub4
  let _ ← ReadBuf.u8
  let _ ← ReadBuf.u8
  let user ← if 0 < userLen then ReadBuf.stringWithLength else pure ""
  let pairs ← readPairs numPairs.toNat ∅
  return (user, pairs)

/-- Message type and function code, with the sequence number read and dropped. -/
def readHeader : ReadBuf (UInt8 × UInt8) := do
  let msgType ← ReadBuf.u8
  let func ← ReadBuf.u8
  let _ ← ReadBuf.u8
  return (msgType, func)

namespace Session

variable {B : Backend} {G : Gate B} (s : Session B G)

/-- A connection that has just been opened. -/
def new : Session B G := ⟨.none, none, ∅, 1⟩

/-- The end-of-call status: whether a transaction is open. -/
def callStatus : Nat := (s.dbSession.map fun db => Connection.callStatus db).getD 0

/-- The connection that a logged-in client's statements run on. -/
def connection (db : B.Db) : Connection B := ⟨s.cursors, s.nextCursorId, db⟩

/-- The session after its connection served something. -/
def setConnection (c : Connection B) : Session B G :=
  { s with cursors := c.cursors, nextCursorId := c.nextCursorId, dbSession := some c.db }

/-- Issue a challenge; `fresh` is the random one made for it. -/
def authPhaseOne (fresh : G.Challenge) (buf : List UInt8) : Handled B G :=
  match readAuth buf with
  | .error e => ⟨.error e, s, []⟩
  | .ok ((user, _), _) =>
      ⟨.ok (.challenge (G.phaseOne fresh)), { s with login := .challenged user fresh },
        [.challenged fresh]⟩

/-- The text without NULs at its end. -/
def trimNuls (text : String) : String :=
  String.ofList (text.toList.reverse.dropWhile (· = '\x00')).reverse

/-- A new database session for the user, in which the client's ALTER SESSION was tried. -/
def openSession (user : String) (pairs : ExtTreeMap String String) : B.Db :=
  match pairs["AUTH_ALTER_SESSION"]? with
  | none => G.session user
  | some stmt => (B.execute (trimNuls stmt) [] (G.session user)).2

/-- What a logged-in client is told. -/
def loginParams (G : Gate B) (response : String) : List (String × String) :=
  [("AUTH_SVR_RESPONSE", response), ("AUTH_VERSION_NO", toString (19 * 2 ^ 24)),
    ("AUTH_VERSION_STRING", "- Mock"), ("AUTH_SESSION_ID", "1"), ("AUTH_SERIAL_NUM", "1"),
    ("AUTH_SC_SERVICE_NAME", G.service), ("AUTH_SC_DB_DOMAIN", ""),
    ("AUTH_SC_DBUNIQUE_NAME", "MOCK"), ("AUTH_SC_REAL_DBUNIQUE_NAME", "MOCK"),
    ("AUTH_INSTANCENAME", "MOCK"), ("AUTH_DBNAME", G.service), ("AUTH_MAX_IDEN_LENGTH", "128")]

/-- Check the client's answer to the challenge. The challenge is spent before it is checked. -/
def authPhaseTwo (buf : List UInt8) : Handled B G :=
  match readAuth buf with
  | .error e => ⟨.error e, s, []⟩
  | .ok ((_, pairs), _) =>
      let spent : Session B G := { s with login := .none }
      match s.login with
      | .challenged user challenge =>
          match G.verify challenge (pairs.getD "AUTH_SESSKEY" "") (pairs.getD "AUTH_PASSWORD" "")
              G.password with
          | .error .invalidCredentials =>
              ⟨.ok (.error 0 logonDenied), spent, [.verified challenge false]⟩
          | .error (.protocol message) =>
              ⟨.error ⟨message⟩, spent, [.verified challenge false]⟩
          | .ok response =>
              ⟨.ok (.loggedIn (loginParams G response)),
                { s with login := .loggedIn, dbSession := some (openSession (G := G) user pairs) },
                [.verified challenge true]⟩
      | _ => ⟨.ok (.error 0 logonDenied), spent, [.refused]⟩

/-- Serve a request once it is decoded. -/
def serveRead (db : B.Db) (func : UInt8) (read : Except IoError (Request × List UInt8)) :
    Handled B G :=
  match read with
  | .error e => ⟨.error e, s, [.reached func]⟩
  | .ok (request, _) =>
      let served := (s.connection db).serve request
      ⟨.ok (.reply served.1), s.setConnection served.2, [.reached func]⟩

/-- The cursor and the number of rows of a FETCH. -/
def readFetch : ReadBuf Request := do
  let cursorId ← ReadBuf.ub4
  let arraySize ← ReadBuf.ub4
  return .fetch cursorId.toNat arraySize.toNat

/-- Commit in the database session. The error of a refused COMMIT is sent to the client. -/
def commitDb (db : B.Db) : Handled B G :=
  match B.commit db with
  | (.ok _, db) =>
      ⟨.ok (.status (Connection.callStatus db)), { s with dbSession := some db },
        [.reached funcCommit]⟩
  | (.error e, db) =>
      ⟨.ok (.error (Connection.callStatus db) e), { s with dbSession := some db },
        [.reached funcCommit]⟩

/-- The functions of a logged-in client. FETCH and PING look at the database session's status
only, and are taken to use it like the others. -/
def serveFunction (func : UInt8) (buf : List UInt8) : Handled B G :=
  match s.dbSession with
  | none => ⟨.ok (.status 0), s, [.panicked func]⟩
  | some db =>
      if func = funcExecute then s.serveRead db func (G.readExecute (s.connection db) buf)
      else if func = funcReexecute ∨ func = funcReexecuteAndFetch then
        s.serveRead db func (G.readReexecute (s.connection db) buf)
      else if func = funcFetch then s.serveRead db func (readFetch buf)
      else if func = funcCommit then s.commitDb db
      else if func = funcPing then ⟨.ok (.status s.callStatus), s, [.reached func]⟩
      else ⟨.ok (.status 0), { s with dbSession := some (G.rollback db) }, [.reached func]⟩

/-- The functions a logged-in client may call. -/
def isServed (func : UInt8) : Bool :=
  [funcExecute, funcReexecute, funcReexecuteAndFetch, funcFetch, funcCommit, funcRollback,
    funcLogoff, funcPing].contains func

/-- Whether the client has logged in. -/
def isLoggedIn : Bool :=
  match s.login with
  | .loggedIn => true
  | _ => false

/-- Call a function. The two phases of a login are served at any time, the others after the login.
-/
def call (fresh : G.Challenge) (func : UInt8) (buf : List UInt8) : Handled B G :=
  if func = funcAuthPhaseOne then s.authPhaseOne fresh buf
  else if func = funcAuthPhaseTwo then s.authPhaseTwo buf
  else if !s.isLoggedIn then ⟨.ok (.error 0 notLoggedOn), s, []⟩
  else if isServed func then s.serveFunction func buf
  else ⟨.error ⟨"unsupported function " ++ toString func⟩, s, []⟩

/-- Close the cursors of a CLOSE_CURSORS list as its ids are read. -/
def closeIds : Nat → List UInt8 → ExtTreeMap Nat Cursor →
    Except IoError (List UInt8) × ExtTreeMap Nat Cursor
  | 0, buf, cursors => (.ok buf, cursors)
  | n + 1, buf, cursors =>
      match ReadBuf.ub4 buf with
      | .error e => (.error e, cursors)
      | .ok (id, rest) => closeIds n rest (cursors.erase id.toNat)

/-- A CLOSE_CURSORS list: what follows it, and the cursors left. -/
def closeCursors (buf : List UInt8) (cursors : ExtTreeMap Nat Cursor) :
    Except IoError (List UInt8) × ExtTreeMap Nat Cursor :=
  match (do let _ ← ReadBuf.u8; ReadBuf.ub4 : ReadBuf UInt32) buf with
  | .error e => (.error e, cursors)
  | .ok (n, rest) => closeIds n.toNat rest cursors

/-- Reading the header of a message consumes bytes. -/
theorem length_readHeader {buf rest : List UInt8} {header : UInt8 × UInt8}
    (read : readHeader buf = .ok (header, rest)) : rest.length < buf.length := by
  obtain ⟨msgType, _, first, read⟩ := Semantics.Codec.bind_ok read
  obtain ⟨func, _, second, read⟩ := Semantics.Codec.bind_ok read
  obtain ⟨_, _, third, read⟩ := Semantics.Codec.bind_ok read
  cases read
  obtain ⟨_, one, _⟩ := Semantics.Codec.map_ok first
  obtain ⟨_, two, _⟩ := Semantics.Codec.map_ok second
  obtain ⟨_, three, _⟩ := Semantics.Codec.map_ok third
  have := ReadBuf.shorter_bytes one
  have := ReadBuf.shorter_bytes two
  have := ReadBuf.shorter_bytes three
  omega

/-- Closing the cursors of a list reads no further than the message goes. -/
theorem length_closeIds {n : Nat} {buf rest : List UInt8} {cursors : ExtTreeMap Nat Cursor}
    (closed : (closeIds n buf cursors).1 = .ok rest) : rest.length ≤ buf.length := by
  induction n generalizing buf cursors with
  | zero =>
      cases closed
      exact Nat.le_refl _
  | succ n ih =>
      unfold closeIds at closed
      split at closed
      · cases closed
      · next read =>
          have := ReadBuf.shorter_ub4 read
          have := ih closed
          omega

/-- Reading a list of cursors to close reads no further than the message goes. -/
theorem length_closeCursors {buf rest : List UInt8} {cursors : ExtTreeMap Nat Cursor}
    (closed : (closeCursors buf cursors).1 = .ok rest) : rest.length ≤ buf.length := by
  unfold closeCursors at closed
  split at closed
  · cases closed
  · next read =>
      obtain ⟨_, _, first, second⟩ := Semantics.Codec.bind_ok read
      obtain ⟨_, one, _⟩ := Semantics.Codec.map_ok first
      have := ReadBuf.shorter_bytes one
      have := ReadBuf.shorter_ub4 second
      have := length_closeIds closed
      omega

/-- Piggybacked lists of cursors to close, and the function after them. -/
def function (fresh : G.Challenge) (buf : List UInt8) (s : Session B G) : Handled B G :=
  match _header : readHeader buf with
  | .error e => ⟨.error e, s, []⟩
  | .ok ((msgType, func), rest) =>
      if msgType = msgPiggyback then
        if func = funcCloseCursors then
          let left : Session B G := { s with cursors := (closeCursors rest s.cursors).2 }
          match _closed : (closeCursors rest s.cursors).1 with
          | .error e => ⟨.error e, left, []⟩
          | .ok rest => function fresh rest left
        else ⟨.error ⟨"unsupported piggyback function " ++ toString func⟩, s, []⟩
      else if msgType = msgFunction then s.call fresh func rest
      else ⟨.error ⟨"unexpected TTC message type " ++ toString msgType⟩, s, []⟩
termination_by buf.length
decreasing_by
  have first := length_readHeader _header
  have second := length_closeCursors _closed
  omega

/-- The error of a request that is not supported. -/
def unsupportedDatatype : OraError := ⟨3115, "unsupported network datatype or representation"⟩

/-- The outcome of a whole request, by its first byte. -/
def handle (fresh : G.Challenge) (request : List UInt8) : Handled B G :=
  match request.head? with
  | none => ⟨.error ⟨"unexpected TTC message type None"⟩, s, []⟩
  | some kind =>
      if kind = msgProtocol then ⟨.ok .protocol, s, []⟩
      else if kind = msgDataTypes then ⟨.ok .dataTypes, s, []⟩
      else if kind = msgFunction ∨ kind = msgPiggyback then s.function fresh request
      else ⟨.error ⟨"unexpected TTC message type Some(" ++ toString kind ++ ")"⟩, s, []⟩

/-- Answer a request; one that is malformed or not supported is answered with an error. -/
def dispatch (fresh : G.Challenge) (request : List UInt8) :
    Answer × Session B G × List (Deed G.Challenge) :=
  let outcome := s.handle fresh request
  match outcome.answer with
  | .ok answer => (answer, outcome.session, outcome.deeds)
  | .error _ => (.error outcome.session.callStatus unsupportedDatatype, outcome.session, outcome.deeds)

/-- One request: the message, the challenge made should it ask for one, and its deeds. -/
structure Event (C : Type) where
  fresh : C
  request : List UInt8
  deeds : List (Deed C)

/-- A connection answers a request with these deeds. -/
def Step (s : Session B G) (event : Event G.Challenge) (s' : Session B G) : Prop :=
  (s.dispatch event.fresh event.request).2 = (s', event.deeds)

/-- A run of a connection from its start. -/
abbrev Run (events : List (Event G.Challenge)) (s : Session B G) : Prop :=
  Steps Step (new : Session B G) events s

end Session

/-! ## The login protocol -/

/-- Where a client stands. -/
inductive Phase (C : Type) where
  | out
  | challenged (challenge : C)
  | loggedIn

/-- What the protocol lets happen in a phase. A challenge can be made at any time; it is spent by
its one check, and only an accepted check opens the way to the database. -/
inductive Phase.Step {C : Type} : Phase C → Deed C → Phase C → Prop
  | challenge (phase : Phase C) (c : C) : Step phase (.challenged c) (.challenged c)
  | accept (c : C) : Step (.challenged c) (.verified c true) .loggedIn
  | reject (c : C) : Step (.challenged c) (.verified c false) .out
  | refuse {phase : Phase C} (unchallenged : ∀ c, phase ≠ .challenged c) : Step phase .refused .out
  | reach (func : UInt8) : Step .loggedIn (.reached func) .loggedIn

/-- The phase that a login is in. -/
def LoginState.phase {C : Type} : LoginState C → Phase C
  | .none => .out
  | .challenged _ c => .challenged c
  | .loggedIn => .loggedIn

namespace Session

variable {B : Backend} {G : Gate B} {s s' : Session B G}

/-- A logged-in client has a database session. -/
def Ready (s : Session B G) : Prop := s.login = .loggedIn → s.dbSession.isSome = true

/-- An outcome that follows the protocol. -/
structure Follows (s : Session B G) (outcome : Handled B G) : Prop where
  protocol : Steps Phase.Step s.login.phase outcome.deeds outcome.session.login.phase
  ready : outcome.session.Ready

/-- An outcome that does nothing follows the protocol. -/
theorem follows_quiet (ready : s.Ready) {outcome : Handled B G} (deeds : outcome.deeds = [])
    (login : outcome.session.login = s.login) (db : outcome.session.dbSession = s.dbSession) :
    s.Follows outcome where
  protocol := by
    rw [deeds, login]
    exact .nil
  ready := by
    unfold Ready
    rw [login, db]
    exact ready

/-- Once logged in, serving a function from the database session follows the protocol. -/
theorem follows_reached {func : UInt8} (loggedIn : s.login = .loggedIn) {outcome : Handled B G}
    (deeds : outcome.deeds = [.reached func]) (login : outcome.session.login = s.login)
    (db : outcome.session.dbSession.isSome = true) : s.Follows outcome where
  protocol := by
    rw [deeds, login, loggedIn]
    exact .cons (.reach func) .nil
  ready _ := db

/-- The first phase follows the protocol: it makes a challenge and nothing else. -/
theorem follows_authPhaseOne (ready : s.Ready) (fresh : G.Challenge) (buf : List UInt8) :
    s.Follows (s.authPhaseOne fresh buf) := by
  unfold authPhaseOne
  split
  · exact follows_quiet ready rfl rfl rfl
  · refine ⟨.cons (.challenge _ fresh) .nil, fun loggedIn => ?_⟩
    cases loggedIn

/-- The second phase follows the protocol: it checks the challenge that was made, and spends it. -/
theorem follows_authPhaseTwo (ready : s.Ready) (buf : List UInt8) :
    s.Follows (s.authPhaseTwo buf) := by
  unfold authPhaseTwo
  split
  · exact follows_quiet ready rfl rfl rfl
  · split
    · next user challenge state =>
        split
        · refine ⟨?_, fun loggedIn => by cases loggedIn⟩
          rw [state]
          exact .cons (.reject challenge) .nil
        · refine ⟨?_, fun loggedIn => by cases loggedIn⟩
          rw [state]
          exact .cons (.reject challenge) .nil
        · refine ⟨?_, fun _ => rfl⟩
          rw [state]
          exact .cons (.accept challenge) .nil
    · next unchallenged =>
        refine ⟨.cons (.refuse fun c equal => ?_) .nil, fun loggedIn => by cases loggedIn⟩
        cases state : s.login with
        | challenged user challenge => exact unchallenged user challenge state
        | none | loggedIn =>
            rw [state] at equal
            cases equal

/-- A request that has been read is served by the protocol, once logged in. -/
theorem follows_serveRead (loggedIn : s.login = .loggedIn) {db : B.Db}
    (present : s.dbSession = some db) (func : UInt8)
    (read : Except IoError (Request × List UInt8)) : s.Follows (s.serveRead db func read) := by
  unfold serveRead
  split
  · exact follows_reached loggedIn rfl rfl (by rw [present]; rfl)
  · exact follows_reached loggedIn rfl rfl rfl

/-- Every function of a logged-in client follows the protocol. -/
theorem follows_serveFunction (ready : s.Ready) (loggedIn : s.login = .loggedIn) (func : UInt8)
    (buf : List UInt8) : s.Follows (s.serveFunction func buf) := by
  obtain ⟨db, present⟩ := Option.isSome_iff_exists.mp (ready loggedIn)
  unfold serveFunction
  simp only [present]
  split
  · exact follows_serveRead loggedIn present _ _
  · split
    · exact follows_serveRead loggedIn present _ _
    · split
      · exact follows_serveRead loggedIn present _ _
      · split
        · unfold commitDb
          split
          · exact follows_reached loggedIn rfl rfl rfl
          · exact follows_reached loggedIn rfl rfl rfl
        · split
          · exact follows_reached loggedIn rfl rfl (by rw [present]; rfl)
          · exact follows_reached loggedIn rfl rfl rfl

/-- A function call follows the protocol, whichever function it calls. -/
theorem follows_call (ready : s.Ready) (fresh : G.Challenge) (func : UInt8) (buf : List UInt8) :
    s.Follows (s.call fresh func buf) := by
  unfold call
  split
  · exact follows_authPhaseOne ready fresh buf
  · split
    · exact follows_authPhaseTwo ready buf
    · split
      · exact follows_quiet ready rfl rfl rfl
      · next inside =>
          have loggedIn : s.login = .loggedIn := by
            unfold isLoggedIn at inside
            cases state : s.login <;> simp_all
          split
          · exact follows_serveFunction ready loggedIn func buf
          · exact follows_quiet ready rfl rfl rfl

/-- A message with a function call follows the protocol, with the cursors that it closes. -/
theorem follows_function (ready : s.Ready) (fresh : G.Challenge) (buf : List UInt8) :
    s.Follows (s.function fresh buf) := by
  induction size : buf.length using Nat.strong_induction_on generalizing s buf with
  | _ n ih =>
      rw [function]
      split
      · exact follows_quiet ready rfl rfl rfl
      · next msgType func list header =>
          have shorter := length_readHeader header
          split
          · split
            · simp only
              split
              · exact follows_quiet ready rfl rfl rfl
              · next rest closed =>
                  have closing := length_closeCursors closed
                  have same : Ready { s with cursors := (closeCursors list s.cursors).2 } := ready
                  have more := ih rest.length (by omega) same rest rfl
                  exact ⟨more.protocol, more.ready⟩
            · exact follows_quiet ready rfl rfl rfl
          · split
            · exact follows_call ready fresh _ _
            · exact follows_quiet ready rfl rfl rfl

/-- Every message follows the protocol. -/
theorem follows_handle (ready : s.Ready) (fresh : G.Challenge) (request : List UInt8) :
    s.Follows (s.handle fresh request) := by
  unfold handle
  split
  · exact follows_quiet ready rfl rfl rfl
  · split
    · exact follows_quiet ready rfl rfl rfl
    · split
      · exact follows_quiet ready rfl rfl rfl
      · split
        · exact follows_function ready fresh request
        · exact follows_quiet ready rfl rfl rfl

/-- A step of a connection is a run of the phases, and keeps it ready. -/
theorem Step.follows {event : Event G.Challenge} (step : Step s event s') (ready : s.Ready) :
    Steps Phase.Step s.login.phase event.deeds s'.login.phase ∧ s'.Ready := by
  have handled := follows_handle ready event.fresh event.request
  unfold Step dispatch at step
  simp only at step
  have after : ((s.handle event.fresh event.request).session,
      (s.handle event.fresh event.request).deeds) = (s', event.deeds) := by
    split at step <;> exact step
  obtain ⟨rfl, deeds⟩ := Prod.mk.inj after
  rw [← deeds]
  exact ⟨handled.protocol, handled.ready⟩

/-- The deeds of a run follow the login protocol. -/
theorem Run.follows {events : List (Event G.Challenge)} (run : Run events s) :
    Steps Phase.Step .out (events.flatMap Event.deeds) s.login.phase ∧ s.Ready := by
  have general : ∀ {first last : Session B G} {events : List (Event G.Challenge)},
      Steps Step first events last → first.Ready →
      Steps Phase.Step first.login.phase (events.flatMap Event.deeds) last.login.phase ∧
        last.Ready := by
    intro first last events run
    induction run with
    | nil => exact fun ready => ⟨.nil, ready⟩
    | cons head _ ih =>
        intro ready
        obtain ⟨here, next⟩ := head.follows ready
        obtain ⟨later, last⟩ := ih next
        exact ⟨here.append later, last⟩
  exact general run fun loggedIn => by cases loggedIn

end Session

namespace Phase

variable {C : Type} {phase first : Phase C} {deeds : List (Deed C)}

/-- The deeds end with an accepted check of a challenge just made, and what it let happen. -/
def Entered (deeds : List (Deed C)) : Prop :=
  ∃ before c funcs, deeds = before ++ .challenged c :: .verified c true :: List.map .reached funcs

/-- What the deeds so far say about the phase they end in. -/
def History (deeds : List (Deed C)) : Phase C → Prop
  | out => True
  | challenged c => ∃ before, deeds = before ++ [.challenged c]
  | loggedIn => Entered deeds

/-- What the deeds say about a phase carries on to the next phase. -/
theorem Step.history {deed : Deed C} {next : Phase C} (step : Step phase deed next)
    (history : History deeds phase) : History (deeds ++ [deed]) next := by
  cases step with
  | challenge _ c => exact ⟨deeds, rfl⟩
  | accept c =>
      obtain ⟨before, rfl⟩ := history
      exact ⟨before, c, [], by simp⟩
  | reject c => trivial
  | refuse => trivial
  | reach func =>
      obtain ⟨before, c, funcs, rfl⟩ := history
      exact ⟨before, c, funcs ++ [func], by simp⟩

end Phase

namespace Session

/-- Send requests one after another, with the challenges made for them. -/
def follow {B : Backend} {G : Gate B} :
    List (G.Challenge × List UInt8) → Session B G → List (Event G.Challenge) × Session B G
  | [], s => ([], s)
  | (fresh, request) :: rest, s =>
      let after := (s.dispatch fresh request).2
      let more := follow rest after.1
      (⟨fresh, request, after.2⟩ :: more.1, more.2)

end Session

end MockOracle.Server
