import MockOracle.Server.Framing

/-!
# The handshake and what a client may send

Which byte streams end a handshake with a panic: those with a second packet too short for data
flags, and those whose descriptor has its keys elsewhere than its copy in capitals.
-/

namespace MockOracle.Server.Tns

open Semantics Semantics.Codec

/-! ## Packets -/

section Packets

variable {ending : Option IoError}

/-- Reading bytes off the wire does not panic. -/
theorem readExact_ne_panic (n : Nat) (buf : List UInt8) :
    (readExact ending n).run buf ≠ .error .panic := by
  simp only [StateT.run, readExact]
  split
  · intro panics
    cases panics
  · cases ending <;> intro panics <;> cases panics

/-- Where two programs do not panic, neither does their sequence. -/
theorem bind_ne_panic {α β : Type} {r : Wire α} {f : α → Wire β} {buf : List UInt8}
    (first : r.run buf ≠ .error .panic) (then_ : ∀ a rest, (f a).run rest ≠ .error .panic) :
    (r >>= f).run buf ≠ .error .panic := by
  rw [StateT.run_bind]
  cases result : r.run buf with
  | error e =>
      rw [result] at first
      intro panics
      cases panics
      exact first rfl
  | ok next => exact then_ next.1 next.2

/-- Reading a packet does not panic. -/
theorem readPacket_ne_panic (largeSdu : Bool) (buf : List UInt8) :
    (readPacket ending largeSdu).run buf ≠ .error .panic := by
  refine bind_ne_panic (readExact_ne_panic _ _) fun header rest => ?_
  cases header with
  | none => nofun
  | some header =>
      simp only
      generalize ReadBuf.fromBigEndian _ = len
      split
      · nofun
      · refine bind_ne_panic (readExact_ne_panic _ _) fun body rest => ?_
        cases body with
        | none => nofun
        | some body =>
            simp only
            split <;> nofun

end Packets

/-- The number in so many bytes at an offset of a packet. -/
def Packet.number (p : Packet) (off size : Nat) : Nat :=
  ReadBuf.fromBigEndian ((p.body.drop (off - headerLen)).take size)

/-- The connect data in a CONNECT packet, if it fits. -/
def Packet.connectData (p : Packet) : List UInt8 :=
  if headerLen ≤ p.number 26 2 ∧ p.number 26 2 - headerLen + p.number 24 2 ≤ p.body.length then
    (p.body.drop (p.number 26 2 - headerLen)).take (p.number 24 2)
  else []

/-- A slice inside of its bytes is what it says. -/
theorem slice_inside {bytes : List UInt8} {i len : Nat} (inside : i + len ≤ bytes.length) :
    slice bytes i (i + len) = .ok ((bytes.drop i).take len) := by
  rw [slice, if_pos ⟨Nat.le_add_right i len, inside⟩, List.drop_take, Nat.add_sub_cancel_left]

/-- A number inside of the body is read as the packet's. -/
theorem numberAt_eq {p : Packet} {off size : Nat} (header : headerLen ≤ off)
    (inside : off - headerLen + size ≤ p.body.length) :
    numberAt p.body off size = .ok (p.number off size) := by
  simp only [numberAt, index, if_pos header, slice_inside inside, bind, Except.bind]
  rfl

/-- The connect data that is read is the packet's. -/
theorem dataAt_eq (p : Packet) :
    dataAt p.body (p.number 26 2) (p.number 24 2) = .ok p.connectData := by
  rw [dataAt, Packet.connectData]
  by_cases header : headerLen ≤ p.number 26 2
  · simp only [index, header, true_and, if_true, bind, Except.bind]
    by_cases inside : p.number 26 2 - headerLen + p.number 24 2 ≤ p.body.length
    · rw [if_pos inside, if_pos inside, slice_inside inside]
    · rw [if_neg inside, if_neg inside]
      rfl
  · rw [if_neg header, if_neg fun both => header both.1]
    rfl

/-- A CONNECT of the least length is read without a panic. -/
theorem parseConnect_eq {p : Packet} (long : 74 - headerLen ≤ p.body.length) :
    parseConnect p = .ok
      { version := p.number 8 2, sdu := p.number 58 4, tdu := p.number 62 4,
        dataLen := p.number 24 2, data := p.connectData } := by
  have field (off size : Nat) (header : headerLen ≤ off) (inside : off + size ≤ 74) :
      numberAt p.body off size = .ok (p.number off size) :=
    numberAt_eq header (by omega)
  rw [parseConnect, if_neg (not_lt.mpr long), field 24 2 (by decide) (by decide),
    field 26 2 (by decide) (by decide), field 8 2 (by decide) (by decide),
    field 58 4 (by decide) (by decide), field 62 4 (by decide) (by decide)]
  simp only [bind, Except.bind, dataAt_eq]
  rfl

/-! ## Descriptors -/

section Descriptors

variable (unicode : Unicode) (descriptor : List Char) (key : String)

/-- A key in the copy in capitals ends between two characters of the descriptor. -/
def Placed : Prop :=
  ∀ found, Text.find (needle unicode key) (unicode.toUppercase descriptor) = some found →
    ∃ rest, Text.dropBytes descriptor (found + Text.size (needle unicode key)) = some rest

/-- Behind the place of the key is a closing parenthesis. -/
def Valued : Prop :=
  ∃ found rest, Text.find (needle unicode key) (unicode.toUppercase descriptor) = some found ∧
    Text.dropBytes descriptor (found + Text.size (needle unicode key)) = some rest ∧ ')' ∈ rest

/-- The keys that are looked up are placed well: that of the service, and that of the instance if
the service has no value. -/
def Readable : Prop :=
  Placed unicode descriptor "SERVICE_NAME" ∧
    (Valued unicode descriptor "SERVICE_NAME" ∨ Placed unicode descriptor "SID")

variable {unicode descriptor key}

/-- The value of a key that is not placed well is a panic. -/
theorem descriptorValue_of_not_placed (misplaced : ¬ Placed unicode descriptor key) :
    descriptorValue unicode descriptor key = .error .panic := by
  simp only [Placed, not_forall, not_exists] at misplaced
  obtain ⟨found, isFound, elsewhere⟩ := misplaced
  have none : Text.dropBytes descriptor (found + Text.size (needle unicode key)) = none :=
    Option.eq_none_iff_forall_ne_some.mpr elsewhere
  simp only [descriptorValue, isFound, none]

/-- A key that is placed well has a value or none. -/
theorem descriptorValue_of_placed (placed : Placed unicode descriptor key) :
    ∃ value, descriptorValue unicode descriptor key = .ok value ∧
      (value.isSome ↔ Valued unicode descriptor key) := by
  cases isFound : Text.find (needle unicode key) (unicode.toUppercase descriptor) with
  | none =>
      refine ⟨none, by simp only [descriptorValue, isFound], ?_⟩
      simp [Valued, isFound]
  | some found =>
      obtain ⟨rest, behind⟩ := placed found isFound
      have valued : Valued unicode descriptor key ↔ ')' ∈ rest := by
        simp [Valued, isFound, behind]
      cases closed : Text.find [')'] rest with
      | none =>
          refine ⟨none, by simp only [descriptorValue, isFound, behind, closed], ?_⟩
          rw [valued, ← Text.find_singleton_isSome, closed]
          exact Iff.rfl
      | some length =>
          obtain ⟨before, isDescriptor, start⟩ := Text.dropBytes_eq_some behind
          obtain ⟨value, after, rfl, rfl⟩ := Text.find_eq_some closed
          have cut := Text.slice_size before value ([')'] ++ after)
          rw [← isDescriptor, start, Nat.add_comm _ (Text.size value)] at cut
          refine ⟨some value, by simp only [descriptorValue, isFound, behind, closed, cut], ?_⟩
          simp [valued]

/-- The service is read without a panic where its keys are placed well. -/
theorem serviceName_of_readable (readable : Readable unicode descriptor) :
    ∃ name, serviceName unicode descriptor = .ok name := by
  obtain ⟨name, isName, valued⟩ := descriptorValue_of_placed readable.1
  rw [serviceName, isName]
  cases name with
  | some name => exact ⟨name, rfl⟩
  | none =>
      have placed := readable.2.resolve_left fun value => by simpa using valued.mpr value
      obtain ⟨sid, isSid, _⟩ := descriptorValue_of_placed placed
      exact ⟨sid.getD "FREEPDB1".toList, by simp only [bind, Except.bind, isSid]; rfl⟩

/-- A descriptor that is not readable panics. -/
theorem serviceName_of_not_readable (unreadable : ¬ Readable unicode descriptor) :
    serviceName unicode descriptor = .error .panic := by
  by_cases placed : Placed unicode descriptor "SERVICE_NAME"
  · obtain ⟨name, isName, valued⟩ := descriptorValue_of_placed placed
    rw [Readable, not_and, not_or] at unreadable
    obtain ⟨valueless, misplaced⟩ := unreadable placed
    obtain rfl : name = none := by
      rw [← valued] at valueless
      simpa using valueless
    have panics := descriptorValue_of_not_placed misplaced
    rw [serviceName, isName]
    simp only [bind, Except.bind, panics]
  · rw [serviceName, descriptorValue_of_not_placed placed]
    rfl

end Descriptors

/-! ## The handshake -/

section Handshake

variable (unicode : Unicode) (lossy : List UInt8 → List Char) (ending : Option IoError)
  (send : List UInt8 → Except IoError Unit)

/-- The client is too old, or its descriptor is readable. -/
def Acceptable (p : Packet) (data : List UInt8) : Prop :=
  minVersion ≤ p.number 8 2 → Readable unicode (lossy data)

/-- A packet that holds its connect data, or is followed by one with room for data flags, if by any;
and the data are acceptable. -/
def Proceeds (p : Packet) (rest : List UInt8) : Prop :=
  if p.connectData.length < p.number 24 2 then
    match (readPacket ending false).run rest with
    | .ok (some more, _) => 2 ≤ more.body.length ∧ Acceptable unicode lossy p (more.body.drop 2)
    | _ => True
  else Acceptable unicode lossy p p.connectData

/-- If a stream starts with a CONNECT of the least length, it proceeds well. -/
def Harmless (stream : List UInt8) : Prop :=
  match (readPacket ending false).run stream with
  | .ok (some p, rest) =>
      p.kind = connect ∧ 74 - headerLen ≤ p.body.length → Proceeds unicode lossy ending p rest
  | _ => True

variable {unicode lossy ending}

/-- Writing does not panic. -/
theorem write_ne_panic (bytes : List UInt8) : write send bytes ≠ .error .panic := by
  rw [write]
  cases send bytes <;> nofun

/-- Writing is the last that can fail. -/
theorem write_bind_ne_panic {α : Type} (bytes : List UInt8) (a : α) :
    (do write send bytes; return a : Outcome α) ≠ .error .panic := by
  intro panics
  cases written : write send bytes with
  | ok _ =>
      rw [written] at panics
      cases panics
  | error e =>
      rw [written] at panics
      cases panics
      exact write_ne_panic send bytes written

/-- Answering a request does not panic if and only if its descriptor is readable, where it is read.
-/
theorem answer_ne_panic_iff {request : ConnectRequest} {descriptor : List Char} :
    answer unicode send request descriptor ≠ .error .panic ↔
      (minVersion ≤ request.version → Readable unicode descriptor) := by
  rw [answer]
  by_cases old : request.version < minVersion
  · rw [if_pos old]
    exact ⟨fun _ new => absurd old (not_lt.mpr new), fun _ => write_bind_ne_panic send _ _⟩
  · rw [if_neg old, forall_prop_of_true (not_lt.mp old)]
    by_cases readable : Readable unicode descriptor
    · obtain ⟨name, isName⟩ := serviceName_of_readable readable
      simp only [isName, readable, iff_true]
      exact write_bind_ne_panic send _ _
    · simp only [serviceName_of_not_readable readable, readable, iff_false]
      exact fun ne => ne rfl

/-- The data flags are cut off a packet that has them. -/
theorem data_eq (p : Packet) :
    p.data = if 2 ≤ p.body.length then .ok (p.body.drop 2) else .error .panic := by
  simp only [Packet.data, slice, le_refl, and_true, List.take_length]

/-- What follows the reading of a packet does not panic. -/
theorem read_then_ne_panic_iff {next : Option Packet → Wire (Option Agreement)}
    (none_ : ∀ rest, (next none).run rest ≠ .error .panic) (stream : List UInt8) :
    (readPacket ending false >>= next).run stream ≠ .error .panic ↔
      match (readPacket ending false).run stream with
      | .ok (some p, rest) => (next (some p)).run rest ≠ .error .panic
      | _ => True := by
  cases read : (readPacket ending false).run stream with
  | error e =>
      rw [run_bind_of_error read]
      refine ⟨fun _ => trivial, fun _ panics => ?_⟩
      cases panics
      exact readPacket_ne_panic false stream read
  | ok result =>
      obtain ⟨packet, rest⟩ := result
      rw [run_bind_of_ok read]
      cases packet with
      | none => exact ⟨fun _ => trivial, fun _ => none_ rest⟩
      | some p => exact Iff.rfl

/-- An outcome leaves what there is to read. -/
theorem lift_bind_ok {α β : Type} {x : Outcome α} {f : α → Wire β} {a : α} (isOk : x = .ok a)
    (rest : List UInt8) : ((liftM x : Wire α) >>= f).run rest = (f a).run rest := by
  subst isOk
  rfl

/-- Lifting an outcome to the wire keeps whether it panics. -/
theorem lift_ne_panic_iff {α : Type} (x : Outcome α) (rest : List UInt8) :
    (liftM x : Wire α).run rest ≠ .error .panic ↔ x ≠ .error .panic := by
  cases x with
  | ok a => exact ⟨fun _ => nofun, fun _ => nofun⟩
  | error e =>
      refine not_congr ⟨fun panics => ?_, fun panics => ?_⟩
      · cases panics
        rfl
      · cases panics
        rfl

/-- The answer to a packet whose data are known. -/
theorem lift_answer_ne_panic_iff (p : Packet) (request : ConnectRequest)
    (version : request.version = p.number 8 2) (bytes rest : List UInt8) :
    (liftM (answer unicode send request (lossy bytes)) : Wire _).run rest ≠ .error .panic ↔
      Acceptable unicode lossy p bytes := by
  rw [lift_ne_panic_iff, answer_ne_panic_iff, version, Acceptable]

/-- Receiving a packet does not panic if and only if what it asks for proceeds. -/
theorem receive_ne_panic_iff (p : Packet) (rest : List UInt8) :
    (receive unicode lossy ending send p).run rest ≠ .error .panic ↔
      (p.kind = connect ∧ 74 - headerLen ≤ p.body.length → Proceeds unicode lossy ending p rest) := by
  rw [receive]
  by_cases kind : p.kind = connect
  · rw [if_neg (not_not_intro kind)]
    by_cases long : 74 - headerLen ≤ p.body.length
    · rw [lift_bind_ok (parseConnect_eq long), forall_prop_of_true ⟨kind, long⟩, Proceeds]
      by_cases follows : p.connectData.length < p.number 24 2
      · simp only [follows, if_true]
        rw [read_then_ne_panic_iff (by intro rest panics; cases panics)]
        cases (readPacket ending false).run rest with
        | error _ => exact Iff.rfl
        | ok result =>
            obtain ⟨packet, rest⟩ := result
            cases packet with
            | none => exact Iff.rfl
            | some more =>
                simp only
                by_cases flagged : 2 ≤ more.body.length
                · have cut := data_eq more
                  rw [if_pos flagged] at cut
                  rw [lift_bind_ok cut, and_iff_right flagged]
                  exact lift_answer_ne_panic_iff send p _ rfl _ _
                · have cut := data_eq more
                  rw [if_neg flagged] at cut
                  rw [cut]
                  exact ⟨fun ne => absurd rfl ne, fun both => absurd both.1 flagged⟩
      · simp only [follows, if_false]
        exact lift_answer_ne_panic_iff send p _ rfl _ _
    · have short : parseConnect p = .error (invalid "short CONNECT packet") := by
        rw [parseConnect, if_pos (not_le.mp long)]
        rfl
      rw [short]
      exact ⟨fun _ both => absurd both.2 long, fun _ panics => nomatch panics⟩
  · rw [if_pos kind]
    exact ⟨fun _ both => absurd both.1 kind, fun _ panics => nomatch panics⟩

/-- A handshake ends without a panic where the stream is harmless, and nowhere else. -/
theorem handshake_ne_panic_iff (unicode : Unicode) (lossy : List UInt8 → List Char)
    (ending : Option IoError) (send : List UInt8 → Except IoError Unit) (stream : List UInt8) :
    (handshake unicode lossy ending send).run stream ≠ .error .panic ↔
      Harmless unicode lossy ending stream := by
  rw [handshake, Harmless, read_then_ne_panic_iff (by intro rest panics; cases panics)]
  cases (readPacket ending false).run stream with
  | error _ => exact Iff.rfl
  | ok result =>
      obtain ⟨packet, rest⟩ := result
      cases packet with
      | none => exact Iff.rfl
      | some p => exact receive_ne_panic_iff send p rest

/-- A CONNECT that announces one byte of data and a MARKER without a body, whatever the letters,
the texts and the two directions of the connection are. -/
theorem handshake_panics :
    ¬ ∃ (unicode : Unicode) (lossy : List UInt8 → List Char) (ending : Option IoError)
      (send : List UInt8 → Except IoError Unit),
      (handshake unicode lossy ending send).run
        (writePacket false connect (List.replicate 16 0 ++ [0, 1] ++ List.replicate 48 0) ++
          writePacket false marker []) ≠ .error .panic := by
  rintro ⟨unicode, lossy, ending, send, returns⟩
  have first (rest : List UInt8) : (readPacket ending false).run
      (writePacket false connect (List.replicate 16 0 ++ [0, 1] ++ List.replicate 48 0) ++ rest) =
      .ok (some ⟨connect, List.replicate 16 0 ++ [0, 1] ++ List.replicate 48 0⟩, rest) :=
    reads_packet (by decide) (by decide) (by decide) rest
  have second : (readPacket ending false).run (writePacket false marker []) =
      .ok (some ⟨marker, []⟩, []) :=
    reads_packet (by decide) (by decide) (by decide) []
  apply returns
  rw [handshake, run_bind_of_ok (first _)]
  simp only
  rw [receive, if_neg (by decide), lift_bind_ok (parseConnect_eq (by decide)), if_pos (by decide),
    run_bind_of_ok second]
  rfl

end Handshake

end MockOracle.Server.Tns
