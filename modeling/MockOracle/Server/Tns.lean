import MockOracle.Core.Unicode
import MockOracle.Semantics.Text
import MockOracle.Server.Ttc

/-!
# TNS packets

The framing of messages in `tns.rs`, and the handshake of a connection from `session.rs`. A packet
is a header of eight bytes, which begins with the length of the whole, and a body. Before a
connection is accepted the length has two bytes, and then four.
-/

namespace MockOracle.Server

open Semantics Semantics.Codec

/-- How reading from a client ends without a value. -/
inductive Failure where
  | io (e : IoError)
  | panic
  deriving DecidableEq, Repr

/-- What reading from a client comes to. -/
abbrev Outcome := Except Failure

/-- What a client sends that has not been read. -/
abbrev Wire := Reader UInt8 Failure

namespace Tns

/-- The packet that opens a connection. -/
def connect : UInt8 := 1
/-- The packet that accepts a connection. -/
def accept : UInt8 := 2
/-- The packet that refuses a connection. -/
def refuse : UInt8 := 4
/-- The packet that carries a payload. -/
def data : UInt8 := 6
/-- The packet that interrupts or resets. -/
def marker : UInt8 := 12

/-- The bytes of a packet's header. -/
def headerLen : Nat := 8

/-- The longest packet that is read. -/
def maxPacketLen : Nat := 4 * 1024 * 1024

/-- The protocol version of the server. -/
def version : Nat := 318

/-- The oldest protocol version that is accepted. -/
def minVersion : Nat := 315

/-- Invalid data from the client. -/
def invalid (message : String) : Failure := .io ⟨message⟩

/-- `bytes[start..stop]` -/
def slice (bytes : List UInt8) (start stop : Nat) : Outcome (List UInt8) :=
  if start ≤ stop ∧ stop ≤ bytes.length then .ok ((bytes.take stop).drop start) else .error .panic

/-- A packet without its length. -/
structure Packet where
  kind : UInt8
  /-- Everything after the header. -/
  body : List UInt8
  deriving DecidableEq, Repr

/-- The payload after the data flags. -/
def Packet.data (p : Packet) : Outcome (List UInt8) := slice p.body 2 p.body.length

section Read

/- What happens after all that the client sends: an error, or the end of the stream. -/
variable (ending : Option IoError)

/-- So many bytes; none if the stream ends before. -/
def readExact (n : Nat) : Wire (Option (List UInt8)) := fun buf =>
  if n ≤ buf.length then .ok (some (buf.take n), buf.drop n)
  else
    match ending with
    | some e => .error (.io e)
    | none => .ok (none, buf)

/-- Read one packet; none at the end of the stream. -/
def readPacket (largeSdu : Bool) : Wire (Option Packet) := do
  let some header ← readExact ending headerLen | return none
  let len := ReadBuf.fromBigEndian (header.take (if largeSdu then 4 else 2))
  if ¬ (headerLen ≤ len ∧ len ≤ maxPacketLen) then
    throw (invalid ("bad TNS packet length " ++ toString len))
  else
    let some body ← readExact ending (len - headerLen) | throw (invalid "unexpected end of file")
    let packet : Packet := ⟨header.getD 4 0, body⟩
    if packet.kind = data ∧ packet.body.length < 2 then
      throw (invalid "DATA packet without data flags")
    else return some packet

/-- The packets up to the end of the stream, `fuel` at most. -/
def readPackets (largeSdu : Bool) : Nat → Wire (List Packet)
  | 0 => return []
  | fuel + 1 => do
      match ← readPacket ending largeSdu with
      | none => return []
      | some packet => (packet :: ·) <$> readPackets largeSdu fuel

end Read

/-- A packet as bytes. A large SDU has a length of four bytes, a small one of two. -/
def writePacket (largeSdu : Bool) (kind : UInt8) (body : List UInt8) : List UInt8 :=
  let len := headerLen + body.length
  (if largeSdu then WriteBuf.bigEndian 4 len else WriteBuf.bigEndian 2 len ++ [0, 0]) ++
    [kind, 0, 0, 0] ++ body

/-- A size of packets that a handshake can agree on. -/
structure Sdu where
  size : Nat
  low : 512 ≤ size
  high : size ≤ 2 * 1024 * 1024

/-- The size for the one that the client asks for. -/
def Sdu.clamp (requested : Nat) : Sdu where
  size := max 512 (min requested (2 * 1024 * 1024))
  low := le_max_left _ _
  high := by omega

/-- A payload as data packets that each fit in the size. -/
def writeData (sdu : Sdu) (payload : List UInt8) : List UInt8 :=
  let maxChunk := sdu.size - headerLen - 2
  (payload.toChunks maxChunk).flatMap fun chunk =>
    writePacket true data (WriteBuf.bigEndian 2 0 ++ chunk)

/-! ## The handshake -/

/-- What a CONNECT packet asks for. -/
structure ConnectRequest where
  version : Nat
  sdu : Nat
  tdu : Nat
  /-- Bytes of connect data announced; they follow in another packet when they do not fit. -/
  dataLen : Nat
  data : List UInt8

/-- The index in the body of an offset in the packet. -/
def index (off : Nat) : Outcome Nat :=
  if headerLen ≤ off then .ok (off - headerLen) else .error .panic

/-- The number in so many bytes at an offset. -/
def numberAt (body : List UInt8) (off size : Nat) : Outcome Nat := do
  let i ← index off
  return ReadBuf.fromBigEndian (← slice body i (i + size))

/-- So many bytes at an offset; none if they are not all there. -/
def dataAt (body : List UInt8) (off len : Nat) : Outcome (List UInt8) :=
  if headerLen ≤ off then do
    let i ← index off
    if i + len ≤ body.length then slice body i (i + len) else return []
  else return []

/-- Read the body of a CONNECT packet. -/
def parseConnect (p : Packet) : Outcome ConnectRequest := do
  if p.body.length < 74 - headerLen then throw (invalid "short CONNECT packet")
  else
    let dataLen ← numberAt p.body 24 2
    let dataOff ← numberAt p.body 26 2
    let data ← dataAt p.body dataOff dataLen
    return { version := ← numberAt p.body 8 2, sdu := ← numberAt p.body 58 4,
             tdu := ← numberAt p.body 62 4, dataLen, data }

/-- The body of an ACCEPT packet, with the sizes agreed on. -/
def acceptBody (sdu tdu : Nat) : List UInt8 :=
  [version, 0x0001, min sdu 0xffff, min tdu 0xffff, 0x0100, 0, 45].flatMap (WriteBuf.bigEndian 2) ++
    [0, 0x08] ++ List.replicate 8 0 ++ WriteBuf.bigEndian 4 sdu ++ WriteBuf.bigEndian 4 tdu ++
    List.replicate 5 0

/-- The body of a REFUSE packet, with its error in a descriptor. -/
def refuseBody (error : Nat) : List UInt8 :=
  let text := utf8 ("(DESCRIPTION=(ERR=" ++ toString error ++ "))")
  [4, 0] ++ WriteBuf.bigEndian 2 text.length ++ text

/-- What stands in front of the value of a key. -/
def needle (unicode : Unicode) (key : String) : List Char :=
  '(' :: unicode.toUppercase key.toList ++ ['=']

/-- The value of a key in a connect descriptor. The key is looked up in a copy in capitals, and the
value is taken from the descriptor at the place of the key in the copy. -/
def descriptorValue (unicode : Unicode) (descriptor : List Char) (key : String) :
    Outcome (Option (List Char)) :=
  match Text.find (needle unicode key) (unicode.toUppercase descriptor) with
  | none => .ok none
  | some found =>
      let start := found + Text.size (needle unicode key)
      match Text.dropBytes descriptor start with
      | none => .error .panic
      | some rest =>
          match Text.find [')'] rest with
          | none => .ok none
          | some length =>
              match Text.slice descriptor start (length + start) with
              | none => .error .panic
              | some value => .ok (some value)

/-- The service that a descriptor names: its SERVICE_NAME, or its SID. -/
def serviceName (unicode : Unicode) (descriptor : List Char) : Outcome (List Char) := do
  match ← descriptorValue unicode descriptor "SERVICE_NAME" with
  | some name => return name
  | none => return (← descriptorValue unicode descriptor "SID").getD "FREEPDB1".toList

/-- What a handshake settles for the session. -/
structure Agreement where
  serviceName : String
  sdu : Sdu

section Handshake

/- The text of bytes that may not be UTF-8, and what becomes of an answer on its way to the client. -/
variable (unicode : Unicode) (lossy : List UInt8 → List Char) (ending : Option IoError)
  (send : List UInt8 → Except IoError Unit)

/-- Write bytes to the client. -/
def write (bytes : List UInt8) : Outcome Unit :=
  match send bytes with
  | .ok () => .ok ()
  | .error e => .error (.io e)

/-- The answer to a CONNECT with a descriptor: none after a refusal. -/
def answer (request : ConnectRequest) (descriptor : List Char) : Outcome (Option Agreement) := do
  if request.version < minVersion then
    write send (writePacket false refuse (refuseBody 12520))
    return none
  else
    let service ← serviceName unicode descriptor
    let sdu := Sdu.clamp request.sdu
    let tdu := max 255 (min request.tdu (2 * 1024 * 1024))
    write send (writePacket false accept (acceptBody sdu.size tdu))
    return some ⟨String.ofList service, sdu⟩

/-- Answers the first packet of a connection. -/
def receive (packet : Packet) : Wire (Option Agreement) := do
  if packet.kind ≠ connect then
    throw (invalid ("expected CONNECT, got packet type " ++ toString packet.kind))
  else
    let request ← parseConnect packet
    if request.data.length < request.dataLen then
      let some more ← readPacket ending false | return none
      let bytes ← more.data
      answer unicode send request (lossy bytes)
    else answer unicode send request (lossy request.data)

/-- Reads CONNECT and answers it. -/
def handshake : Wire (Option Agreement) := do
  let some packet ← readPacket ending false | return none
  receive unicode lossy ending send packet

end Handshake

end Tns

end MockOracle.Server
