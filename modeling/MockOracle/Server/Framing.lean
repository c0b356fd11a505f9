import MockOracle.Server.Tns

/-!
# Framing

A payload written in packets is read back from them, whatever its length and the size of packets.
-/

namespace MockOracle.Server.Tns

open Semantics Semantics.Codec

variable {ending : Option IoError}

theorem readExact_append (bytes rest : List UInt8) :
    (readExact ending bytes.length).run (bytes ++ rest) = .ok (some bytes, rest) := by
  simp [StateT.run, readExact]

/-- The header of a packet. -/
def header (largeSdu : Bool) (kind : UInt8) (len : Nat) : List UInt8 :=
  (if largeSdu then WriteBuf.bigEndian 4 len else WriteBuf.bigEndian 2 len ++ [0, 0]) ++
    [kind, 0, 0, 0]

theorem length_header (largeSdu : Bool) (kind : UInt8) (len : Nat) :
    (header largeSdu kind len).length = headerLen := by
  cases largeSdu <;> simp [header, length_bigEndian, headerLen]

theorem kind_header (largeSdu : Bool) (kind : UInt8) (len : Nat) :
    (header largeSdu kind len).getD 4 0 = kind := by
  cases largeSdu <;> rfl

theorem take_header (largeSdu : Bool) (kind : UInt8) (len : Nat) :
    (header largeSdu kind len).take (if largeSdu then 4 else 2) =
      WriteBuf.bigEndian (if largeSdu then 4 else 2) len := by
  cases largeSdu <;> rfl

/-- A written packet is read back if its length fits in the header. -/
theorem reads_packet {largeSdu : Bool} {kind : UInt8} {body : List UInt8}
    (fits : headerLen + body.length < 256 ^ (if largeSdu then 4 else 2))
    (small : headerLen + body.length ≤ maxPacketLen) (flagged : kind = data → 2 ≤ body.length) :
    Reads (readPacket ending largeSdu) (writePacket largeSdu kind body) (some ⟨kind, body⟩) := by
  intro rest
  have written : writePacket largeSdu kind body ++ rest =
      header largeSdu kind (headerLen + body.length) ++ (body ++ rest) := by
    rw [← List.append_assoc]
    rfl
  have first := @readExact_append ending
    (header largeSdu kind (headerLen + body.length)) (body ++ rest)
  have second := @readExact_append ending body rest
  rw [length_header] at first
  rw [written, readPacket, run_bind_of_ok first]
  have len : ReadBuf.fromBigEndian ((header largeSdu kind (headerLen + body.length)).take
      (if largeSdu then 4 else 2)) = headerLen + body.length := by
    rw [take_header, fromBigEndian_bigEndian (by cases largeSdu <;> decide), Nat.mod_eq_of_lt fits]
  simp only [len, kind_header, Nat.add_sub_cancel_left]
  rw [if_neg (not_not_intro ⟨Nat.le_add_right _ _, small⟩), run_bind_of_ok second]
  simp only
  rw [if_neg fun short => absurd (flagged short.1) (not_le.mpr short.2)]
  rfl

/-- Packets that are read back one by one are read back up to the end of the stream. -/
theorem readPackets_flatMap {largeSdu : Bool} {write : List UInt8 → List UInt8}
    {packet : List UInt8 → Packet} {pieces : List (List UInt8)} {fuel : Nat}
    (each : ∀ piece ∈ pieces, Reads (readPacket none largeSdu) (write piece) (some (packet piece)))
    (enough : pieces.length < fuel) :
    (readPackets none largeSdu fuel).run (pieces.flatMap write) = .ok (pieces.map packet, []) := by
  induction pieces generalizing fuel with
  | nil =>
      cases fuel with
      | zero => omega
      | succ fuel => rfl
  | cons piece pieces ih =>
      cases fuel with
      | zero => omega
      | succ fuel =>
          have first := each piece List.mem_cons_self (pieces.flatMap write)
          have more := ih (fun p member => each p (List.mem_cons_of_mem _ member))
            (Nat.lt_of_succ_lt_succ enough)
          rw [readPackets, List.flatMap_cons, run_bind_of_ok first]
          simp only [StateT.run_map, more]
          rfl

/-- The parts of the payload that packets carry. -/
theorem mapM_data (flags : List UInt8) (two : flags.length = 2) (chunks : List (List UInt8)) :
    (chunks.map fun chunk => (⟨Tns.data, flags ++ chunk⟩ : Packet)).mapM Packet.data = .ok chunks := by
  have part (chunk : List UInt8) : Packet.data ⟨Tns.data, flags ++ chunk⟩ = .ok chunk := by
    rw [Packet.data, slice, if_pos (by simp [two]), List.take_length, ← two, List.drop_left]
  induction chunks with
  | nil => rfl
  | cons chunk chunks ih =>
      rw [List.map_cons, List.mapM_cons, part, ih]
      rfl

/-- Every payload is read back as data packets within the size, with nothing left over. -/
theorem write_data_read_back (requested : Nat) (payload : List UInt8) :
    ∃ packets, (readPackets none true (payload.length + 1)).run
          (writeData (Sdu.clamp requested) payload) = .ok (packets, []) ∧
      (∀ p ∈ packets, p.kind = data ∧ headerLen + p.body.length ≤ (Sdu.clamp requested).size) ∧
      (packets.mapM Packet.data).map List.flatten = .ok payload := by
  have low := (Sdu.clamp requested).low
  have high := (Sdu.clamp requested).high
  set size := (Sdu.clamp requested).size
  have positive : 0 < size - headerLen - 2 := by
    rw [headerLen]
    omega
  obtain ⟨whole, pieces⟩ := toChunks_pieces positive payload
  have within : ∀ chunk ∈ payload.toChunks (size - headerLen - 2),
      headerLen + (WriteBuf.bigEndian 2 0 ++ chunk).length ≤ size := by
    intro chunk member
    have := (pieces chunk member).2
    rw [List.length_append, length_bigEndian]
    omega
  refine ⟨(payload.toChunks (size - headerLen - 2)).map fun chunk =>
    ⟨data, WriteBuf.bigEndian 2 0 ++ chunk⟩, ?_, ?_, ?_⟩
  · refine readPackets_flatMap (fun chunk member => ?_)
      (Nat.lt_succ_of_le (length_toChunks_le positive payload))
    have small := within chunk member
    refine reads_packet ?_ ?_ fun _ => ?_
    · simp only [if_true]
      omega
    · rw [maxPacketLen]
      omega
    · rw [List.length_append, length_bigEndian]
      omega
  · intro p member
    obtain ⟨chunk, isChunk, rfl⟩ := List.mem_map.mp member
    exact ⟨rfl, within chunk isChunk⟩
  · rw [mapM_data _ (length_bigEndian 2 0)]
    exact congrArg Except.ok whole

end MockOracle.Server.Tns
