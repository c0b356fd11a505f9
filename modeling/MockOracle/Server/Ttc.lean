import MockOracle.Semantics.Codec

/-!
# TTC encoding

The message layer inside TNS DATA packets, as `ttc.rs` has it. Integers are a length byte and
that many big-endian bytes; byte strings carry a length byte, or come in chunks when they are
longer than 252 bytes. Reading a sequence of fields gives back what was written.
-/

namespace MockOracle.Server

open Semantics.Codec

/-- Invalid data on the wire. -/
structure IoError where
  message : String
  deriving DecidableEq, Repr

/-- The length byte in front of chunks. -/
def longLengthIndicator : UInt8 := 254

/-- The length byte of NULL. -/
def nullLengthIndicator : UInt8 := 255

/-- The longest byte string with a length of one byte. -/
def maxShortLength : Nat := 252

/-- The bytes of a chunk, but for the last one. -/
def chunkSize : Nat := 65536

/-- What is left to read of a message. -/
abbrev ReadBuf := Reader UInt8 IoError

namespace ReadBuf

/-- A number of bytes, if the message has as many. -/
def bytes (n : Nat) : ReadBuf (List UInt8) := fun buf =>
  if buf.length < n then
    .error ⟨"TTC message truncated: need " ++ toString n ++ " bytes, have " ++ toString buf.length⟩
  else .ok (buf.take n, buf.drop n)

/-- One byte. -/
def u8 : ReadBuf UInt8 := (·.headD 0) <$> bytes 1

/-- The number that big-endian bytes make up, in 64 bits. -/
def fromBigEndian (bytes : List UInt8) : Nat :=
  bytes.foldl (fun acc b => acc * 256 % 2 ^ 64 + b.toNat) 0

/-- A length byte, whose top bit is the sign, and that many bytes. -/
def varInt (max : Nat) : ReadBuf (Nat × Bool) := do
  let size ← u8
  digits size.toNat
where
  digits (size : Nat) : ReadBuf (Nat × Bool) :=
    if max < size % 128 then
      throw ⟨"integer of " ++ toString (size % 128) ++ " bytes exceeds " ++ toString max⟩
    else (fun b => (fromBigEndian b, decide (128 ≤ size))) <$> bytes (size % 128)

/-- A number of up to 2 bytes. -/
def ub2 : ReadBuf UInt16 := (fun v => .ofNat v.1) <$> varInt 2

/-- A number of up to 4 bytes. -/
def ub4 : ReadBuf UInt32 := (fun v => .ofNat v.1) <$> varInt 4

/-- Reading bytes leaves as many less. -/
theorem shorter_bytes {n : Nat} {buf rest b : List UInt8} (read : bytes n buf = .ok (b, rest)) :
    rest.length + n = buf.length := by
  unfold bytes at read
  split at read
  · cases read
  · cases read
    rw [List.length_drop]
    omega

/-- Reading a number leaves less. -/
theorem shorter_ub4 {buf rest : List UInt8} {v : UInt32} (read : ub4 buf = .ok (v, rest)) :
    rest.length < buf.length := by
  obtain ⟨number, whole, _⟩ := Semantics.Codec.map_ok read
  obtain ⟨size, middle, first, second⟩ := Semantics.Codec.bind_ok whole
  obtain ⟨b, byte, _⟩ := Semantics.Codec.map_ok first
  have one := shorter_bytes byte
  unfold varInt.digits at second
  split at second
  · cases second
  · obtain ⟨digits, more, _⟩ := Semantics.Codec.map_ok second
    have others := shorter_bytes more
    omega

/-- The chunks of a long byte string, up to an empty one. -/
def chunks (buf : List UInt8) : Except IoError (List UInt8 × List UInt8) :=
  match _size : ub4 buf with
  | .error e => .error e
  | .ok (chunk, rest) =>
      if chunk = 0 then .ok ([], rest)
      else
        match _body : bytes chunk.toNat rest with
        | .error e => .error e
        | .ok (b, rest) =>
            match chunks rest with
            | .error e => .error e
            | .ok (out, rest) => .ok (b ++ out, rest)
termination_by buf.length
decreasing_by
  have first := shorter_ub4 _size
  have second := shorter_bytes _body
  omega

/-- A length-prefixed byte string; `none` for NULL (length 0 or 255). -/
def bytesWithLength : ReadBuf (Option (List UInt8)) := do
  let len ← u8
  if len = 0 ∨ len = nullLengthIndicator then return none
  else if len = longLengthIndicator then some <$> chunks
  else some <$> bytes len.toNat

/-- The text of UTF-8 bytes. -/
def fromUtf8 (b : List UInt8) : ReadBuf String :=
  match String.fromUTF8? ⟨b.toArray⟩ with
  | some s => pure s
  | none => throw ⟨"string is not UTF-8"⟩

/-- A length-prefixed text; NULL is the empty text. -/
def stringWithLength : ReadBuf String := do
  fromUtf8 ((← bytesWithLength).getD [])

/-- A string after its length, which is not looked at further. -/
def strWithUb4Length : ReadBuf String := do
  if 0 < (← ub4) then stringWithLength else return ""

/-- A key/value pair as sent in login messages. -/
def keyValue : ReadBuf (String × String × UInt32) := do
  let key ← strWithUb4Length
  let val ← strWithUb4Length
  let flags ← ub4
  return (key, val, flags)

end ReadBuf

/-- The bytes of a text. -/
def utf8 (s : String) : List UInt8 := s.toUTF8.data.toList

namespace WriteBuf

/-- The last `size` big-endian bytes of a number. -/
def bigEndian : Nat → Nat → List UInt8
  | 0, _ => []
  | size + 1, v => bigEndian size (v / 256) ++ [.ofNat v]

/-- A number of 64 bits with its sign. -/
def varInt (v : Nat) (negative : Bool) : List UInt8 :=
  let sign : UInt8 := if negative then 0x80 else 0
  if v = 0 then [0]
  else if v ≤ 0xff then (1 ||| sign) :: bigEndian 1 v
  else if v ≤ 0xffff then (2 ||| sign) :: bigEndian 2 v
  else if v ≤ 0xffffffff then (4 ||| sign) :: bigEndian 4 v
  else (8 ||| sign) :: bigEndian 8 v

/-- Write one byte. -/
def u8 (v : UInt8) : List UInt8 := [v]

/-- Write a number of up to 2 bytes. -/
def ub2 (v : UInt16) : List UInt8 := varInt v.toNat false

/-- Write a number of up to 4 bytes. -/
def ub4 (v : UInt32) : List UInt8 := varInt v.toNat false

/-- The chunks of a long byte string. -/
def chunks (b : List UInt8) : List UInt8 :=
  if b.isEmpty then []
  else ub4 (.ofNat (b.take chunkSize).length) ++ b.take chunkSize ++ chunks (b.drop chunkSize)
termination_by b.length
decreasing_by
  have nonempty : b ≠ [] := by simpa using ‹¬b.isEmpty = true›
  have := List.length_pos_of_ne_nil nonempty
  simp only [List.length_drop, chunkSize]
  omega

/-- Write a length-prefixed byte string, in chunks if it is long. -/
def bytesWithLength (b : List UInt8) : List UInt8 :=
  if b.length ≤ maxShortLength then .ofNat b.length :: b
  else longLengthIndicator :: (chunks b ++ ub4 0)

/-- A string preceded by its UB4 byte length and then its own length prefix. -/
def strWithUb4Length (s : String) : List UInt8 :=
  ub4 (.ofNat s.utf8ByteSize) ++ if s.isEmpty then [] else bytesWithLength (utf8 s)

/-- Write a key/value pair. -/
def keyValue (key value : String) (flags : UInt32) : List UInt8 :=
  strWithUb4Length key ++ strWithUb4Length value ++ ub4 flags

end WriteBuf

/-! ## Integers -/

open ReadBuf

/-- Bytes are read back. -/
theorem reads_bytes (b : List UInt8) : Reads (ReadBuf.bytes b.length) b b := by
  intro rest
  have enough : ¬ (b ++ rest).length < b.length := by
    rw [List.length_append]
    omega
  simp only [StateT.run, ReadBuf.bytes, if_neg enough, List.take_left, List.drop_left]

/-- A byte is read back. -/
theorem reads_u8 (v : UInt8) : Reads ReadBuf.u8 (WriteBuf.u8 v) v :=
  (reads_bytes [v]).map_

/-- Big-endian bytes are as many as asked for. -/
theorem length_bigEndian (size v : Nat) : (WriteBuf.bigEndian size v).length = size := by
  induction size generalizing v with
  | zero => rfl
  | succ size ih => rw [WriteBuf.bigEndian, List.length_append, ih, List.length_singleton]

/-- Big-endian bytes make up the number they were taken from. -/
theorem fromBigEndian_bigEndian {size : Nat} (fits : size ≤ 8) (v : Nat) :
    fromBigEndian (WriteBuf.bigEndian size v) = v % 256 ^ size := by
  induction size generalizing v with
  | zero => simp [WriteBuf.bigEndian, fromBigEndian, Nat.mod_one]
  | succ size ih =>
      have small : 256 ^ size * 256 ≤ 2 ^ 64 := by
        rw [← Nat.pow_succ]
        exact (Nat.pow_le_pow_right (by norm_num) fits).trans (by norm_num)
      have high : v / 256 % 256 ^ size * 256 < 2 ^ 64 := by
        have := Nat.mod_lt (v / 256) (show 0 < 256 ^ size by positivity)
        have := Nat.mul_le_mul_right 256 this
        omega
      have prior := ih (by omega) (v / 256)
      unfold fromBigEndian at prior ⊢
      rw [WriteBuf.bigEndian, List.foldl_append, prior, List.foldl_cons, List.foldl_nil,
        Nat.mod_eq_of_lt high, Nat.pow_succ, Nat.mul_comm (256 ^ size), Nat.mod_mul]
      simp only [UInt8.toNat_ofNat']
      omega

/-- A length byte and that many bytes of a number. -/
theorem reads_sized {max size v : Nat} (fits : v < 256 ^ size) (le : size ≤ max) (few : size ≤ 8) :
    Reads (ReadBuf.varInt max) (.ofNat size :: WriteBuf.bigEndian size v) (v, false) := by
  have length : (UInt8.ofNat size).toNat = size := by
    rw [UInt8.toNat_ofNat']
    omega
  have value : fromBigEndian (WriteBuf.bigEndian size v) = v := by
    rw [fromBigEndian_bigEndian few, Nat.mod_eq_of_lt fits]
  have digits : Reads (varInt.digits max size) (WriteBuf.bigEndian size v) (v, false) := by
    have small : size % 128 = size := by omega
    have positive : decide (128 ≤ size) = false := decide_eq_false (by omega)
    have read := reads_bytes (WriteBuf.bigEndian size v)
    rw [length_bigEndian] at read
    rw [varInt.digits, small, if_neg (by omega), positive]
    have mapped := read.map_ (g := fun b => (fromBigEndian b, false))
    rw [value] at mapped
    exact mapped
  exact (reads_u8 (.ofNat size)).bind_ (by rw [length]; exact digits)

/-- A number that fits its bytes is read back. -/
theorem reads_varInt {max v : Nat} (fits : v < 256 ^ max) (width : max = 2 ∨ max = 4) :
    Reads (ReadBuf.varInt max) (WriteBuf.varInt v false) (v, false) := by
  unfold WriteBuf.varInt
  simp only [Bool.false_eq_true, if_false]
  split
  · next zero =>
      subst zero
      exact @reads_sized max 0 0 (by norm_num) (Nat.zero_le _) (by norm_num)
  · split
    · exact @reads_sized max 1 v (by omega) (by omega) (by norm_num)
    · split
      · exact @reads_sized max 2 v (by omega) (by omega) (by norm_num)
      · split
        · rcases width with rfl | rfl
          · omega
          · exact @reads_sized 4 4 v (by omega) (by omega) (by norm_num)
        · rcases width with rfl | rfl <;> omega

/-- A number of 2 bytes is read back. -/
theorem reads_ub2 (v : UInt16) : Reads ReadBuf.ub2 (WriteBuf.ub2 v) v := by
  have read := (@reads_varInt 2 v.toNat v.toNat_lt (Or.inl rfl)).map_ (g := fun v => UInt16.ofNat v.1)
  rw [UInt16.ofNat_toNat] at read
  exact read

/-- A number of 4 bytes is read back. -/
theorem reads_ub4 (v : UInt32) : Reads ReadBuf.ub4 (WriteBuf.ub4 v) v := by
  have read := (@reads_varInt 4 v.toNat v.toNat_lt (Or.inr rfl)).map_ (g := fun v => UInt32.ofNat v.1)
  rw [UInt32.ofNat_toNat] at read
  exact read

/-! ## Byte strings -/

namespace ReadBuf

/-- A chunk of length 0 ends the chunks. -/
theorem chunks_end {buf rest : List UInt8} (size : ub4 buf = .ok (0, rest)) :
    chunks buf = .ok ([], rest) := by
  rw [chunks]
  split
  · next e failed =>
      rw [size] at failed
      cases failed
  · next chunk left read =>
      rw [size] at read
      cases read
      rfl

/-- A chunk is followed by the others. -/
theorem chunks_more {buf left after rest b out : List UInt8} {chunk : UInt32}
    (size : ub4 buf = .ok (chunk, left)) (nonzero : chunk ≠ 0)
    (body : bytes chunk.toNat left = .ok (b, after)) (more : chunks after = .ok (out, rest)) :
    chunks buf = .ok (b ++ out, rest) := by
  rw [chunks]
  split
  · next e failed =>
      rw [size] at failed
      cases failed
  · next read =>
      rw [size] at read
      cases read
      rw [if_neg nonzero]
      split
      · next e failed =>
          rw [body] at failed
          cases failed
      · next found =>
          rw [body] at found
          cases found
          rw [more]

end ReadBuf

/-- The chunks of a long byte string, and the empty one at the end. -/
theorem reads_chunks (b : List UInt8) :
    Reads ReadBuf.chunks (WriteBuf.chunks b ++ WriteBuf.ub4 0) b := by
  intro rest
  induction b using WriteBuf.chunks.induct with
  | case1 b empty =>
      rw [List.isEmpty_iff] at empty
      subst empty
      rw [WriteBuf.chunks, if_pos List.isEmpty_nil, List.nil_append]
      exact chunks_end (reads_ub4 0 rest)
  | case2 b nonempty ih =>
      have length : (b.take chunkSize).length < 2 ^ 32 := by
        have := List.length_take_le chunkSize b
        unfold chunkSize at this ⊢
        omega
      have positive : 0 < (b.take chunkSize).length := by
        have := List.length_pos_of_ne_nil (by simpa using nonempty)
        rw [List.length_take]
        unfold chunkSize
        omega
      have exact_ : (UInt32.ofNat (b.take chunkSize).length).toNat = (b.take chunkSize).length := by
        rw [UInt32.toNat_ofNat', Nat.mod_eq_of_lt length]
      rw [WriteBuf.chunks, if_neg nonempty]
      simp only [List.append_assoc]
      have whole := chunks_more (reads_ub4 (.ofNat (b.take chunkSize).length) _) ?_
        (by rw [exact_]; exact reads_bytes (b.take chunkSize) _) ih
      · rw [List.take_append_drop] at whole
        simpa only [List.append_assoc, StateT.run] using whole
      · intro zero
        rw [zero, UInt32.toNat_zero] at exact_
        omega

/-- A byte string is read back, and an empty one as NULL. -/
theorem reads_bytesWithLength (b : List UInt8) :
    Reads ReadBuf.bytesWithLength (WriteBuf.bytesWithLength b)
      (if b.isEmpty then none else some b) := by
  unfold WriteBuf.bytesWithLength
  split
  · next short =>
      have length : (UInt8.ofNat b.length).toNat = b.length := by
        rw [UInt8.toNat_ofNat']
        unfold maxShortLength at short
        omega
      refine (reads_u8 (.ofNat b.length)).bind_ ?_
      cases b with
      | nil => exact .pure_ none
      | cons first more =>
          have positive : UInt8.ofNat (first :: more).length ≠ 0 := by
            intro zero
            rw [zero, UInt8.toNat_zero] at length
            cases length
          have notNull : UInt8.ofNat (first :: more).length ≠ nullLengthIndicator := by
            intro equal
            rw [equal] at length
            have : nullLengthIndicator.toNat = 255 := rfl
            unfold maxShortLength at short
            omega
          have notLong : UInt8.ofNat (first :: more).length ≠ longLengthIndicator := by
            intro equal
            rw [equal] at length
            have : longLengthIndicator.toNat = 254 := rfl
            unfold maxShortLength at short
            omega
          rw [if_neg (not_or.mpr ⟨positive, notNull⟩), if_neg notLong, length]
          exact (reads_bytes (first :: more)).map_
  · next long =>
      have nonempty : ¬ b.isEmpty = true := by
        intro empty
        rw [List.isEmpty_iff.mp empty] at long
        exact long (Nat.zero_le _)
      rw [if_neg nonempty]
      exact (reads_u8 longLengthIndicator).bind_ (reads_chunks b).map_

/-! ## Strings -/

/-- A text has as many bytes as its UTF-8 encoding. -/
theorem length_utf8 (s : String) : (utf8 s).length = s.utf8ByteSize := by
  rw [utf8, String.toUTF8_eq_toByteArray, Array.length_toList]
  rfl

/-- The bytes of a text are those of this text. -/
theorem fromUtf8_utf8 (s : String) : fromUtf8 (utf8 s) = pure s := by
  have decoded : String.fromUTF8? ⟨(utf8 s).toArray⟩ = some s := by
    rw [utf8, Array.toArray_toList]
    exact dif_pos s.isValidUTF8
  rw [fromUtf8, decoded]

/-- A text that is not empty is read back. -/
theorem reads_stringWithLength {s : String} (nonempty : s ≠ "") :
    Reads ReadBuf.stringWithLength (WriteBuf.bytesWithLength (utf8 s)) s := by
  have some_ : ¬ (utf8 s).isEmpty = true := by
    intro empty
    have zero := length_utf8 s
    rw [List.isEmpty_iff.mp empty, List.length_nil] at zero
    exact nonempty (String.utf8ByteSize_eq_zero_iff.mp zero.symm)
  have read := reads_bytesWithLength (utf8 s)
  rw [if_neg some_] at read
  have whole := read.bind_ (f := fun b => fromUtf8 (b.getD [])) (b := s)
    (by rw [Option.getD_some, fromUtf8_utf8]; exact .pure_ s)
  rw [List.append_nil] at whole
  exact whole

/-- A text with its length in front is read back. -/
theorem reads_strWithUb4Length {s : String} (short : s.utf8ByteSize < 2 ^ 32) :
    Reads ReadBuf.strWithUb4Length (WriteBuf.strWithUb4Length s) s := by
  have length : (UInt32.ofNat s.utf8ByteSize).toNat = s.utf8ByteSize := by
    rw [UInt32.toNat_ofNat', Nat.mod_eq_of_lt short]
  refine (reads_ub4 (.ofNat s.utf8ByteSize)).bind_ ?_
  by_cases empty : s = ""
  · subst empty
    exact .pure_ ""
  · have positive : 0 < UInt32.ofNat s.utf8ByteSize := by
      rw [UInt32.lt_iff_toNat_lt, length]
      exact Nat.pos_of_ne_zero fun zero => empty (String.utf8ByteSize_eq_zero_iff.mp zero)
    have full : ¬ s.isEmpty = true := fun isEmpty => empty (String.isEmpty_iff.mp isEmpty)
    rw [if_pos positive, if_neg full]
    exact reads_stringWithLength empty

/-- A key/value pair is read back. -/
theorem reads_keyValue {key value : String} (shortKey : key.utf8ByteSize < 2 ^ 32)
    (shortValue : value.utf8ByteSize < 2 ^ 32) (flags : UInt32) :
    Reads ReadBuf.keyValue (WriteBuf.keyValue key value flags) (key, value, flags) := by
  have last := (reads_ub4 flags).map_ (g := fun flags => (key, value, flags))
  rw [WriteBuf.keyValue, List.append_assoc]
  refine (reads_strWithUb4Length shortKey).bind_ ((reads_strWithUb4Length shortValue).bind_ ?_)
  simpa using last

/-! ## Fields -/

/-- A field of a message; byte strings and texts are shorter than 2^32 bytes. -/
inductive Field where
  | u8 (v : UInt8)
  | ub2 (v : UInt16)
  | ub4 (v : UInt32)
  | bytesWithLength (b : List UInt8) (short : b.length < 2 ^ 32)
  | strWithUb4Length (s : String) (short : s.utf8ByteSize < 2 ^ 32)
  | keyValue (key value : String) (flags : UInt32) (shortKey : key.utf8ByteSize < 2 ^ 32)
      (shortValue : value.utf8ByteSize < 2 ^ 32)

/-- A value that was read. -/
inductive Reading where
  | u8 (v : UInt8)
  | ub2 (v : UInt16)
  | ub4 (v : UInt32)
  | bytesWithLength (b : Option (List UInt8))
  | strWithUb4Length (s : String)
  | keyValue (pair : String × String × UInt32)

namespace Field

/-- Write a field. -/
def write : Field → List UInt8
  | u8 v => WriteBuf.u8 v
  | ub2 v => WriteBuf.ub2 v
  | ub4 v => WriteBuf.ub4 v
  | bytesWithLength b _ => WriteBuf.bytesWithLength b
  | strWithUb4Length s _ => WriteBuf.strWithUb4Length s
  | keyValue key value flags _ _ => WriteBuf.keyValue key value flags

/-- Read a field of the same form. -/
def read : Field → ReadBuf Reading
  | u8 _ => .u8 <$> ReadBuf.u8
  | ub2 _ => .ub2 <$> ReadBuf.ub2
  | ub4 _ => .ub4 <$> ReadBuf.ub4
  | bytesWithLength _ _ => .bytesWithLength <$> ReadBuf.bytesWithLength
  | strWithUb4Length _ _ => .strWithUb4Length <$> ReadBuf.strWithUb4Length
  | keyValue _ _ _ _ _ => .keyValue <$> ReadBuf.keyValue

/-- The value the field carries: an empty byte string is NULL. -/
def value : Field → Reading
  | u8 v => .u8 v
  | ub2 v => .ub2 v
  | ub4 v => .ub4 v
  | bytesWithLength b _ => .bytesWithLength (if b.isEmpty then none else some b)
  | strWithUb4Length s _ => .strWithUb4Length s
  | keyValue key value flags _ _ => .keyValue (key, value, flags)

/-- Every field is read back. -/
theorem reads_field (field : Field) : Reads field.read field.write field.value := by
  cases field with
  | u8 v => exact (reads_u8 v).map_
  | ub2 v => exact (reads_ub2 v).map_
  | ub4 v => exact (reads_ub4 v).map_
  | bytesWithLength b short => exact (reads_bytesWithLength b).map_
  | strWithUb4Length s short => exact (reads_strWithUb4Length short).map_
  | keyValue key value flags shortKey shortValue =>
      exact (reads_keyValue shortKey shortValue flags).map_

end Field

/-- Fields written one after another, before anything else, read back as they were written and
leave exactly what follows. -/
theorem read_written_fields (fields : List Field) (rest : List UInt8) :
    (fields.mapM Field.read).run (fields.flatMap Field.write ++ rest) =
      .ok (fields.map Field.value, rest) :=
  Reads.mapM_ Field.reads_field fields rest

end MockOracle.Server
