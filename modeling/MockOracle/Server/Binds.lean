import MockOracle.Core.Chrono
import MockOracle.Eval.StoreValue
import MockOracle.Server.Connection
import MockOracle.Server.NumberRange
import MockOracle.Server.Ttc

/-!
# Bind values on the wire

`readBindRow` reads the values a client sends with a statement and `writeOutValue` sends one back.
Date/times are seven bytes, and four more for a fraction; those with a time zone are sent in UTC.
Whatever is sent is read back as the same date/time.
-/

namespace MockOracle.Server

open Semantics Semantics.Calendar Semantics.Codec

/-! ## The code -/

/-- The message with the values of a row. -/
def msgRowData : UInt8 := 7

/-- The bind type of texts. -/
def typeVarchar : Nat := 1
/-- The bind type of numbers. -/
def typeNumber : Nat := 2
/-- The bind type of binary integers, which are sent as numbers. -/
def typeBinaryInteger : Nat := 3
/-- The bind type of dates, in seven bytes. -/
def typeDate : Nat := 12
/-- The bind type of texts of fixed length. -/
def typeChar : Nat := 96
/-- The bind type of timestamps. -/
def typeTimestamp : Nat := 180
/-- The bind type of timestamps with a time zone. -/
def typeTimestampTz : Nat := 181
/-- The bind type of timestamps in the session's time zone. -/
def typeTimestampLtz : Nat := 231
/-- The bind type of PL/SQL booleans. -/
def typeBoolean : Nat := 252

/-- The byte in front of an escape sequence. -/
def escapeChar : UInt8 := 253

/-- The numbers of a DATE, before they become bytes: century and year of the century are shifted
by 100, and the parts of the time by one. -/
def dateFields (d : NaiveDateTime) : List Int :=
  [d.year.tdiv 100 + 100, d.year.tmod 100 + 100, d.month, d.day, d.hour + 1, d.minute + 1,
    d.second + 1]

/-- Seven bytes, or eleven when there are fractional seconds. -/
def encodeDate (d : NaiveDateTime) (withFraction : Bool) : List UInt8 :=
  (dateFields d).map UInt8.ofInt ++
    if withFraction && d.nanos != 0 then WriteBuf.bigEndian 4 d.nanos else []

/-- Time bytes are stored plus one, so zero is never valid. -/
def decodeDate : List UInt8 → Except IoError NaiveDateTime
  | century :: yearOf :: month :: day :: hour :: minute :: second :: fraction =>
      let year : Int := ((century.toNat : Int) - 100) * 100 + yearOf.toNat - 100
      let nanos := if 4 ≤ fraction.length then ReadBuf.fromBigEndian (fraction.take 4) else 0
      if hour = 0 ∨ minute = 0 ∨ second = 0 then .error ⟨"invalid date value"⟩
      else
        match (fromYmdOpt year month.toNat day.toNat).bind fun date =>
            andHmsNanoOpt date (hour.toNat - 1) (minute.toNat - 1) (second.toNat - 1) nanos with
        | some d => .ok d
        | none => .error ⟨"invalid date value"⟩
  | _ => .error ⟨"short date value"⟩

/-- A PL/SQL BOOLEAN bind: `[1, 1]` for TRUE, `[0]` for FALSE, and an escape sequence for NULL. -/
def readBoolean : ReadBuf Value := do
  let len ← ReadBuf.u8
  if len = escapeChar then
    let _ ← ReadBuf.u8
    return .null
  else if len = 0 then return .null
  else
    let b ← ReadBuf.bytes len.toNat
    return .boolean (b.headD 0 = 1)

section Read

variable (lossy : List UInt8 → String) (dirs : List BindDir) (tzOffsetMinutes : Int)

/-- The value of the bytes sent for a type. -/
def bindValue (oraType : Nat) (bytes : List UInt8) : Except IoError Value :=
  if oraType = typeVarchar ∨ oraType = typeChar then .ok (.varchar (lossy bytes))
  else if oraType = typeNumber ∨ oraType = typeBinaryInteger then
    .ok ((Value.parseNumber (OraNum.decode (bytes.map UInt8.toNat))).getD .null)
  else if oraType = typeDate then .date <$> decodeDate bytes
  else if oraType = typeTimestamp then .timestamp <$> decodeDate bytes
  else if oraType = typeTimestampLtz ∨ oraType = typeTimestampTz then do
    let utc ← decodeDate bytes
    let localTime := utc.addMinutes tzOffsetMinutes
    return if bytes.length ≤ 7 then .date localTime else .timestamp localTime
  else .error ⟨"binding type " ++ toString oraType ++ " is not supported yet"⟩

/-- One bind value. Positions whose direction is RETURNING carry none. -/
def readBind (bind : BindMeta × Nat) : ReadBuf Value := do
  match dirs[bind.2]? with
  | some .returning => return .null
  | _ =>
      if bind.1.oraType = typeBoolean then readBoolean
      else
        match ← ReadBuf.bytesWithLength with
        | none => return .null
        | some bytes =>
            match bindValue lossy tzOffsetMinutes bind.1.oraType bytes with
            | .ok v => return v
            | .error e => throw e

/-- One row of bind values. -/
def readBindRow (binds : List BindMeta) : ReadBuf (List Value) := do
  if (← ReadBuf.u8) ≠ msgRowData then throw ⟨"expected bind row"⟩
  else binds.zipIdx.mapM (readBind lossy dirs tzOffsetMinutes)

end Read

/-- VALUE_ERROR, with what did not fit. -/
def valueError (detail : String) : OraError := ⟨6502, "PL/SQL: numeric or value error" ++ detail⟩

/-- The text of a value in the default formats. -/
def display (dates : DateFormats) : Value → String
  | .null => ""
  | .number n => formatNumber n
  | .varchar2 s => s
  | .date d => dates.format d "DD-MON-RR"
  | .timestamp d => dates.format d "DD-MON-RR HH.MI.SSXFF AM"
  | .boolean b => if b then "TRUE" else "FALSE"

/-- What a date/time type got instead. -/
def gotType : Value → String
  | .number _ => "NUMBER"
  | .boolean _ => "BOOLEAN"
  | _ => "CHAR"

/-- An OUT value as the number its bind wants. -/
def outNumber : Value → Except OraError Value
  | .number n => .ok (.number n)
  | .varchar2 s =>
      match Value.parseNumber (trim s) with
      | some n => .ok n
      | none => .error (valueError ": character to number conversion error")
  | .boolean b => .ok (.ofInt b.toNat)
  | _ => .error (valueError "")

/-- The bytes of an OUT value in the bind's type; none for NULL. -/
def outBytes (dates : DateFormats) (bind : BindMeta) (checkSize : Bool) (tzOffsetMinutes : Int) :
    Value → Except OraError (Option (List UInt8))
  | .null => .ok none
  | v =>
      if bind.oraType = typeNumber ∨ bind.oraType = typeBinaryInteger then do
        return (OraNum.encodeValue (← outNumber v)).map fun bytes => bytes.map UInt8.ofNat
      else if bind.oraType = typeDate ∨ bind.oraType = typeTimestamp then
        match v with
        | .date d | .timestamp d => .ok (some (encodeDate d (bind.oraType = typeTimestamp)))
        | v => .error (.inconsistent "DATE" (gotType v))
      else if bind.oraType = typeTimestampLtz ∨ bind.oraType = typeTimestampTz then
        match v with
        | .date d | .timestamp d => .ok (some (encodeDate (d.addMinutes (-tzOffsetMinutes)) true))
        | v => .error (.inconsistent "DATE" (gotType v))
      else if bind.oraType = typeBoolean then
        match v with
        | .boolean b => .ok (some (if b then [1, 1] else [0]))
        | _ => .error ⟨6550, "PLS-00382: expression is of wrong type"⟩
      else
        let text := display dates v
        if checkSize && bind.maxSize < text.utf8ByteSize then
          .error (valueError ": character string buffer too small")
        else .ok (some (utf8 text))

/-- An OUT value converted to the bind's type, followed by its indicator. A bind with no room gets
no value bytes at all. -/
def writeOutValue (dates : DateFormats) (v : Value) (bind : BindMeta) (checkSize : Bool)
    (tzOffsetMinutes : Int) : Except OraError (List UInt8) := do
  let bytes ← outBytes dates bind checkSize tzOffsetMinutes v
  let value :=
    if 0 < bind.maxSize ∨ bind.oraType = typeBoolean then
      match bytes with
      | some b => WriteBuf.bytesWithLength b
      | none => WriteBuf.u8 0
    else []
  return value ++ WriteBuf.ub4 0

/-! ## Dates are read as they were sent -/

/-- The year is one that the two bytes for it hold. -/
def Encodable (d : NaiveDateTime) : Prop := -10000 ≤ d.year ∧ d.year ≤ 15500

/-- No field of a date loses anything when it becomes a byte. -/
theorem dateFields_fit {d : NaiveDateTime} (encodable : Encodable d) :
    ∀ field ∈ dateFields d, 0 ≤ field ∧ field ≤ 255 := by
  have month := d.month_bounds
  have day := d.day_bounds
  have hour := d.hour_lt
  have minute := d.minute_lt
  have second := d.second_lt
  obtain ⟨first, last⟩ := encodable
  have century := Int.mul_tdiv_add_tmod d.year 100
  have low := Int.tmod_lt_of_pos d.year (show (0 : Int) < 100 by decide)
  have high := Int.lt_tmod_of_pos d.year (show (0 : Int) < 100 by decide)
  simp only [dateFields, List.mem_cons, List.not_mem_nil, or_false]
  rintro field (rfl | rfl | rfl | rfl | rfl | rfl | rfl) <;> omega

/-- A field of a date that fits its byte is what the byte holds. -/
theorem toNat_ofInt {field : Int} (fits : 0 ≤ field ∧ field ≤ 255) :
    (UInt8.ofInt field).toNat = field.toNat := by
  rw [UInt8.ofInt, UInt8.toNat_ofNat']
  omega

/-- A fraction is four bytes after the seven, and fewer are none. -/
theorem decodeDate_fields {d : NaiveDateTime} (encodable : Encodable d) {fraction : List UInt8}
    {nano : Nat} (isNano : nano < 1000000000)
    (holds : (if 4 ≤ fraction.length then ReadBuf.fromBigEndian (fraction.take 4) else 0) = nano) :
    decodeDate ((dateFields d).map UInt8.ofInt ++ fraction) = .ok { d with nanos := nano } := by
  have fits := dateFields_fit encodable
  simp only [dateFields, List.mem_cons, List.not_mem_nil, or_false, forall_eq_or_imp,
    forall_eq] at fits
  obtain ⟨century, yearOf, month, day, hour, minute, second⟩ := fits
  have parts := Int.mul_tdiv_add_tmod d.year 100
  have year : ((UInt8.ofInt (d.year.tdiv 100 + 100)).toNat - 100 : Int) * 100
      + (UInt8.ofInt (d.year.tmod 100 + 100)).toNat - 100 = d.year := by
    rw [toNat_ofInt century, toNat_ofInt yearOf]
    omega
  have stored {n : Nat} (small : (0 : Int) ≤ n + 1 ∧ (n + 1 : Int) ≤ 255) :
      (UInt8.ofInt (n + 1)).toNat = n + 1 := toNat_ofInt small
  have positive {n : Nat} (small : (0 : Int) ≤ n + 1 ∧ (n + 1 : Int) ≤ 255) :
      UInt8.ofInt (n + 1) ≠ 0 := by
    intro zero
    have := stored small
    rw [zero, UInt8.toNat_zero] at this
    omega
  have supported : -262143 ≤ d.year ∧ d.year ≤ 262142 := by
    obtain ⟨first, last⟩ := encodable
    omega
  have valid : ¬ (UInt8.ofInt (d.hour + 1) = 0 ∨ UInt8.ofInt (d.minute + 1) = 0
      ∨ UInt8.ofInt (d.second + 1) = 0) := by
    rintro (zero | zero | zero)
    · exact positive hour zero
    · exact positive minute zero
    · exact positive second zero
  simp only [dateFields, List.map_cons, List.map_nil, List.cons_append, List.nil_append, decodeDate,
    holds, year, if_neg valid]
  rw [toNat_ofInt month, toNat_ofInt day, stored hour, stored minute, stored second]
  simp only [Int.toNat_natCast, Nat.add_sub_cancel, d.fromYmdOpt_date supported,
    Option.bind_some, d.andHmsNanoOpt_parts isNano]

/-- A date in two bytes for the year is read back. -/
theorem decodeDate_encodeDate {d : NaiveDateTime} (encodable : Encodable d)
    (isNano : d.nanos < 1000000000) : decodeDate (encodeDate d true) = .ok d := by
  refine decodeDate_fields encodable isNano ?_
  by_cases zero : d.nanos = 0
  · rw [zero]
    rfl
  · have fraction : (true && d.nanos != 0) = true := by simpa using zero
    have four : (WriteBuf.bigEndian 4 d.nanos).take 4 = WriteBuf.bigEndian 4 d.nanos :=
      List.take_of_length_le (length_bigEndian 4 d.nanos).le
    rw [if_pos fraction, if_pos (length_bigEndian 4 d.nanos).ge, four,
      fromBigEndian_bigEndian (by decide), Nat.mod_eq_of_lt]
    omega

/-- Without fraction the date and the time of day are read back. -/
theorem decodeDate_encodeDate_whole {d : NaiveDateTime} (encodable : Encodable d) :
    decodeDate (encodeDate d false) = .ok { d with nanos := 0 } :=
  decodeDate_fields encodable (by decide) rfl

/-- Seven bytes are a date/time of whole seconds. -/
theorem length_encodeDate (d : NaiveDateTime) :
    (encodeDate d true).length = if d.nanos = 0 then 7 else 11 := by
  rw [encodeDate, List.length_append, List.length_map, apply_ite List.length, length_bigEndian]
  by_cases zero : d.nanos = 0
  · simp [zero, dateFields]
  · simp [zero, dateFields]

/-- A shift by a time zone can be shifted back. -/
theorem addMinutes_neg (d : NaiveDateTime) (minutes : Int) :
    (d.addMinutes (-minutes)).addMinutes minutes = d := by
  simp [NaiveDateTime.addMinutes]

/-- A day does not take the years of the calendar out of those that can be sent. -/
theorem encodable_addMinutes {d : NaiveDateTime} (years : -4713 ≤ d.year ∧ d.year ≤ 9999)
    {minutes : Int} (near : |minutes| ≤ 1440) : Encodable (d.addMinutes minutes) := by
  have moved := d.year_addMinutes near
  rw [abs_le] at moved
  unfold Encodable
  omega

section Zoned

variable {bind : BindMeta} {d : NaiveDateTime} {minutes : Int}

/-- The fraction tells a date from a timestamp, as it does for the client. -/
def zonedValue (d : NaiveDateTime) : Value := if d.nanos = 0 then .date d else .timestamp d

/-- A date sent in its time zone is the date in the session. -/
theorem bindValue_zoned (zoned : bind.oraType = typeTimestampTz ∨ bind.oraType = typeTimestampLtz)
    (encodable : Encodable (d.addMinutes (-minutes))) (isNano : d.nanos < 1000000000)
    (lossy : List UInt8 → String) :
    bindValue lossy minutes bind.oraType (encodeDate (d.addMinutes (-minutes)) true)
      = .ok (zonedValue d) := by
  have read := decodeDate_encodeDate encodable isNano
  have short : (encodeDate (d.addMinutes (-minutes)) true).length ≤ 7 ↔ d.nanos = 0 := by
    rw [length_encodeDate]
    show (if d.nanos = 0 then 7 else 11) ≤ 7 ↔ _
    split <;> simp_all
  have isZoned : bindValue lossy minutes bind.oraType (encodeDate (d.addMinutes (-minutes)) true)
      = (do
          let utc ← decodeDate (encodeDate (d.addMinutes (-minutes)) true)
          let localTime := utc.addMinutes minutes
          return if (encodeDate (d.addMinutes (-minutes)) true).length ≤ 7 then .date localTime
            else .timestamp localTime) := by
    rcases zoned with type | type <;> rw [type] <;> rfl
  rw [isZoned, read]
  simp only [short]
  show Except.ok (if d.nanos = 0 then Value.date ((d.addMinutes (-minutes)).addMinutes minutes)
    else .timestamp ((d.addMinutes (-minutes)).addMinutes minutes)) = _
  rw [addMinutes_neg]
  rfl

/-- A date/time with a time zone is sent in UTC. -/
theorem writeOutValue_zoned
    (zoned : bind.oraType = typeTimestampTz ∨ bind.oraType = typeTimestampLtz)
    (room : 0 < bind.maxSize) {v : Value} (isDate : v = .date d ∨ v = .timestamp d)
    (dates : DateFormats) (checkSize : Bool) :
    writeOutValue dates v bind checkSize minutes
      = .ok (WriteBuf.bytesWithLength (encodeDate (d.addMinutes (-minutes)) true)
          ++ WriteBuf.ub4 0) := by
  have sent : outBytes dates bind checkSize minutes v
      = .ok (some (encodeDate (d.addMinutes (-minutes)) true)) := by
    unfold outBytes
    rcases isDate with rfl | rfl <;> rcases zoned with type | type <;> rw [type] <;> rfl
  have hasRoom : 0 < bind.maxSize ∨ bind.oraType = typeBoolean := Or.inl room
  simp only [writeOutValue, sent, if_pos hasRoom]
  rfl

/-- A bind with a time zone is read back. -/
theorem reads_zoned (zoned : bind.oraType = typeTimestampTz ∨ bind.oraType = typeTimestampLtz)
    (encodable : Encodable (d.addMinutes (-minutes))) (isNano : d.nanos < 1000000000)
    (lossy : List UInt8 → String) {dirs : List BindDir} {i : Nat}
    (sends : dirs[i]? ≠ some .returning) :
    Reads (readBind lossy dirs minutes (bind, i))
      (WriteBuf.bytesWithLength (encodeDate (d.addMinutes (-minutes)) true)) (zonedValue d) := by
  have notBoolean : bind.oraType ≠ typeBoolean := by
    rcases zoned with type | type <;> rw [type] <;> decide
  have nonempty : (encodeDate (d.addMinutes (-minutes)) true).isEmpty = false := rfl
  have read := reads_bytesWithLength (encodeDate (d.addMinutes (-minutes)) true)
  rw [nonempty] at read
  unfold readBind
  split
  · next returning => exact absurd returning sends
  · rw [if_neg notBoolean]
    rw [← List.append_nil (WriteBuf.bytesWithLength _)]
    refine read.bind_ ?_
    simp only [Bool.false_eq_true, if_false, bindValue_zoned zoned encodable isNano lossy]
    exact .pure_ _

end Zoned

/-- A date/time sent on the wire is read back: with its fraction or without, every field in its
byte; and with a time zone, in whatever offset from UTC the session has. -/
theorem date_wire_round_trip (d : NaiveDateTime) (years : -4713 ≤ d.year ∧ d.year ≤ 9999)
    (isNano : d.nanos < 1000000000) :
    (∀ field ∈ dateFields d, 0 ≤ field ∧ field ≤ 255) ∧
      decodeDate (encodeDate d true) = .ok d ∧
      decodeDate (encodeDate d false) = .ok { d with nanos := 0 } ∧
      ∀ (tzOffsetMinutes : Int) (bind : BindMeta) (v : Value) (dates : DateFormats)
        (checkSize : Bool) (lossy : List UInt8 → String) (dirs : List BindDir) (rest : List UInt8),
        |tzOffsetMinutes| ≤ 24 * 60 →
        bind.oraType = typeTimestampTz ∨ bind.oraType = typeTimestampLtz → 0 < bind.maxSize →
        v = .date d ∨ v = .timestamp d → dirs[0]? ≠ some .returning →
        (∀ field ∈ dateFields (d.addMinutes (-tzOffsetMinutes)), 0 ≤ field ∧ field ≤ 255) ∧
          ∃ sent, writeOutValue dates v bind checkSize tzOffsetMinutes
              = .ok (sent ++ WriteBuf.ub4 0) ∧
            (readBindRow lossy dirs tzOffsetMinutes [bind]).run (msgRowData :: (sent ++ rest))
              = .ok ([if d.nanos = 0 then .date d else .timestamp d], rest) := by
  have encodable : Encodable d := by
    unfold Encodable
    omega
  refine ⟨dateFields_fit encodable, decodeDate_encodeDate encodable isNano,
    decodeDate_encodeDate_whole encodable, ?_⟩
  intro tzOffsetMinutes bind v dates checkSize lossy dirs rest near zoned room isDate sends
  have moved : Encodable (d.addMinutes (-tzOffsetMinutes)) :=
    encodable_addMinutes years (by rwa [abs_neg])
  refine ⟨dateFields_fit moved, _, writeOutValue_zoned zoned room isDate dates checkSize, ?_⟩
  have value : Reads ([(bind, 0)].mapM (readBind lossy dirs tzOffsetMinutes))
      (WriteBuf.bytesWithLength (encodeDate (d.addMinutes (-tzOffsetMinutes)) true))
      [zonedValue d] := by
    have one := (reads_zoned zoned moved isNano lossy sends).map_ (g := fun v => [v])
    simpa using one
  have row : Reads (readBindRow lossy dirs tzOffsetMinutes [bind])
      (WriteBuf.u8 msgRowData
        ++ WriteBuf.bytesWithLength (encodeDate (d.addMinutes (-tzOffsetMinutes)) true))
      [zonedValue d] := by
    refine (reads_u8 msgRowData).bind_ ?_
    exact value
  exact row rest

/-- A year before Christ is read back. -/
theorem date_wire_round_trip_before_christ :
    NaiveDateTime.year ⟨-200000000000, 5⟩ = -4368 ∧
      decodeDate (encodeDate ⟨-200000000000, 5⟩ true) = .ok ⟨-200000000000, 5⟩ :=
  ⟨by decide +kernel, (date_wire_round_trip ⟨-200000000000, 5⟩ (by decide +kernel) (by decide)).2.1⟩

end MockOracle.Server
