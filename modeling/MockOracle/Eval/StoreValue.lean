import MockOracle.Core.Number
import MockOracle.Eval.Evaluator

/-!
# Storing values in columns

`storeValue` converts a value for storage in a column, enforcing the column's type, length and
precision. What it stores conforms to the column: it has the variant of the column's type, and
storing it again gives it back. The text of dates is left open, so that nothing here depends
on date formats.
-/

namespace MockOracle

open Semantics

/-- The text of date/times in a format, and back. -/
structure DateFormats where
  format : NaiveDateTime → String → String
  parse : String → String → Except OraError NaiveDateTime

namespace OraError

/-- ORA-00932, a value of a type that does not convert to the column's. -/
def inconsistent (expected got : String) : OraError :=
  ⟨932, "inconsistent datatypes: expected " ++ expected ++ " got " ++ got⟩

/-- ORA-01722, a text that is not a number. -/
def invalidNumber : OraError := ⟨1722, "invalid number"⟩

end OraError

/-- The characters with the White_Space property. -/
def isWhitespace (c : Char) : Bool :=
  (9 ≤ c.toNat && c.toNat ≤ 13) || c.toNat = 0x20 || c.toNat = 0x85 || c.toNat = 0xA0 ||
    c.toNat = 0x1680 || (0x2000 ≤ c.toNat && c.toNat ≤ 0x200A) || c.toNat = 0x2028 ||
    c.toNat = 0x2029 || c.toNat = 0x202F || c.toNat = 0x205F || c.toNat = 0x3000

/-- The text without white space at its ends. -/
def trim (text : String) : String :=
  String.ofList (((text.toList.dropWhile isWhitespace).reverse.dropWhile isWhitespace).reverse)

namespace Value

/-- Implicit conversion to NUMBER. -/
def toNumber : Value → Except OraError (Option BigDecimal)
  | null => .ok none
  | number n => .ok (some n)
  | varchar2 s => (BigDecimal.fromStr (trim s)).elim (.error .invalidNumber) fun n => .ok (some n)
  | date _ | timestamp _ => .error (.inconsistent "NUMBER" "DATE")
  | boolean _ => .error (.inconsistent "NUMBER" "BOOLEAN")

/-- Implicit conversion to a date/time, by a format for strings. -/
def toDatetime (dates : DateFormats) (format : String) : Value → Except OraError (Option NaiveDateTime)
  | null => .ok none
  | date d | timestamp d => .ok (some d)
  | varchar2 s => (dates.parse s format).map some
  | number _ => .error (.inconsistent "DATE" "NUMBER")
  | boolean _ => .error (.inconsistent "DATE" "BOOLEAN")

end Value

namespace BigDecimal

/-- Round to a number of decimal places, halves away from zero. -/
def withScaleRound (n : BigDecimal) (scale : Int) : BigDecimal :=
  if n.scale ≤ scale then n.withScale scale
  else
    let unit := 10 ^ (n.scale - scale).toNat
    ⟨n.intVal.sign * ((n.intVal.natAbs + unit / 2) / unit : Nat), scale⟩

/-- The digits before the decimal point, none for a number below one. -/
def intDigits (n : BigDecimal) : Nat :=
  let whole := BigDecimal.withScale ⟨n.intVal.natAbs, n.scale⟩ 0
  if whole.intVal = 0 then 0 else whole.toText.length

end BigDecimal

/-- Round the fraction of a second to `precision` digits, at most nine. -/
def roundFraction (d : NaiveDateTime) (precision : Nat) : NaiveDateTime :=
  let unit := 10 ^ (9 - min precision 9)
  let rounded := (d.nanos + unit / 2) / unit * unit
  if 1000000000 ≤ rounded then ⟨d.timestamp + 1, 0⟩ else ⟨d.timestamp, rounded⟩

/-- The type name used in messages. -/
def typeName : SqlType → String
  | .number _ _ => "NUMBER"
  | .varchar2 _ => "VARCHAR2"
  | .char _ => "CHAR"
  | .date => "DATE"
  | .timestamp _ => "TIMESTAMP"

/-- ORA-12899, a text longer than its column. -/
def valueTooLarge (user table column : String) (actual max : Nat) : OraError :=
  ⟨12899, "value too large for column \"" ++ user ++ "\".\"" ++ table ++ "\".\"" ++ column ++
    "\" (actual: " ++ toString actual ++ ", maximum: " ++ toString max ++ ")"⟩

/-- ORA-01438, a number with more integer digits than its column. -/
def precisionExceeded : OraError :=
  ⟨1438, "value larger than specified precision allowed for this column"⟩

namespace TableColumn

variable (dates : DateFormats) (env : Env) (user table : String) (col : TableColumn)

/-- A value stored in a NUMBER column: converted, rounded to the scale and checked. -/
def storeNumber (precision : Nat) (scale : Int) (v : Value) : Except OraError Value :=
  match v.toNumber with
  | .error e => .error e
  | .ok none => .ok .null
  | .ok (some n) =>
      if precision = 0 then .ok (.number n)
      else
        let n := (n.withScaleRound scale).normalized
        if (precision : Int) - scale < n.intDigits then .error precisionExceeded
        else .ok (.number n)

/-- The text of a value in the session's formats. -/
def textOf : Value → String
  | .null | .boolean _ => ""
  | .varchar2 s => s
  | .number n => formatNumber n
  | .date d => dates.format d env.nlsDateFormat
  | .timestamp d => dates.format d env.nlsTimestampFormat

/-- Store a text of at most `max` bytes, blank-padded to that length for CHAR. -/
def storeText (padded : Bool) (max : Nat) (text : String) : Except OraError Value :=
  let text := if padded then text.pushn ' ' (max - text.utf8ByteSize) else text
  if max < text.utf8ByteSize then
    .error (valueTooLarge user table col.name text.utf8ByteSize max)
  else .ok (Value.varchar text)

/-- A value stored in a DATE column: converted, its fraction of a second cut off. -/
def storeDate (v : Value) : Except OraError Value :=
  match v.toDatetime dates env.nlsDateFormat with
  | .error e => .error e
  | .ok none => .ok .null
  | .ok (some d) => .ok (.date ⟨d.timestamp, 0⟩)

/-- A value stored in a TIMESTAMP column: converted, its fraction rounded. -/
def storeTimestamp (precision : Nat) (v : Value) : Except OraError Value :=
  match v.toDatetime dates env.nlsTimestampFormat with
  | .error e => .error e
  | .ok none => .ok .null
  | .ok (some d) => .ok (.timestamp (roundFraction d precision))

/-- Convert a value for storage in a column. -/
def storeValue (v : Value) : Except OraError Value :=
  match v, col.sqlType with
  | .null, _ => .ok .null
  | .boolean _, sqlType => .error (.inconsistent (typeName sqlType) "BOOLEAN")
  | v, .number precision scale => storeNumber precision scale v
  | v, .varchar2 max => storeText user table col false max (textOf dates env v)
  | v, .char max => storeText user table col true max (textOf dates env v)
  | .number _, .date => .error (.inconsistent "DATE" "NUMBER")
  | v, .date => storeDate dates env v
  | .number _, .timestamp _ => .error (.inconsistent "TIMESTAMP" "NUMBER")
  | v, .timestamp precision => storeTimestamp dates env precision v

end TableColumn

/-- The variant of a type's values. -/
def SqlType.hasVariant : SqlType → Value → Bool
  | .number _ _, .number _ => true
  | .varchar2 _, .varchar2 _ => true
  | .char _, .varchar2 _ => true
  | .date, .date _ => true
  | .timestamp _, .timestamp _ => true
  | _, _ => false

/-- A value is NULL, or of the column's variant and accepted by the column unchanged. -/
def Value.Conforms (dates : DateFormats) (col : TableColumn) (v : Value) : Prop :=
  v = .null ∨ (col.sqlType.hasVariant v = true ∧
    ∀ env user table, col.storeValue dates env user table v = .ok v)

/-- A row whose values conform to the columns. -/
def RowConforms (dates : DateFormats) (columns : List TableColumn) (row : Row) : Prop :=
  List.Forall₂ (fun c v => v.Conforms dates c) columns row

/-- All rows of the table conform to its columns. -/
def Table.Conforms (dates : DateFormats) (t : Table) : Prop :=
  ∀ (id : Nat) (row : Row), t.rows[id]? = some row → RowConforms dates t.columns row

/-- All tables of the catalog conform. -/
def Catalog.Conforms (dates : DateFormats) (cat : Catalog) : Prop :=
  ∀ (name : String) (t : Table), cat.table name = some t → t.Conforms dates

/-! ## What is stored conforms -/

namespace BigDecimal

/-- Stripping zeros lowers the scale. -/
theorem scale_stripZeros_le (fuel digits : Nat) (scale : Int) :
    (stripZeros fuel digits scale).2 ≤ scale := by
  induction fuel generalizing digits scale with
  | zero => exact Int.le_refl scale
  | succ fuel ih =>
      unfold stripZeros
      split
      · have := ih (digits / 10) (scale - 1)
        omega
      · exact Int.le_refl scale

/-- Rounding a rounded number to the same scale changes nothing. -/
theorem round_rounded (n : BigDecimal) (scale : Int) :
    ((n.withScaleRound scale).normalized.withScaleRound scale).normalized =
      (n.withScaleRound scale).normalized := by
  have scaled : (n.withScaleRound scale).scale = scale := by
    unfold withScaleRound withScale
    split <;> rfl
  by_cases zero : (n.withScaleRound scale).intVal = 0
  · have normal : (n.withScaleRound scale).normalized = ⟨0, 0⟩ := by rw [normalized, if_pos zero]
    rw [normal]
    unfold withScaleRound withScale
    split
    · simp [normalized]
    · simp [normalized]
  · have le : (n.withScaleRound scale).normalized.scale ≤ scale := by
      rw [normalized, if_neg zero]
      exact (scale_stripZeros_le _ _ _).trans scaled.le
    rw [withScaleRound, if_pos le, normalized_eq_iff, toRat_withScale _ le]
    exact (toRat_normalized _).symm ▸ rfl

end BigDecimal

/-- Rounding a rounded fraction to the same precision changes nothing. -/
theorem roundFraction_idem (d : NaiveDateTime) (precision : Nat) :
    roundFraction (roundFraction d precision) precision = roundFraction d precision := by
  have positive : 0 < 10 ^ (9 - min precision 9) := Nat.pow_pos (by norm_num)
  have keeps : ∀ k, (k * 10 ^ (9 - min precision 9) + 10 ^ (9 - min precision 9) / 2) /
      10 ^ (9 - min precision 9) = k := by
    intro k
    rw [Nat.add_comm, Nat.add_mul_div_right _ _ positive,
      Nat.div_eq_of_lt (Nat.div_lt_self positive (by norm_num)), Nat.zero_add]
  by_cases carries : 1000000000 ≤ (d.nanos + 10 ^ (9 - min precision 9) / 2) /
      10 ^ (9 - min precision 9) * 10 ^ (9 - min precision 9)
  · have rounded : roundFraction d precision = ⟨d.timestamp + 1, 0⟩ := by
      rw [roundFraction, if_pos carries]
    have half : 10 ^ (9 - min precision 9) / 2 / 10 ^ (9 - min precision 9) = 0 :=
      Nat.div_eq_of_lt (Nat.div_lt_self positive (by norm_num))
    rw [rounded, roundFraction]
    simp [half]
  · have rounded : roundFraction d precision = ⟨d.timestamp, (d.nanos + 10 ^ (9 - min precision 9) /
        2) / 10 ^ (9 - min precision 9) * 10 ^ (9 - min precision 9)⟩ := by
      rw [roundFraction, if_neg carries]
    rw [rounded, roundFraction]
    simp only [keeps, if_neg carries]

namespace TableColumn

variable {dates : DateFormats} {env : Env} {user table : String} {col : TableColumn} {v w : Value}

/-- A number that was stored is stored again as it is. -/
theorem storeNumber_conforms {precision : Nat} {scale : Int}
    (stored : storeNumber precision scale v = .ok w) :
    w = .null ∨ ∃ n, w = .number n ∧ storeNumber precision scale w = .ok w := by
  unfold storeNumber at stored
  split at stored
  · cases stored
  · cases stored
    exact Or.inl rfl
  · next n _ =>
      split at stored
      · next unconstrained =>
          cases stored
          refine Or.inr ⟨n, rfl, ?_⟩
          simp [storeNumber, Value.toNumber, unconstrained]
      · next constrained =>
          simp only at stored
          split at stored
          · cases stored
          · next fits =>
              cases stored
              refine Or.inr ⟨_, rfl, ?_⟩
              simp [storeNumber, Value.toNumber, constrained, BigDecimal.round_rounded, fits]

/-- Padding adds one byte for each blank. -/
theorem utf8ByteSize_pushn (text : String) (k : Nat) :
    (text.pushn ' ' k).utf8ByteSize = text.utf8ByteSize + k := by
  induction k with
  | zero => rfl
  | succ k ih =>
      have grown : text.pushn ' ' (k + 1) = (text.pushn ' ' k).push ' ' := rfl
      rw [grown, String.utf8ByteSize_push, ih]
      rfl

/-- Padding a padded text adds nothing. -/
theorem pad_padded (padded : Bool) (max : Nat) (text : String) :
    let pad := fun text : String =>
      if padded then text.pushn ' ' (max - text.utf8ByteSize) else text
    pad (pad text) = pad text := by
  cases padded with
  | false => rfl
  | true =>
      have none_ : max - (text.pushn ' ' (max - text.utf8ByteSize)).utf8ByteSize = 0 := by
        rw [utf8ByteSize_pushn]
        omega
      simp only [if_true, none_]
      rfl

/-- When a text is stored, and as what. -/
theorem storeText_ok {padded : Bool} {max : Nat} {text : String} :
    storeText user table col padded max text = .ok w ↔
      ¬ max < (if padded then text.pushn ' ' (max - text.utf8ByteSize) else text).utf8ByteSize ∧
        w = Value.varchar (if padded then text.pushn ' ' (max - text.utf8ByteSize) else text) := by
  unfold storeText
  by_cases large :
      max < (if padded then text.pushn ' ' (max - text.utf8ByteSize) else text).utf8ByteSize
  · simp only [large, if_true, not_true, false_and, reduceCtorEq]
  · simp only [large, if_false, not_false_eq_true, true_and, Except.ok.injEq]
    exact eq_comm

/-- A text that was stored is stored again as it is. -/
theorem storeText_conforms {padded : Bool} {max : Nat} {text : String}
    (stored : storeText user table col padded max text = .ok w) :
    w = .null ∨ ∃ s, w = .varchar2 s ∧
      ∀ user table, storeText user table col padded max s = .ok w := by
  obtain ⟨fits, rfl⟩ := storeText_ok.mp stored
  have again := pad_padded padded max text
  simp only at again
  generalize (if padded then text.pushn ' ' (max - text.utf8ByteSize) else text) = full at *
  by_cases nonempty : full.isEmpty
  · exact Or.inl (by rw [Value.varchar, if_pos nonempty])
  · have value : Value.varchar full = .varchar2 full := by rw [Value.varchar, if_neg nonempty]
    refine Or.inr ⟨full, value, fun user table => storeText_ok.mpr ?_⟩
    rw [again]
    exact ⟨fits, rfl⟩

/-- What a column accepts, it stores as a value that conforms to it. -/
theorem storeValue_conforms (stored : col.storeValue dates env user table v = .ok w) :
    w.Conforms dates col := by
  unfold storeValue at stored
  split at stored
  · cases stored
    exact Or.inl rfl
  · cases stored
  · next precision scale _ sqlType =>
      rcases storeNumber_conforms stored with rfl | ⟨n, rfl, again⟩
      · exact Or.inl rfl
      · refine Or.inr ⟨by rw [sqlType]; rfl, fun env user table => ?_⟩
        simp only [storeValue, sqlType]
        exact again
  · next max _ sqlType =>
      rcases storeText_conforms stored with rfl | ⟨s, rfl, again⟩
      · exact Or.inl rfl
      · refine Or.inr ⟨by rw [sqlType]; rfl, fun env user table => ?_⟩
        simp only [storeValue, sqlType]
        exact again user table
  · next max _ sqlType =>
      rcases storeText_conforms stored with rfl | ⟨s, rfl, again⟩
      · exact Or.inl rfl
      · refine Or.inr ⟨by rw [sqlType]; rfl, fun env user table => ?_⟩
        simp only [storeValue, sqlType]
        exact again user table
  · cases stored
  · next _ _ sqlType =>
      unfold storeDate at stored
      split at stored
      · cases stored
      · cases stored
        exact Or.inl rfl
      · cases stored
        refine Or.inr ⟨by rw [sqlType]; rfl, fun env user table => ?_⟩
        simp only [storeValue, sqlType]
        rfl
  · cases stored
  · next precision _ _ sqlType =>
      unfold storeTimestamp at stored
      split at stored
      · cases stored
      · cases stored
        exact Or.inl rfl
      · cases stored
        refine Or.inr ⟨by rw [sqlType]; rfl, fun env user table => ?_⟩
        simp only [storeValue, sqlType, storeTimestamp, Value.toDatetime, roundFraction_idem]

/-- What a column stores depends on the column's type only. -/
theorem storeValue_of_type {other : TableColumn} (same : other.sqlType = col.sqlType)
    (stored : col.storeValue dates env user table v = .ok w) :
    other.storeValue dates env user table v = .ok w := by
  have texts : ∀ {padded max text}, storeText user table col padded max text = .ok w →
      storeText user table other padded max text = .ok w :=
    fun stored => storeText_ok.mpr (storeText_ok.mp stored)
  unfold storeValue at stored ⊢
  rw [same]
  split at stored
  case h_1 => simpa using stored
  case h_2 => cases stored
  case h_3 notNull notBoolean sqlType => simpa only [sqlType] using stored
  case h_4 notNull notBoolean sqlType => simpa only [sqlType] using texts stored
  case h_5 notNull notBoolean sqlType => simpa only [sqlType] using texts stored
  case h_6 => cases stored
  case h_7 notNull notBoolean notNumber sqlType => simpa only [sqlType] using stored
  case h_8 => cases stored
  case h_9 notNull notBoolean notNumber sqlType => simpa only [sqlType] using stored

end TableColumn

/-- Whether a value conforms depends on the type of the column only. -/
theorem Value.Conforms.of_type {dates : DateFormats} {col other : TableColumn} {v : Value}
    (conforms : v.Conforms dates col) (same : other.sqlType = col.sqlType) :
    v.Conforms dates other := by
  rcases conforms with rfl | ⟨variant, accepted⟩
  · exact Or.inl rfl
  · refine Or.inr ⟨by rw [same]; exact variant, fun env user table => ?_⟩
    exact TableColumn.storeValue_of_type same (accepted env user table)

end MockOracle
