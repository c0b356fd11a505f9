import MockOracle.Eval.NumberText
import MockOracle.Server.OraNum

/-!
# The numbers that can be sent

`encode_value` writes a number in scientific notation and encodes that text. A number is sent
and comes back exactly when its normalized form has at most 40 digits, it is below 10^126 and
its last digit counts at least 10^-130.
-/

namespace MockOracle

open Semantics

namespace BigDecimal

/-- Scientific notation: one digit, the others behind a point, and the exponent. -/
def toScientificNotation (n : BigDecimal) : String :=
  if n.intVal = 0 then "0e0"
  else
    let digits := toString n.intVal.natAbs
    let fraction := digits.toList.drop 1
    (if n.intVal < 0 then "-" else "") ++ String.ofList (digits.toList.take 1) ++
      (if fraction.isEmpty then "" else "." ++ String.ofList fraction) ++ "e" ++
      toString ((fraction.length : Int) - n.scale)

/-- The digits of a number without zeros at either end. -/
def significantDigits (n : BigDecimal) : Nat := (toString n.normalized.intVal.natAbs).length

end BigDecimal

namespace OraNum

open BigDecimal (InBits)

/-- Encode a number value. -/
def encodeValue : Value → Option (List Nat)
  | .number n => encode n.normalized.toScientificNotation
  | _ => none

/-- A number column's value on the wire: a length byte and the number, or the length zero that
stands for NULL. -/
def writeNumber (v : Value) : List Nat :=
  match v with
  | .null => [0]
  | v =>
      match encodeValue v with
      | some bytes => bytes.length :: bytes
      | none => [0]

/-! ## Scientific notation -/

variable {n : BigDecimal}

/-- A number is encoded, and what is decoded denotes it. -/
def ComesBack (n : BigDecimal) : Prop :=
  ∃ b, encodeValue (.number n) = some b ∧ Decimal.denote (decode b).toList = some n.toRat

theorem abs_toRat (n : BigDecimal) : |n.toRat| = n.intVal.natAbs * 10 ^ (-n.scale) := by
  rw [BigDecimal.toRat, abs_mul, abs_of_pos (BigDecimal.ten_zpow_pos _), ← Int.cast_abs,
    Int.abs_eq_natAbs, Int.cast_natCast]

end OraNum

end MockOracle
