import MockOracle.Eval.Select

/-!
# An engine for concrete runs

Decimals are divided to 100 more digits and rounded half away from zero, letters are mapped
within ASCII, and dates have no text. There are no other built-in functions and no stored ones.
-/

namespace MockOracle

namespace BigDecimal

/-- Round to a number of significant digits, halves away from zero. -/
def roundTo (n : BigDecimal) (k : Nat) : BigDecimal :=
  let excess := n.digits - k
  ⟨n.intVal.sign * ((n.intVal.natAbs + 10 ^ excess / 2) / 10 ^ excess : Nat), n.scale - excess⟩

end BigDecimal

def Library.plain : Library where
  dates := ⟨fun _ _ => "", fun _ _ => .error outOfRange⟩
  year d := 1970 + d.timestamp / 31556952
  div a b := ⟨(a.intVal * 10 ^ 100).tdiv b.intVal, a.scale - b.scale + 100⟩
  withPrec := BigDecimal.roundTo
  sqrt n := ⟨(n.withScale 200).intVal.toNat.sqrt, 100⟩
  toUppercase text := text.map Char.toUpper
  toLowercase text := text.map Char.toLower
  isAlphanumeric := Char.isAlphanum

def Engine.plain : Engine where
  lib := .plain
  scalar _ _ _ := .error argCount
  callFunction _ _ _ _ := throw ⟨3001, "unimplemented feature"⟩

end MockOracle
