import MockOracle.Core.Number
import MockOracle.Core.Unicode
import MockOracle.Eval.StoreValue

/-!
# Number format models

TO_CHAR of a number with a format of `9`, `0`, group marks and a point, from `functions.rs`. The
digits of the rounded number are put into the integer part of the format from the right; what the
format has no place for is shown as `#`.
-/

namespace MockOracle.NumberFormat

open Semantics

def invalidModel : OraError := ⟨1481, "invalid number format model"⟩

/-- `replace("MI", "")` -/
def removeMi : List Char → List Char
  | 'M' :: 'I' :: rest => removeMi rest
  | c :: rest => c :: removeMi rest
  | [] => []

def isPointMark (c : Char) : Bool := c = '.' || c = 'D'

/-- A place for a digit. -/
def isSlot (c : Char) : Bool := c = '9' || c = '0'

def isWholeMark (c : Char) : Bool := isSlot c || c = ',' || c = 'G'

/-- The integer part of the format, filled from the right with the digits from the last one on. The
characters come in the order they are placed in, each with its position in the format; from the
first `0` of the format on, places and group marks are shown whether or not there are digits. -/
def fill (firstZero : Option Nat) : List (Char × Nat) → List Char → Bool → List Char
  | [], _, _ => []
  | (c, pos) :: rest, digits, placedAll =>
      if isSlot c then
        match digits with
        | d :: more => d :: fill firstZero rest more (if more = [] then true else placedAll)
        | [] =>
            (if firstZero.any (· ≤ pos) then '0' else ' ') :: fill firstZero rest [] placedAll
      else
        (if !placedAll || firstZero.any (· < pos) then ',' else ' ')
          :: fill firstZero rest digits placedAll

/-- A zero integer part without a fraction is shown as one zero. -/
def showZero (out : List Char) : List Char :=
  match out with
  | [] => []
  | c :: rest => if '0' ∈ c :: rest then c :: rest else '0' :: rest

/-- The integer part with the blanks in front of it. -/
def wholeText (wholeFormat intDigits : List Char) (isFraction : Bool) : List Char :=
  let firstZero := wholeFormat.findIdx? (· = '0')
  let out := fill firstZero wholeFormat.zipIdx.reverse intDigits.reverse intDigits.isEmpty
  (if intDigits.isEmpty && !isFraction then showZero out else out).reverse

/-- Drops zeros from the end, to a length. -/
def trimZeros (keep : Nat) (digits : List Char) : List Char :=
  let reversed := digits.reverse
  let zeros := (reversed.takeWhile (· = '0')).length
  (reversed.drop (min zeros (digits.length - keep))).reverse

/-- The fraction; FM drops trailing zeros in places of 9. -/
def fractionText (fm : Bool) (fractionFormat : Option (List Char)) (fractionPart : List Char) :
    List Char :=
  match fractionFormat with
  | none => []
  | some ff =>
      let keep := (ff.reverse.findIdx? (· = '0')).elim 0 (ff.length - ·)
      '.' :: if fm then trimZeros keep fractionPart else fractionPart

def signBefore (leadingSign trailing negative fm : Bool) : List Char :=
  if leadingSign then if negative then ['-'] else ['+']
  else if trailing then []
  else if negative then ['-']
  else if fm then []
  else [' ']

def signAfter (trailingMi trailingS negative fm : Bool) : List Char :=
  if trailingMi then if negative then ['-'] else if fm then [] else [' ']
  else if trailingS then if negative then ['-'] else ['+']
  else []

/-- The digits of a number before and after the point; none before it for a number below one. -/
def digitsOf (rounded : BigDecimal) (places : Nat) : List Char × List Char :=
  let abs : BigDecimal := ⟨rounded.intVal.natAbs, rounded.scale⟩
  let plain := (abs.withScale places).toPlainString.toList
  let (whole, fraction) := Decimal.cut Decimal.isPoint plain
  (if whole = ['0'] then [] else whole, fraction.getD [])

/-- TO_CHAR of a number. -/
def formatNumberWith (unicode : Unicode) (n : BigDecimal) (fmt : String) : Except OraError String :=
  let upper := unicode.toUppercase fmt.toList
  let fm := "FM".toList.isPrefixOf upper
  let f := if fm then upper.drop 2 else upper
  let dollar := f.contains '$'
  let leadingSign := f.head? == some 'S'
  let trailingMi := "MI".toList.isSuffixOf f
  let trailingS := !leadingSign && f.getLast? == some 'S'
  let core := removeMi (f.filter fun c => c != '$' && c != 'S')
  let (wholeFormat, fractionFormat) := Decimal.cut isPointMark core
  if !(wholeFormat.all isWholeMark && (fractionFormat.getD []).all isSlot) then .error invalidModel
  else
    let places := (fractionFormat.getD []).length
    let rounded := n.withScaleRound places
    let negative : Bool := rounded.intVal < 0
    let (intDigits, fractionPart) := digitsOf rounded places
    if wholeFormat.countP isSlot < intDigits.length then
      .ok (String.ofList (List.replicate (fmt.utf8ByteSize + 1) '#'))
    else
      let int := wholeText wholeFormat intDigits fractionFormat.isSome
      let lead := (int.takeWhile isWhitespace).length
      let padding := if fm then [] else List.replicate lead ' '
      .ok (String.ofList (padding ++ signBefore leadingSign (trailingMi || trailingS) negative fm
        ++ (if dollar then ['$'] else []) ++ int.drop lead
        ++ fractionText fm fractionFormat fractionPart ++ signAfter trailingMi trailingS negative fm))

end MockOracle.NumberFormat
