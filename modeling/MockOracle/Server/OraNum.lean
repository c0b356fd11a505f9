import MockOracle.Core.Number

/-!
# NUMBER on the wire

`oranum.rs`: a NUMBER is an exponent byte and base-100 digits, complemented for negative
numbers. `encode` takes a decimal text and `decode` gives one. Bytes are naturals below 256;
the 32-bit arithmetic on the exponent wraps around.
-/

namespace MockOracle.OraNum

open Semantics
open BigDecimal (InBits)

/-- The digits that a number keeps. -/
def maxDigits : Nat := 40

/-- Wrap-around of 32-bit signed arithmetic. -/
def wrap32 (n : Int) : Int := n.bmod (2 ^ 32)

/-- Parse a 32-bit signed integer. -/
def parseI32 (text : List Char) : Option Int :=
  (Decimal.readInteger text).filter fun n => InBits 32 n

/-- The value of each pair of digits. -/
def pairs : List Char → List Nat
  | hi :: lo :: rest => ((hi.toNat - 48) * 10 + (lo.toNat - 48)) :: pairs rest
  | _ => []

/-- An even number of digits, by a zero in front of them. -/
def padFront (digits : List Char) : List Char :=
  if digits.length % 2 = 1 then '0' :: digits else digits

/-- An even exponent, by a zero behind the digits, and then an even number of digits. -/
def align (digits : List Char) (exponent : Int) : List Char × Int :=
  if exponent % 2 ≠ 0 then (padFront (digits ++ ['0']), exponent - 1)
  else (padFront digits, exponent)

/-- The exponent byte and the pairs of aligned digits; both are complemented for a negative
number, which ends in 102 when it is short. -/
def wireBytes (negative : Bool) (digits : List Char) (exponent : Int) : List Nat :=
  let expOnWire := (((exponent + digits.length).tdiv 2 + 192) % 256).toNat
  if negative then
    (255 - expOnWire) :: ((pairs digits).map (101 - ·) ++
      if digits.length < maxDigits then [102] else [])
  else expOnWire :: (pairs digits).map (· + 1)

/-- The bytes of digits without leading or trailing zeros, the last of which counts ten to
the power `exponent`. -/
def encodeDigits (negative : Bool) (digits : List Char) (exponent : Int) : Option (List Nat) :=
  if maxDigits < digits.length ∨ 126 ≤ exponent ∨ exponent ≤ -131 then none
  else if digits = [] then some [0x80]
  else
    let (digits, exponent) := align digits exponent
    some (wireBytes negative digits exponent)

/-- The digits without zeros on either side. -/
def trim (digits : List Char) : List Char :=
  (digits.dropWhile (· = '0')).rdropWhile (· = '0')

/-- How many zeros follow the last other digit. -/
def trailingZeros (digits : List Char) : Nat :=
  (digits.dropWhile (· = '0')).length - (trim digits).length

/-- Encode a decimal string such as `-12.5`, without the length byte. -/
def encode (value : String) : Option (List Nat) := do
  let (negative, text) := Decimal.readSign value.toList
  let (text, exponentText) := Decimal.cut Decimal.isExponentMark text
  let exponent ← exponentText.elim (some 0) parseI32
  let (whole, fraction) := Decimal.cut Decimal.isPoint text
  let digits := whole ++ fraction.getD []
  let exponent := wrap32 (exponent - (fraction.getD []).length)
  let exponent := wrap32 (exponent + trailingZeros digits)
  encodeDigits negative (trim digits) exponent

/-- The byte of a decimal digit, in 8-bit arithmetic. -/
def digitByte (d : Int) : Char := Char.ofNat ((48 + d % 256) % 256).toNat

/-- The two decimal digits of each byte; the first one's tens are left out when zero. -/
def decodeDigits (positive : Bool) : List Nat → List Char × Bool
  | [] => ([], false)
  | first :: rest =>
      let digit (b : Nat) : Int := if positive then (b : Int) - 1 else 101 - (b : Int)
      let two (d : Int) : List Char := [digitByte (d.tdiv 10), digitByte (d.tmod 10)]
      let d := digit first
      let short := d.tdiv 10 = 0
      ((if short then [digitByte (d.tmod 10)] else two d) ++ rest.flatMap fun b => two (digit b),
        short)

/-- The text of a sign, digits behind the point and the place of the point. -/
def scaledText (positive : Bool) (digits : List Char) (decimalPoint : Int) : String :=
  (if positive then "" else "-") ++ "0." ++ String.ofList digits ++ "e" ++ toString decimalPoint

/-- The text of digit bytes below the given base-100 exponent. -/
def decodeBody (positive : Bool) (exponent : Int) (body : List Nat) : String :=
  let (digits, short) := decodeDigits positive body
  let decimalPoint := exponent * 2 + 2 - (if short then 1 else 0)
  match BigDecimal.fromStr (scaledText positive digits decimalPoint) with
  | some n => formatNumber n
  | none => "0"

/-- Decode NUMBER bytes, without the length byte, to a decimal string. -/
def decode (buf : List Nat) : String :=
  match buf with
  | [] => "0"
  | first :: rest =>
      let positive : Bool := first &&& 0x80 ≠ 0
      if rest = [] then if positive then "0" else "-1e126"
      else
        let exponent : Int := (if positive then first else 255 - first : Nat) - 193
        let body := if !positive && rest.getLast? = some 102 then rest.dropLast else rest
        decodeBody positive exponent body

example : encode "0" = some [0x80] := by decide +kernel
example : encode "-1" = some [0x3e, 0x64, 0x66] := by decide +kernel
example : encode "1E+2" = some [0xc2, 0x02] := by decide +kernel
example : decode [0x3e, 0x64, 0x66] = "-1" := by decide +kernel

/-! ## Digits without zeros on either side -/

/-- A text of digits is zeros and then what they are dropped from. -/
theorem exists_zeros_append_dropWhile (digits : List Char) :
    ∃ k, digits = List.replicate k '0' ++ digits.dropWhile (· = '0') := by
  induction digits with
  | nil => exact ⟨0, rfl⟩
  | cons c rest ih =>
      by_cases zero : c = '0'
      · obtain ⟨k, equal⟩ := ih
        refine ⟨k + 1, ?_⟩
        rw [List.dropWhile_cons_of_pos (by simpa using zero), List.replicate_succ,
          List.cons_append, ← equal, zero]
      · exact ⟨0, by rw [List.dropWhile_cons_of_neg (by simpa using zero)]; rfl⟩

/-- Behind its leading zeros, a text of digits is its trimmed digits and zeros. -/
theorem dropWhile_eq_trim_append (digits : List Char) :
    digits.dropWhile (· = '0') = trim digits ++ List.replicate (trailingZeros digits) '0' := by
  obtain ⟨k, equal⟩ := exists_zeros_append_dropWhile (digits.dropWhile (· = '0')).reverse
  have forward := congrArg List.reverse equal
  rw [List.reverse_reverse, List.reverse_append, List.reverse_replicate] at forward
  have split : digits.dropWhile (· = '0') = trim digits ++ List.replicate k '0' := forward
  have count : trailingZeros digits = k := by
    rw [trailingZeros, split]
    simp
  rw [count]
  exact split

/-- A text of digits is zeros, its trimmed digits, and zeros. -/
theorem exists_zeros_append_trim (digits : List Char) :
    ∃ k, digits =
      List.replicate k '0' ++ (trim digits ++ List.replicate (trailingZeros digits) '0') := by
  obtain ⟨k, equal⟩ := exists_zeros_append_dropWhile digits
  exact ⟨k, equal.trans (by rw [dropWhile_eq_trim_append])⟩

/-- Trimmed digits are digits. -/
theorem allDigits_trim {digits : List Char} (allDigits : Decimal.AllDigits digits) :
    Decimal.AllDigits (trim digits) := by
  obtain ⟨k, equal⟩ := exists_zeros_append_trim digits
  rw [equal] at allDigits
  exact allDigits.of_append.2.of_append.1

/-- Trimming keeps the number. -/
theorem value_trim (negative : Bool) (digits : List Char) (e : Int) :
    (Decimal.Parts.mk negative (trim digits) (e + trailingZeros digits)).value =
      (Decimal.Parts.mk negative digits e).value := by
  obtain ⟨k, equal⟩ := exists_zeros_append_trim digits
  rw [← Decimal.value_append_zeros]
  conv_rhs => rw [equal]
  simp only [Decimal.Parts.value, Decimal.ofDigitChars_zeros_append]

/-- Trimmed digits do not start with a zero. -/
theorem head_trim (digits : List Char) : (trim digits).head? ≠ some '0' := by
  intro zero
  have start : (trim digits).head? = (digits.dropWhile (· = '0')).head? := by
    rw [dropWhile_eq_trim_append, List.head?_append_of_ne_nil _ (by rintro empty; simp [empty] at zero)]
  have first := List.head?_dropWhile_not (fun c : Char => decide (c = '0')) digits
  rw [← start, zero] at first
  simp at first

/-- Trimmed digits do not end in a zero. -/
theorem getLast_trim (digits : List Char) : (trim digits).getLast? ≠ some '0' := by
  intro zero
  have nonempty : trim digits ≠ [] := by
    rintro empty
    simp [empty] at zero
  have last := List.rdropWhile_last_not (fun c : Char => decide (c = '0')) _ nonempty
  rw [List.getLast?_eq_some_getLast nonempty, Option.some.injEq] at zero
  exact last (decide_eq_true zero)

/-! ## Aligned digits and their pairs -/

/-- Digits as they go on the wire: an even number of them, the last counting an even power of
ten, and not both of the first two zero. -/
structure Aligned (digits : List Char) (exponent : Int) : Prop where
  allDigits : Decimal.AllDigits digits
  evenLength : digits.length % 2 = 0
  evenExponent : exponent % 2 = 0
  two : 2 ≤ digits.length
  large : 10 ^ (digits.length - 2) ≤ Nat.ofDigitChars 10 digits 0

variable {digits : List Char} {exponent : Int}

/-- Aligning digits without a leading zero aligns them. -/
theorem aligned_align (allDigits : Decimal.AllDigits digits) (nonempty : digits ≠ [])
    (first : digits.head? ≠ some '0') :
    Aligned (align digits exponent).1 (align digits exponent).2 := by
  obtain ⟨c, rest, rfl⟩ := List.exists_cons_of_ne_nil nonempty
  have digit := allDigits c List.mem_cons_self
  have large : ∀ more : List Char, 10 ^ more.length ≤ Nat.ofDigitChars 10 (c :: more) 0 :=
    fun more => Decimal.le_ofDigitChars digit (by simpa using first)
  have zero : Decimal.AllDigits ['0'] := by simp [Decimal.AllDigits, Char.isDigit]
  -- Both alignments of a run that starts with a digit other than zero.
  have front : ∀ (more : List Char) (e : Int), Decimal.AllDigits (c :: more) → e % 2 = 0 →
      Aligned (padFront (c :: more)) e := by
    intro more e digits even
    unfold padFront
    split
    · next odd =>
        refine ⟨zero.append digits, ?_, even, by simp, ?_⟩
        · simp only [List.length_cons] at odd ⊢
          omega
        · rw [Decimal.ofDigitChars_cons_zero]
          simpa using large more
    · next notOdd =>
        simp only [List.length_cons] at notOdd ⊢
        refine ⟨digits, by simp only [List.length_cons]; omega, even, by
          simp only [List.length_cons]; omega, (Nat.pow_le_pow_right (by decide) ?_).trans (large more)⟩
        simp only [List.length_cons]
        omega
  unfold align
  split
  · next odd =>
      exact front (rest ++ ['0']) (exponent - 1) (allDigits.append zero) (by omega)
  · next even =>
      exact front rest exponent allDigits (by omega)

/-- Aligning adds two digits at most, and counts the exponent down by one at most. -/
theorem align_bounds (exponent : Int) (digits : List Char) :
    ((align digits exponent).2 = exponent ∨ (align digits exponent).2 = exponent - 1) ∧
      (align digits exponent).1.length ≤ digits.length + 2 := by
  have front : ∀ digits, (padFront digits).length ≤ digits.length + 1 := by
    intro digits
    unfold padFront
    split <;> simp
  unfold align
  split
  · exact ⟨Or.inr rfl, (front _).trans (by simp)⟩
  · exact ⟨Or.inl rfl, (front _).trans (by simp)⟩

/-- Aligning keeps the number. -/
theorem value_align (negative : Bool) (digits : List Char) (exponent : Int) :
    (Decimal.Parts.mk negative (align digits exponent).1 (align digits exponent).2).value =
      (Decimal.Parts.mk negative digits exponent).value := by
  have zeroFront : ∀ (digits : List Char) (e : Int),
      (Decimal.Parts.mk negative (padFront digits) e).value =
        (Decimal.Parts.mk negative digits e).value := by
    intro digits e
    unfold padFront
    split
    · exact value_zero_cons negative digits e
    · rfl
  unfold align
  split
  · have zero := Decimal.value_append_zeros negative digits 1 (exponent - 1)
    simp only [List.replicate_one, Nat.cast_one, sub_add_cancel] at zero
    exact (zeroFront _ _).trans zero
  · exact zeroFront _ _

/-- The two digits of a pair. -/
def twoDigits (d : Nat) : List Char := [digitByte ((d : Int).tdiv 10), digitByte ((d : Int).tmod 10)]

/-- The byte of a small digit is its character. -/
theorem digitByte_natCast {d : Nat} (small : d < 10) : digitByte d = Char.ofNat (48 + d) := by
  have value : ((48 + (d : Int) % 256) % 256).toNat = 48 + d := by omega
  rw [digitByte, value]

/-- Two digits are those of the pair that they make up. -/
theorem twoDigits_pair {hi lo : Char} (high : hi.isDigit = true) (low : lo.isDigit = true) :
    twoDigits ((hi.toNat - 48) * 10 + (lo.toNat - 48)) = [hi, lo] := by
  have range := Decimal.digit_range high
  have range' := Decimal.digit_range low
  have tens : (((hi.toNat - 48) * 10 + (lo.toNat - 48) : Nat) : Int).tdiv 10 =
      ((hi.toNat - 48 : Nat) : Int) := by
    rw [Int.tdiv_eq_ediv_of_nonneg (by omega)]
    omega
  have ones : (((hi.toNat - 48) * 10 + (lo.toNat - 48) : Nat) : Int).tmod 10 =
      ((lo.toNat - 48 : Nat) : Int) := by
    rw [Int.tmod_eq_emod_of_nonneg (by omega)]
    omega
  rw [twoDigits, tens, ones, digitByte_natCast (by omega), digitByte_natCast (by omega),
    Nat.add_sub_cancel' range.1, Nat.add_sub_cancel' range'.1, Char.ofNat_toNat, Char.ofNat_toNat]

/-- Pairs spell the digits they were made of, and each is below a hundred. -/
theorem flatMap_pairs {digits : List Char} (allDigits : Decimal.AllDigits digits)
    (even : digits.length % 2 = 0) :
    (pairs digits).flatMap twoDigits = digits ∧ ∀ d ∈ pairs digits, d ≤ 99 := by
  induction digits using pairs.induct with
  | case1 hi lo rest ih =>
      have high := allDigits hi (by simp)
      have low := allDigits lo (by simp)
      have range := Decimal.digit_range high
      have range' := Decimal.digit_range low
      obtain ⟨spells, small⟩ := ih (fun c member => allDigits c (by simp [member])) (by
        simp only [List.length_cons] at even
        omega)
      refine ⟨?_, ?_⟩
      · rw [pairs, List.flatMap_cons, spells, twoDigits_pair high low]
        rfl
      · rw [pairs, List.forall_mem_cons]
        exact ⟨by omega, small⟩
  | case2 digits short =>
      cases digits with
      | nil => simp [pairs]
      | cons c rest =>
          cases rest with
          | nil => simp at even
          | cons d rest => exact absurd rfl (short c d rest)

/-- There are half as many pairs as digits. -/
theorem length_pairs (digits : List Char) : (pairs digits).length = digits.length / 2 := by
  induction digits using pairs.induct with
  | case1 hi lo rest ih =>
      rw [pairs, List.length_cons, ih]
      simp only [List.length_cons]
      omega
  | case2 digits short =>
      cases digits with
      | nil => rfl
      | cons c rest =>
          cases rest with
          | nil => simp [pairs]
          | cons d rest => exact absurd rfl (short c d rest)

/-- Aligned digits have a pair. -/
theorem Aligned.pairs_ne_nil (aligned : Aligned digits exponent) : pairs digits ≠ [] := by
  intro empty
  have length := length_pairs digits
  rw [empty, List.length_nil] at length
  have := aligned.two
  omega

/-! ## Decoding -/

/-- The byte of a pair of digits. -/
def wire (positive : Bool) (d : Nat) : Nat := if positive then d + 1 else 101 - d

/-- The pairs of aligned digits are decoded to these digits. -/
theorem decodeDigits_pairs (positive : Bool) (aligned : Aligned digits exponent) :
    let decoded := decodeDigits positive ((pairs digits).map (wire positive))
    (if decoded.2 then '0' :: decoded.1 else decoded.1) = digits := by
  obtain ⟨spells, small⟩ := flatMap_pairs aligned.allDigits aligned.evenLength
  have back : ∀ d ∈ pairs digits,
      (if positive then ((wire positive d : Nat) : Int) - 1 else 101 - (wire positive d : Int)) = d := by
    intro d member
    have := small d member
    cases positive <;> simp only [wire, if_true, Bool.false_eq_true, if_false] <;> omega
  cases split : pairs digits with
  | nil =>
      have length := length_pairs digits
      rw [split] at length
      have := aligned.two
      simp only [List.length_nil] at length
      omega
  | cons d rest =>
      rw [split, List.forall_mem_cons] at back
      have here : d ≤ 99 := small d (by simp [split])
      have others : (rest.map (wire positive)).flatMap (fun b : Nat =>
          [digitByte ((if positive then (b : Int) - 1 else 101 - (b : Int)).tdiv 10),
            digitByte ((if positive then (b : Int) - 1 else 101 - (b : Int)).tmod 10)]) =
          rest.flatMap twoDigits := by
        rw [List.flatMap_map]
        refine List.flatMap_congr fun b member => ?_
        rw [back.2 b member]
        rfl
      rw [← spells, split, List.flatMap_cons, ← others]
      simp only [List.map_cons, decodeDigits, back.1, decide_eq_true_eq]
      split
      · next short =>
          simp only [twoDigits, short]
          rfl
      · rfl

/-- The sign bit of a byte. -/
theorem and_sign_bit {n : Nat} (byte : n < 256) : n &&& 0x80 ≠ 0 ↔ 128 ≤ n := by
  revert n
  decide +kernel

/-- The scaled text is a number with its digits behind the point and its exponent. -/
theorem toList_scaledText (positive : Bool) (digits : List Char) (point : Int) :
    (scaledText positive digits point).toList =
      Decimal.write (!positive) ['0'] (some digits) (some ('e' :: (toString point).toList)) := by
  cases positive <;> simp [scaledText, Decimal.write, Decimal.signText]

/-- Digits behind the point are parsed as the number they spell. -/
theorem fromStr_scaledText (positive : Bool) {digits : List Char} {point : Int}
    (allDigits : Decimal.AllDigits digits) (long : digits.length ≤ 42)
    (near : -1000 ≤ point ∧ point ≤ 1000) :
    ∃ n, BigDecimal.fromStr (scaledText positive digits point) = some n ∧
      n.toRat = (Decimal.Parts.mk (!positive) digits (point - digits.length)).value := by
  have zero : Decimal.AllDigits ['0'] := by simp [Decimal.AllDigits, Char.isDigit]
  have wide : ∀ n : Int, -1000 ≤ n → n ≤ 1042 → InBits 64 n ∧ InBits 128 n := by
    intro n low high
    constructor <;> constructor <;> norm_num <;> omega
  have parsed := BigDecimal.fromStr_write (toList_scaledText positive digits point) zero allDigits
    (by simp) (Or.inr ⟨'e', _, rfl, rfl, Decimal.readInteger_toString point⟩)
    (wide point near.1 (by omega)).2
    (wide (digits.length - point) (by omega) (by omega)).1
  refine ⟨_, parsed, ?_⟩
  simp only [Option.getD_some, List.singleton_append, BigDecimal.toRat, Decimal.Parts.value,
    Nat.ofDigitChars_cons, neg_sub]
  cases positive <;> simp

/-- The decoder drops the terminator of a short negative number and nothing else. -/
theorem dropTerminator {ds : List Nat} (small : ∀ d ∈ ds, d ≤ 99)
    (short : Prop) [Decidable short] :
    let bytes := ds.map (101 - ·) ++ if short then [102] else []
    (if bytes.getLast? = some 102 then bytes.dropLast else bytes) = ds.map (101 - ·) := by
  by_cases terminated : short
  · simp [terminated]
  · have last : (ds.map (101 - ·)).getLast? ≠ some 102 := by
      intro equal
      obtain ⟨d, member, value⟩ := List.mem_map.mp (List.mem_of_getLast? equal)
      have := small d member
      omega
    rw [if_neg terminated, List.append_nil]
    exact if_neg last

/-- The bytes of a number that fits are decoded to a text that denotes it. -/
theorem decode_wireBytes (negative : Bool) (aligned : Aligned digits exponent)
    (low : -128 ≤ exponent + digits.length) (high : exponent + digits.length ≤ 126)
    (long : digits.length ≤ 42) :
    Decimal.denote (decode (wireBytes negative digits exponent)).toList =
      some (Decimal.Parts.mk negative digits exponent).value := by
  have evenLength := aligned.evenLength
  have evenExponent := aligned.evenExponent
  obtain ⟨half, halves⟩ : ∃ half : Int, exponent + digits.length = 2 * half :=
    ⟨(exponent + digits.length) / 2, by omega⟩
  have byte : (((exponent + digits.length).tdiv 2 + 192) % 256).toNat = (half + 192).toNat := by
    rw [halves, Int.mul_tdiv_cancel_left _ (by decide)]
    omega
  have sized := aligned.pairs_ne_nil
  have reached : decode (wireBytes negative digits exponent) =
      decodeBody (!negative) (half - 1) ((pairs digits).map (wire (!negative))) := by
    cases negative with
    | false =>
        have sign : (half + 192).toNat &&& 0x80 ≠ 0 := (and_sign_bit (by omega)).mpr (by omega)
        have power : (((half + 192).toNat : Nat) : Int) - 193 = half - 1 := by omega
        simp only [wireBytes, byte, Bool.false_eq_true, if_false, decode, List.map_eq_nil_iff,
          sized, sign, ne_eq, not_false_eq_true, decide_true, Bool.not_true, Bool.false_and,
          if_true, power]
        rfl
    | true =>
        have sign : (255 - (half + 192).toNat) &&& 0x80 = 0 := by
          by_contra bit
          have := (and_sign_bit (by omega)).mp bit
          omega
        have power : ((255 - (255 - (half + 192).toNat) : Nat) : Int) - 193 = half - 1 := by omega
        have body := dropTerminator (flatMap_pairs aligned.allDigits aligned.evenLength).2
          (digits.length < maxDigits)
        simp only [wireBytes, byte, if_true, decode, List.append_eq_nil_iff, List.map_eq_nil_iff,
          sized, false_and, if_false, sign, ne_eq, not_true_eq_false, decide_false, Bool.not_false,
          Bool.true_and, Bool.false_eq_true, power, decide_eq_true_eq, body]
        rfl
  obtain ⟨found, short, decodes⟩ : ∃ found short,
      decodeDigits (!negative) ((pairs digits).map (wire (!negative))) = (found, short) :=
    ⟨_, _, rfl⟩
  have spells := decodeDigits_pairs (!negative) aligned
  simp only [decodes] at spells
  -- What is left out is a zero in front of the digits.
  obtain ⟨foundDigits, count, same⟩ : Decimal.AllDigits found ∧
      (found.length : Int) + (if short then 1 else 0) = digits.length ∧
      ∀ e, (Decimal.Parts.mk negative found e).value = (Decimal.Parts.mk negative digits e).value := by
    have allDigits := aligned.allDigits
    cases short with
    | false =>
        simp only [Bool.false_eq_true, if_false] at spells
        rw [spells]
        exact ⟨allDigits, by simp, fun _ => rfl⟩
    | true =>
        simp only [if_true] at spells
        rw [← spells] at allDigits ⊢
        exact ⟨fun c member => allDigits c (List.mem_cons_of_mem _ member), by simp,
          fun e => (value_zero_cons negative found e).symm⟩
  obtain ⟨point, place⟩ : ∃ point : Int, (half - 1) * 2 + 2 - (if short then 1 else 0) = point :=
    ⟨_, rfl⟩
  have fits : found.length ≤ 42 ∧ (-1000 ≤ point ∧ point ≤ 1000) ∧
      point - found.length = exponent := by
    cases short <;> simp only [Bool.false_eq_true, if_false, if_true] at count place <;> omega
  obtain ⟨n, parsed, value⟩ := fromStr_scaledText (!negative) foundDigits fits.1 fits.2.1
  rw [reached]
  simp only [decodeBody, decodes, place, parsed]
  rw [denote_formatNumber, value, Bool.not_not, fits.2.2, same]

/-- The sign of what is decoded is the sign bit's. -/
theorem sign_decode (first : Nat) (rest : List Nat) (nonempty : rest ≠ []) :
    ∃ r, Decimal.denote (decode (first :: rest)).toList = some r ∧
      (first &&& 0x80 ≠ 0 → 0 ≤ r) ∧ (first &&& 0x80 = 0 → r ≤ 0) := by
  have zero : Decimal.denote "0".toList = some 0 := by decide +kernel
  have signed : ∀ (positive : Bool) exponent body,
      ∃ r, Decimal.denote (decodeBody positive exponent body).toList = some r ∧
        (positive = true → 0 ≤ r) ∧ (positive = false → r ≤ 0) := by
    intro positive exponent body
    unfold decodeBody
    obtain ⟨digits, short⟩ := decodeDigits positive body
    dsimp only
    split
    · next n parsed =>
        refine ⟨_, denote_formatNumber n, ?_⟩
        have text := toList_scaledText positive digits
          (exponent * 2 + 2 - (if short then 1 else 0))
        have power := (BigDecimal.ten_zpow_pos (-n.scale)).le
        cases positive with
        | true =>
            have sign := (BigDecimal.sign_fromStr text rfl rfl parsed).2 (by decide)
            exact ⟨fun _ => mul_nonneg (by exact_mod_cast sign) power, by simp⟩
        | false =>
            have sign := (BigDecimal.sign_fromStr text rfl rfl parsed).1 rfl
            exact ⟨by simp, fun _ => mul_nonpos_of_nonpos_of_nonneg (by exact_mod_cast sign) power⟩
    · exact ⟨0, zero, fun _ => le_refl _, fun _ => le_refl _⟩
  obtain ⟨r, denotes, positive, negative⟩ := signed (decide (first &&& 0x80 ≠ 0)) _ _
  refine ⟨r, ?_, fun bit => positive (decide_eq_true bit), fun bit => negative (by simp [bit])⟩
  rw [decode, if_neg nonempty]
  exact denotes

/-! ## Encoding -/

/-- Wrapping does not change an integer of 32 bits. -/
theorem wrap32_of_fits {n : Int} (fits : InBits 32 n) : wrap32 n = n := by
  obtain ⟨low, high⟩ := fits
  norm_num at low high
  exact Int.bmod_eq_of_le (by norm_num; omega) (by norm_num; omega)

/-- The exponent of a text, also once trailing zeros are dropped, fits 32 bits. -/
def ExponentFits (p : Decimal.Parts) : Prop :=
  InBits 32 p.exponent ∧ InBits 32 (p.exponent + trailingZeros p.digits)

/-- A decimal text is encoded by its sign, its trimmed digits and their exponent. -/
theorem encode_of_read {text : String} {p : Decimal.Parts} {b : List Nat}
    (reads : Decimal.read text.toList = some p) (fits : ExponentFits p)
    (encoded : encode text = some b) :
    encodeDigits p.negative (trim p.digits) (p.exponent + trailingZeros p.digits) = some b := by
  simp only [Decimal.read] at reads
  split at reads
  · obtain ⟨e, exponent, rfl⟩ := Option.map_eq_some_iff.mp reads
    simp only [encode, Option.bind_eq_bind, Option.bind_eq_some_iff] at encoded
    obtain ⟨e', exponent', encoded⟩ := encoded
    have same : e' = e := by
      revert exponent exponent'
      cases (Decimal.cut Decimal.isExponentMark (Decimal.readSign text.toList).2).2 with
      | none =>
          intro left right
          simp only [Option.elim_none, Option.some.injEq] at left right
          exact right.symm.trans left
      | some exponentText =>
          intro left right
          simp only [Option.elim_some, parseI32, Option.filter_eq_some_iff] at left right
          rw [left] at right
          exact (Option.some.inj right.1).symm
    rw [same, wrap32_of_fits fits.1, wrap32_of_fits fits.2] at encoded
    exact encoded
  · cases reads

/-- What is encoded is a zero byte or the aligned digits. -/
theorem encodeDigits_cases {negative : Bool} {b : List Nat}
    (encoded : encodeDigits negative digits exponent = some b) :
    digits.length ≤ 40 ∧ -130 ≤ exponent ∧ exponent ≤ 125 ∧
      (digits = [] ∧ b = [0x80] ∨
        digits ≠ [] ∧
          b = wireBytes negative (align digits exponent).1 (align digits exponent).2) := by
  unfold encodeDigits at encoded
  split at encoded
  · cases encoded
  · next inRange =>
      simp only [maxDigits, not_or, not_lt, not_le] at inRange
      refine ⟨inRange.1, by omega, by omega, ?_⟩
      split at encoded
      · next empty => exact Or.inl ⟨empty, (Option.some.inj encoded).symm⟩
      · next some_ => exact Or.inr ⟨some_, (Option.some.inj encoded).symm⟩

/-- The size of a number with aligned digits. -/
theorem Aligned.abs_value (aligned : Aligned digits exponent) (negative : Bool) :
    (10 : ℚ) ^ (exponent + digits.length - 2) ≤
        |(Decimal.Parts.mk negative digits exponent).value| ∧
      |(Decimal.Parts.mk negative digits exponent).value| < 10 ^ (exponent + digits.length) := by
  have power := BigDecimal.ten_zpow_pos exponent
  have size : |(Decimal.Parts.mk negative digits exponent).value| =
      (Nat.ofDigitChars 10 digits 0 : ℚ) * 10 ^ exponent := by
    simp only [Decimal.Parts.value, abs_mul, abs_of_pos power, Nat.abs_cast]
    cases negative <;> simp
  obtain ⟨extra, length⟩ : ∃ extra, digits.length = extra + 2 :=
    ⟨digits.length - 2, by have := aligned.two; omega⟩
  have large := aligned.large
  have small := Decimal.ofDigitChars_lt aligned.allDigits
  rw [length, Nat.add_sub_cancel] at large
  rw [size]
  constructor
  · calc (10 : ℚ) ^ (exponent + digits.length - 2) = 10 ^ exponent * 10 ^ extra := by
          rw [← zpow_natCast, ← zpow_add₀ BigDecimal.ten_ne_zero, length]
          congr 1
          push_cast
          ring
      _ ≤ 10 ^ exponent * (Nat.ofDigitChars 10 digits 0 : ℚ) :=
          mul_le_mul_of_nonneg_left (by exact_mod_cast large) power.le
      _ = _ := mul_comm _ _
  · calc (Nat.ofDigitChars 10 digits 0 : ℚ) * 10 ^ exponent
        < 10 ^ digits.length * 10 ^ exponent :=
          mul_lt_mul_of_pos_right (by exact_mod_cast small) power
      _ = 10 ^ (exponent + digits.length) := by
          rw [zpow_add₀ BigDecimal.ten_ne_zero, zpow_natCast, mul_comm]

/-- Past 10^126 the exponent byte has wrapped around into the sign bit, so that a number of
the other sign is decoded. -/
theorem decode_wireBytes_wrapped (negative : Bool) (aligned : Aligned digits exponent)
    (low : 128 ≤ exponent + digits.length) (high : exponent + digits.length ≤ 254) :
    Decimal.denote (decode (wireBytes negative digits exponent)).toList ≠
      some (Decimal.Parts.mk negative digits exponent).value := by
  intro denotes
  have evenLength := aligned.evenLength
  have evenExponent := aligned.evenExponent
  obtain ⟨half, halves⟩ : ∃ half : Int, exponent + digits.length = 2 * half :=
    ⟨(exponent + digits.length) / 2, by omega⟩
  have byte : (((exponent + digits.length).tdiv 2 + 192) % 256).toNat = (half - 64).toNat := by
    rw [halves, Int.mul_tdiv_cancel_left _ (by decide)]
    omega
  have positive : 0 < (Nat.ofDigitChars 10 digits 0 : ℚ) * 10 ^ exponent := by
    have counted : 0 < Nat.ofDigitChars 10 digits 0 :=
      (Nat.pow_pos (by decide)).trans_le aligned.large
    exact mul_pos (by exact_mod_cast counted) (BigDecimal.ten_zpow_pos exponent)
  have sized := aligned.pairs_ne_nil
  cases negative with
  | false =>
      have unsigned : (half - 64).toNat &&& 0x80 = 0 := by
        by_contra bit
        have := (and_sign_bit (by omega)).mp bit
        omega
      obtain ⟨r, decoded, -, nonpositive⟩ := sign_decode (half - 64).toNat
        ((pairs digits).map (· + 1)) (by simp [sized])
      simp only [wireBytes, byte, Bool.false_eq_true, if_false, decoded, Option.some.injEq,
        Decimal.Parts.value, one_mul] at denotes
      exact absurd (nonpositive unsigned) (by rw [denotes]; exact not_le.mpr positive)
  | true =>
      have signed : (255 - (half - 64).toNat) &&& 0x80 ≠ 0 :=
        (and_sign_bit (by omega)).mpr (by omega)
      obtain ⟨r, decoded, nonnegative, -⟩ := sign_decode (255 - (half - 64).toNat)
        ((pairs digits).map (101 - ·) ++ if digits.length < maxDigits then [102] else [])
        (by simp [sized])
      simp only [wireBytes, byte, if_true, decoded, Option.some.injEq, Decimal.Parts.value,
        neg_mul, one_mul] at denotes
      exact absurd (nonnegative signed) (by rw [denotes]; exact not_le.mpr (neg_lt_zero.mpr positive))

/-- Digits that were encoded are decoded to their number exactly when it is below 10^126. -/
theorem decode_encodeDigits_iff {negative : Bool} {b : List Nat}
    (allDigits : Decimal.AllDigits digits) (first : digits.head? ≠ some '0')
    (encoded : encodeDigits negative digits exponent = some b) :
    Decimal.denote (decode b).toList = some (Decimal.Parts.mk negative digits exponent).value ↔
      |(Decimal.Parts.mk negative digits exponent).value| < 10 ^ 126 := by
  obtain ⟨short, low, high, ⟨rfl, rfl⟩ | ⟨nonempty, rfl⟩⟩ := encodeDigits_cases encoded
  · have zero : (Decimal.Parts.mk negative [] exponent).value = 0 := by
      simp [Decimal.Parts.value]
    have decoded : Decimal.denote (decode [0x80]).toList = some 0 := by decide +kernel
    simp [zero, decoded]
  · have aligned : Aligned (align digits exponent).1 (align digits exponent).2 :=
      aligned_align allDigits nonempty first
    obtain ⟨place, length⟩ := align_bounds exponent digits
    rw [← value_align]
    obtain ⟨⟨ds, e⟩, alignment⟩ : ∃ aligned, align digits exponent = aligned := ⟨_, rfl⟩
    rw [alignment] at aligned place length ⊢
    dsimp only at aligned place length ⊢
    have evenLength := aligned.evenLength
    have evenExponent := aligned.evenExponent
    have two := aligned.two
    obtain ⟨large, small⟩ := aligned.abs_value negative
    by_cases fits : e + ds.length ≤ 126
    · refine iff_of_true (decode_wireBytes negative aligned (by omega) fits (by omega)) ?_
      rw [← zpow_natCast]
      exact small.trans_le (zpow_le_zpow_right₀ (by norm_num) (by push_cast; exact fits))
    · refine iff_of_false (decode_wireBytes_wrapped negative aligned (by omega) (by omega)) ?_
      rw [not_lt, ← zpow_natCast]
      exact (zpow_le_zpow_right₀ (by norm_num) (by push_cast; omega)).trans large

/-- Trimmed digits as a normalized decimal. -/
theorem normal_trimmed {negative : Bool} (allDigits : Decimal.AllDigits digits)
    (nonempty : digits ≠ []) (last : digits.getLast? ≠ some '0') :
    (BigDecimal.mk ((if negative then -1 else 1) * (Nat.ofDigitChars 10 digits 0 : Int))
      (-exponent)).Normal := by
  refine Or.inr fun divides => ?_
  have natural := Int.natAbs_dvd_natAbs.mpr divides
  refine Decimal.not_dvd_ofDigitChars allDigits nonempty last ?_
  cases negative <;> simpa using natural

/-- The number of a sign, digits and an exponent. -/
theorem toRat_signed (negative : Bool) (digits : List Char) (exponent : Int) :
    (BigDecimal.mk ((if negative then -1 else 1) * (Nat.ofDigitChars 10 digits 0 : Int))
      (-exponent)).toRat = (Decimal.Parts.mk negative digits exponent).value := by
  cases negative <;> simp [BigDecimal.toRat, Decimal.Parts.value]

/-- Trimmed digits of one number, encoded, give the same bytes. -/
theorem encodeDigits_unique {negative negative' : Bool} {digits' : List Char} {exponent' : Int}
    {b b' : List Nat} (allDigits : Decimal.AllDigits digits) (first : digits.head? ≠ some '0')
    (last : digits.getLast? ≠ some '0') (allDigits' : Decimal.AllDigits digits')
    (first' : digits'.head? ≠ some '0') (last' : digits'.getLast? ≠ some '0')
    (same : (Decimal.Parts.mk negative digits exponent).value =
      (Decimal.Parts.mk negative' digits' exponent').value)
    (encoded : encodeDigits negative digits exponent = some b)
    (encoded' : encodeDigits negative' digits' exponent' = some b') : b = b' := by
  have positive : ∀ {digits : List Char}, Decimal.AllDigits digits → digits.head? ≠ some '0' →
      digits ≠ [] → 0 < Nat.ofDigitChars 10 digits 0 := by
    intro digits allDigits first nonempty
    obtain ⟨c, rest, rfl⟩ := List.exists_cons_of_ne_nil nonempty
    exact (Nat.pow_pos (by decide)).trans_le
      (Decimal.le_ofDigitChars (allDigits c List.mem_cons_self) (by simpa using first))
  have nonzero : ∀ {negative : Bool} {digits : List Char} {exponent : Int},
      Decimal.AllDigits digits → digits.head? ≠ some '0' → digits ≠ [] →
      (Decimal.Parts.mk negative digits exponent).value ≠ 0 := by
    intro negative digits exponent allDigits first nonempty
    have counted := positive allDigits first nonempty
    have power := BigDecimal.ten_zpow_pos exponent
    cases negative <;> simp [Decimal.Parts.value, counted.ne', power.ne']
  have zero : ∀ {negative : Bool} {exponent : Int},
      (Decimal.Parts.mk negative [] exponent).value = 0 := by
    intro negative exponent
    simp [Decimal.Parts.value]
  obtain ⟨-, -, -, ⟨rfl, rfl⟩ | ⟨nonempty, -⟩⟩ := encodeDigits_cases encoded
  · obtain ⟨-, -, -, ⟨rfl, rfl⟩ | ⟨nonempty', -⟩⟩ := encodeDigits_cases encoded'
    · rfl
    · exact absurd (same.symm.trans zero) (nonzero allDigits' first' nonempty')
  · obtain ⟨-, -, -, ⟨rfl, rfl⟩ | ⟨nonempty', -⟩⟩ := encodeDigits_cases encoded'
    · exact absurd (same.trans zero) (nonzero allDigits first nonempty)
    · rw [← toRat_signed, ← toRat_signed] at same
      have equal := (normal_trimmed allDigits nonempty last).eq_of_toRat
        (normal_trimmed allDigits' nonempty' last') same
      simp only [BigDecimal.mk.injEq, neg_inj] at equal
      obtain ⟨coefficients, rfl⟩ := equal
      have counted := positive allDigits first nonempty
      have counted' := positive allDigits' first' nonempty'
      have signs : negative = negative' ∧
          Nat.ofDigitChars 10 digits 0 = Nat.ofDigitChars 10 digits' 0 := by
        cases negative <;> cases negative' <;> simp at coefficients ⊢ <;> omega
      rw [signs.1, Decimal.ofDigitChars_inj allDigits allDigits' first first' signs.2] at encoded
      exact Option.some.inj (encoded.symm.trans encoded')

/-- For every decimal text that is encoded: decoding gives a text of the same number, and no
other text of that number is encoded differently, exactly when the number is below 10^126 in
magnitude. -/
theorem number_codec_iff {text : String} {p : Decimal.Parts} {b : List Nat}
    (reads : Decimal.read text.toList = some p) (fits : ExponentFits p)
    (encoded : encode text = some b) :
    (Decimal.denote (decode b).toList = some p.value ∧
      ∀ text' p' b', Decimal.read (String.toList text') = some p' → ExponentFits p' →
        p'.value = p.value → encode text' = some b' → b' = b) ↔
      |p.value| < 10 ^ 126 := by
  have value : p.value = (Decimal.Parts.mk p.negative (trim p.digits)
      (p.exponent + trailingZeros p.digits)).value := (value_trim _ _ _).symm
  have allDigits := allDigits_trim (Decimal.allDigits_of_read reads)
  have bytes := encode_of_read reads fits encoded
  have roundTrip := decode_encodeDigits_iff allDigits (head_trim _) bytes
  rw [← value] at roundTrip
  refine ⟨fun both => roundTrip.mp both.1, fun small => ⟨roundTrip.mpr small, ?_⟩⟩
  intro text' p' b' reads' fits' same encoded'
  refine encodeDigits_unique (allDigits_trim (Decimal.allDigits_of_read reads')) (head_trim _)
    (getLast_trim _) allDigits (head_trim _) (getLast_trim _) ?_
    (encode_of_read reads' fits' encoded') bytes
  rw [value_trim, ← value]
  exact same

/-- `-12.5` is encoded and comes back. -/
theorem number_codec_negative :
    Decimal.denote (decode [0x3e, 0x59, 0x33, 0x66]).toList = some (-25 / 2) := by
  have value : (Decimal.Parts.mk true ['1', '2', '5'] (-1)).value = -25 / 2 := by decide +kernel
  have codec := @number_codec_iff "-12.5" ⟨true, ['1', '2', '5'], -1⟩ [0x3e, 0x59, 0x33, 0x66]
    (by decide +kernel) ⟨by decide +kernel, by decide +kernel⟩ (by decide +kernel)
  rw [value] at codec
  exact (codec.mpr (by norm_num [abs_lt])).1

/-- `12e125` is encoded with an exponent byte that has wrapped around to zero, and a negative
number comes back. -/
theorem number_codec_wraps :
    ∃ p b, Decimal.read "12e125".toList = some p ∧ ExponentFits p ∧ encode "12e125" = some b ∧
      Decimal.denote (decode b).toList ≠ some p.value := by
  refine ⟨⟨false, ['1', '2'], 125⟩, [0x00, 0x02, 0x15], by decide +kernel,
    ⟨by decide +kernel, by decide +kernel⟩, by decide +kernel, by decide +kernel⟩

end MockOracle.OraNum
