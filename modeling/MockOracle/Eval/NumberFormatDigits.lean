import MockOracle.Eval.NumberFormat
import MockOracle.Eval.NumberText

/-!
# Digits in a number format

`formatNumberWith` takes the digits from the plain text of the rounded number and fills them into the
integer part of the format from the right. Without the blanks and the group marks the filled part is
those digits behind some zeros.
-/

namespace MockOracle.NumberFormat

open Semantics

/-- The digits before and after the point of `m` units of the last of `places` places. -/
structure Digits (m places : Nat) (intDigits fractionPart : List Char) : Prop where
  wholeDigits : Decimal.AllDigits intDigits
  fractionDigits : Decimal.AllDigits fractionPart
  first : intDigits.head? ≠ some '0'
  length : fractionPart.length = places
  value : Nat.ofDigitChars 10 (intDigits ++ fractionPart) 0 = m

/-- A run of digits in which only the last may be a leading zero, without that zero. -/
theorem digits_of_plain {m places : Nat} {whole fraction : List Char}
    (padded : ∃ k, whole ++ fraction = List.replicate k '0' ++ Nat.toDigits 10 m ∧
      (k ≠ 0 → whole.length = 1)) (nonempty : whole ≠ []) (length : fraction.length = places) :
    Digits m places (if whole = ['0'] then [] else whole) fraction := by
  obtain ⟨k, form, short⟩ := padded
  have digits : Decimal.AllDigits (whole ++ fraction) := by
    rw [form]
    exact (Decimal.allDigits_replicate_zero k).append (Decimal.allDigits_toDigits m)
  have value : Nat.ofDigitChars 10 (whole ++ fraction) 0 = m := by
    rw [form, Decimal.ofDigitChars_zeros_append, Nat.ofDigitChars_ten_toDigits]
  split
  · next zero =>
      refine ⟨by simp [Decimal.AllDigits], digits.of_append.2, by simp, length, ?_⟩
      rw [← value, zero]
      exact (Decimal.ofDigitChars_zeros_append 1 fraction).symm
  · next other =>
      refine ⟨digits.of_append.1, digits.of_append.2, ?_, length, value⟩
      intro first
      obtain ⟨c, rest, rfl⟩ := List.exists_cons_of_ne_nil nonempty
      obtain rfl : c = '0' := by simpa using first
      cases k with
      | succ k =>
          have alone : rest = [] := by simpa using short (Nat.succ_ne_zero k)
          exact other (by rw [alone])
      | zero =>
          rw [List.replicate_zero, List.nil_append] at form
          have zero : m = 0 := by
            by_contra nonzero
            exact BigDecimal.head_toDigits nonzero (by rw [← form]; rfl)
          rw [zero, Nat.toDigits_zero, List.cons_append, List.cons.injEq] at form
          exact other (by rw [(List.append_eq_nil_iff.mp form.2).1])

/-- The digits of a rounded number. -/
theorem digitsOf_spec {rounded : BigDecimal} {places : Nat} (scale : rounded.scale = places) :
    Digits rounded.intVal.natAbs places (digitsOf rounded places).1
      (digitsOf rounded places).2 := by
  have same : BigDecimal.withScale ⟨rounded.intVal.natAbs, rounded.scale⟩ places =
      ⟨rounded.intVal.natAbs, places⟩ := by
    rw [scale]
    simp [BigDecimal.withScale]
  have unsigned : ¬ ((rounded.intVal.natAbs : Int) < 0) := by omega
  have plain : BigDecimal.toPlainString ⟨rounded.intVal.natAbs, places⟩ =
      BigDecimal.plainDigits (toString rounded.intVal.natAbs) places := by
    rw [BigDecimal.toPlainString, if_neg unsigned]
    rfl
  have numeral : (toString rounded.intVal.natAbs).toList = Nat.toDigits 10 rounded.intVal.natAbs := by
    simp
  unfold digitsOf
  simp only [same, plain]
  by_cases fractional : 0 < places
  · have some_ : (toString rounded.intVal.natAbs).toList ≠ [] := by simp
    obtain ⟨whole, fraction, form, nonempty, padded, length, -⟩ :=
      BigDecimal.plainDigits_places some_ (Int.natCast_pos.mpr fractional)
    rw [numeral, Int.toNat_natCast] at padded
    rw [Int.toNat_natCast] at length
    have allDigits : Decimal.AllDigits (whole ++ fraction) := by
      rw [padded]
      exact (Decimal.allDigits_replicate_zero _).append (Decimal.allDigits_toDigits _)
    rw [form, Decimal.cut_append (fun c member =>
      Decimal.not_isPoint_of_isDigit (allDigits.of_append.1 c member)) rfl]
    refine digits_of_plain ⟨_, padded, fun padding => ?_⟩ nonempty length
    have lengths := congrArg List.length padded
    simp only [List.length_append, List.length_replicate, ← numeral, String.length_toList] at lengths
    change whole.length = 1
    omega
  · obtain rfl : places = 0 := by omega
    have whole : (BigDecimal.plainDigits (toString rounded.intVal.natAbs) (0 : Nat)).toList =
        Nat.toDigits 10 rounded.intVal.natAbs := by
      rw [BigDecimal.plainDigits, if_pos (by decide)]
      simp [BigDecimal.toList_pushn]
    rw [whole, Decimal.cut_of_none fun c member =>
      Decimal.not_isPoint_of_isDigit (Decimal.allDigits_toDigits _ c member)]
    exact digits_of_plain ⟨0, by simp, fun absurd_ => (absurd_ rfl).elim⟩ Nat.toDigits_ne_nil rfl

/-- Digits without a leading zero fit into as many places as the number they spell. -/
theorem length_le_iff {digits : List Char} (allDigits : Decimal.AllDigits digits)
    (first : digits.head? ≠ some '0') (places : Nat) :
    digits.length ≤ places ↔ Nat.ofDigitChars 10 digits 0 < 10 ^ places := by
  constructor
  · intro short
    exact (Decimal.ofDigitChars_lt allDigits).trans_le (Nat.pow_le_pow_right (by decide) short)
  · intro small
    cases digits with
    | nil => exact Nat.zero_le _
    | cons c rest =>
        have large : 10 ^ rest.length ≤ Nat.ofDigitChars 10 (c :: rest) 0 :=
          Decimal.le_ofDigitChars (allDigits c List.mem_cons_self) (by simpa using first)
        exact (Nat.pow_lt_pow_iff_right (by decide)).mp (large.trans_lt small)

namespace Digits

variable {m places : Nat} {intDigits fractionPart : List Char}

/-- The digits before the point spell the whole part. -/
theorem whole (digits : Digits m places intDigits fractionPart) :
    Nat.ofDigitChars 10 intDigits 0 = m / 10 ^ places := by
  have value := digits.value
  have below := Decimal.ofDigitChars_lt digits.fractionDigits
  rw [Decimal.ofDigitChars_append_zero] at value
  rw [digits.length] at value below
  rw [← value, Nat.mul_add_div (Nat.pow_pos (by decide)), Nat.div_eq_of_lt below, Nat.add_zero]

/-- The integer digits fit the slots if and only if the integer part does. -/
theorem length_le (digits : Digits m places intDigits fractionPart) (slots : Nat) :
    intDigits.length ≤ slots ↔ m / 10 ^ places < 10 ^ slots := by
  rw [length_le_iff digits.wholeDigits digits.first, digits.whole]

/-- A zero has no digits before the point and only zeros after it. -/
theorem of_zero (digits : Digits m places intDigits fractionPart) (zero : m = 0) :
    intDigits = [] ∧ fractionPart = List.replicate places '0' := by
  have noDigits : intDigits = [] := by
    have short := (digits.length_le 0).mpr (by simp [zero])
    exact List.length_eq_zero_iff.mp (Nat.le_zero.mp short)
  have value := digits.value
  rw [noDigits, List.nil_append, zero] at value
  refine ⟨noDigits, Decimal.ofDigitChars_inj_of_length digits.fractionDigits
    (Decimal.allDigits_replicate_zero places) (by rw [digits.length, List.length_replicate]) ?_⟩
  rw [value, Nat.ofDigitChars_replicate_zero, Nat.mul_zero]

end Digits

/-! ## Filling the integer part -/

/-- The text without blanks, dollar signs and group marks. -/
def bare (text : List Char) : List Char := text.filter fun c => c ≠ ' ' ∧ c ≠ '$' ∧ c ≠ ','

/-- Without its marks a text is its parts without theirs. -/
theorem bare_append (left right : List Char) : bare (left ++ right) = bare left ++ bare right :=
  List.filter_append left right

/-- Taking the marks off a reversed text. -/
theorem bare_reverse (text : List Char) : bare text.reverse = (bare text).reverse :=
  List.filter_reverse

/-- Digits have no marks to take off. -/
theorem bare_of_allDigits {text : List Char} (digits : Decimal.AllDigits text) :
    bare text = text := by
  refine List.filter_eq_self.mpr fun c member => ?_
  have digit := digits c member
  rw [decide_eq_true_eq]
  refine ⟨?_, ?_, ?_⟩ <;> (rintro rfl; exact absurd digit (by decide))

section Fill

variable (firstZero : Option Nat) {c : Char} (pos : Nat) (rest : List (Char × Nat)) (placedAll : Bool)

/-- A slot takes the next digit. -/
theorem fill_digit (slot : isSlot c = true) (d : Char) (more : List Char) :
    fill firstZero ((c, pos) :: rest) (d :: more) placedAll =
      d :: fill firstZero rest more (if more = [] then true else placedAll) := by
  rw [fill, if_pos slot]

/-- A slot without a digit shows a zero or a blank. -/
theorem fill_slot (slot : isSlot c = true) :
    fill firstZero ((c, pos) :: rest) [] placedAll =
      (if firstZero.any (· ≤ pos) then '0' else ' ') :: fill firstZero rest [] placedAll := by
  rw [fill, if_pos slot]

/-- A group mark is shown only among digits. -/
theorem fill_mark (mark : isSlot c ≠ true) (digits : List Char) :
    fill firstZero ((c, pos) :: rest) digits placedAll =
      (if !placedAll || firstZero.any (· < pos) then ',' else ' ')
        :: fill firstZero rest digits placedAll := by
  conv_lhs => unfold fill
  exact if_neg mark

end Fill

/-- The filled part is the digits and zeros after them. -/
theorem bare_fill (firstZero : Option Nat) (marks : List (Char × Nat)) {digits : List Char}
    (allDigits : Decimal.AllDigits digits) (placedAll : Bool)
    (fits : digits.length ≤ marks.countP fun mark => isSlot mark.1) :
    ∃ zeros, bare (fill firstZero marks digits placedAll) = digits ++ List.replicate zeros '0' := by
  induction marks generalizing digits placedAll with
  | nil =>
      rw [List.countP_nil, Nat.le_zero, List.length_eq_zero_iff] at fits
      exact ⟨0, by rw [fits]; rfl⟩
  | cons mark rest ih =>
      obtain ⟨c, pos⟩ := mark
      by_cases slot : isSlot c = true
      · rw [List.countP_cons_of_pos (by exact slot)] at fits
        cases digits with
        | nil =>
            obtain ⟨zeros, filled⟩ := ih allDigits placedAll (Nat.zero_le _)
            rw [fill_slot _ _ _ _ slot]
            split
            · exact ⟨zeros + 1, by rw [List.replicate_succ]; simpa [bare] using filled⟩
            · exact ⟨zeros, by simpa [bare] using filled⟩
        | cons d more =>
            rw [Decimal.AllDigits, List.forall_mem_cons] at allDigits
            have fitsMore : more.length ≤ rest.countP fun mark => isSlot mark.1 := by
              simpa using fits
            obtain ⟨zeros, filled⟩ := ih allDigits.2 (if more = [] then true else placedAll) fitsMore
            have kept : bare [d] = [d] :=
              bare_of_allDigits (by simpa [Decimal.AllDigits] using allDigits.1)
            refine ⟨zeros, ?_⟩
            rw [fill_digit _ _ _ _ slot, ← List.singleton_append, bare_append, kept, filled]
            rfl
      · rw [List.countP_cons_of_neg (by exact slot)] at fits
        obtain ⟨zeros, filled⟩ := ih allDigits placedAll fits
        refine ⟨zeros, ?_⟩
        rw [fill_mark _ _ _ _ slot]
        split <;> simpa [bare] using filled

/-- Without digits a zero is filled in where the first zero of the format allows it. -/
theorem zero_mem_fill (firstZero : Option Nat) (marks : List (Char × Nat)) (placedAll : Bool) :
    '0' ∈ fill firstZero marks [] placedAll ↔
      ∃ mark ∈ marks, isSlot mark.1 = true ∧ firstZero.any (· ≤ mark.2) = true := by
  induction marks with
  | nil => simp [fill]
  | cons mark rest ih =>
      obtain ⟨c, pos⟩ := mark
      rw [List.exists_mem_cons_iff, ← ih]
      by_cases slot : isSlot c = true
      · rw [fill_slot _ _ _ _ slot]
        by_cases allowed : firstZero.any (· ≤ pos) = true <;> simp [slot, allowed]
      · rw [fill_mark _ _ _ _ slot]
        by_cases shown : (!placedAll || firstZero.any (· < pos)) = true <;> simp [slot, shown]

/-- Filling keeps the width of the format. -/
theorem length_fill (firstZero : Option Nat) (marks : List (Char × Nat)) (digits : List Char)
    (placedAll : Bool) : (fill firstZero marks digits placedAll).length = marks.length := by
  induction marks generalizing digits placedAll with
  | nil => rfl
  | cons mark rest ih =>
      obtain ⟨c, pos⟩ := mark
      by_cases slot : isSlot c = true
      · cases digits with
        | nil => rw [fill_slot _ _ _ _ slot, List.length_cons, ih, List.length_cons]
        | cons d more => rw [fill_digit _ _ _ _ slot, List.length_cons, ih, List.length_cons]
      · rw [fill_mark _ _ _ _ slot, List.length_cons, ih, List.length_cons]

/-- Taking the marks off keeps the zeros. -/
theorem zero_mem_bare {text : List Char} : '0' ∈ bare text ↔ '0' ∈ text := by
  simp [bare]

/-- A text of zeros still has a zero when one is shown in it. -/
theorem bare_showZero {text : List Char} (nonempty : text ≠ []) {zeros : Nat}
    (filled : bare text = List.replicate zeros '0') :
    ∃ zeros, zeros ≠ 0 ∧ bare (showZero text) = List.replicate zeros '0' := by
  obtain ⟨c, rest, rfl⟩ := List.exists_cons_of_ne_nil nonempty
  rw [showZero]
  split
  · next zero =>
      refine ⟨zeros, ?_, filled⟩
      rintro rfl
      rw [← zero_mem_bare, filled] at zero
      cases zero
  · next none =>
      have empty : bare (c :: rest) = [] := by
        rw [filled]
        cases zeros with
        | zero => rfl
        | succ k =>
            rw [← zero_mem_bare, filled] at none
            exact absurd (by simp) none
      have restEmpty : bare rest = [] := by
        rw [← List.singleton_append, bare_append] at empty
        exact (List.append_eq_nil_iff.mp empty).2
      refine ⟨1, by decide, ?_⟩
      rw [← List.singleton_append, bare_append, restEmpty]
      rfl

/-- The marks of the format are those of its positions. -/
theorem countP_positions (whole : List Char) :
    whole.zipIdx.reverse.countP (fun mark => isSlot mark.1) = whole.countP isSlot := by
  rw [List.countP_reverse]
  conv_rhs => rw [← List.zipIdx_map_fst 0 whole, List.countP_map]
  rfl

/-- The first zero of the format is at a place for a digit. -/
theorem zero_position (whole : List Char) :
    (∃ mark ∈ whole.zipIdx.reverse, isSlot mark.1 = true ∧
      (whole.findIdx? (· = '0')).any (· ≤ mark.2) = true) ↔ '0' ∈ whole := by
  constructor
  · rintro ⟨mark, -, -, allowed⟩
    obtain ⟨z, found, -⟩ := Option.any_eq_true _ _ |>.mp allowed
    obtain ⟨bound, zero, -⟩ := List.findIdx?_eq_some_iff_getElem.mp found
    rw [← of_decide_eq_true zero]
    exact List.getElem_mem bound
  · intro member
    obtain ⟨z, found⟩ : ∃ z, whole.findIdx? (· = '0') = some z := by
      rw [← Option.isSome_iff_exists, List.findIdx?_isSome, List.any_eq_true]
      exact ⟨'0', member, rfl⟩
    obtain ⟨bound, zero, -⟩ := List.findIdx?_eq_some_iff_getElem.mp found
    refine ⟨('0', z), ?_, rfl, by simp [found]⟩
    rw [List.mem_reverse, List.mk_mem_zipIdx_iff_getElem?, List.getElem?_eq_getElem bound,
      of_decide_eq_true zero]

/-- The integer part is its digits behind zeros; without digits there is no zero only where the
format has none and a point follows. -/
theorem bare_wholeText {whole intDigits : List Char} {isFraction : Bool}
    (allDigits : Decimal.AllDigits intDigits) (fits : intDigits.length ≤ whole.countP isSlot)
    (some_ : isFraction = false → whole ≠ []) :
    ∃ zeros, bare (wholeText whole intDigits isFraction) = List.replicate zeros '0' ++ intDigits ∧
      (intDigits = [] → (zeros = 0 ↔ isFraction = true ∧ '0' ∉ whole)) := by
  have reversed : Decimal.AllDigits intDigits.reverse := fun c member =>
    allDigits c (List.mem_reverse.mp member)
  obtain ⟨zeros, filled⟩ := bare_fill (whole.findIdx? (· = '0')) whole.zipIdx.reverse reversed
    intDigits.isEmpty (by rwa [countP_positions, List.length_reverse])
  have allowed := zero_mem_fill (whole.findIdx? (· = '0')) whole.zipIdx.reverse true
  rw [zero_position, ← zero_mem_bare] at allowed
  unfold wholeText
  cases intDigits with
  | cons d more =>
      refine ⟨zeros, ?_, fun empty => by cases empty⟩
      simp only [List.isEmpty_cons, Bool.false_and, Bool.false_eq_true, if_false] at filled ⊢
      rw [bare_reverse, filled, List.reverse_append, List.reverse_reverse, List.reverse_replicate]
  | nil =>
      simp only [List.reverse_nil, List.isEmpty_nil, List.nil_append, Bool.true_and] at filled ⊢
      cases isFraction with
      | true =>
          rw [filled] at allowed
          refine ⟨zeros, by simp [bare_reverse, filled], fun _ => ?_⟩
          rw [← allowed]
          simp
      | false =>
          have nonempty : fill (whole.findIdx? (· = '0')) whole.zipIdx.reverse [] true ≠ [] := by
            rw [← List.length_pos_iff, length_fill]
            simpa [List.length_pos_iff] using some_ rfl
          obtain ⟨zeros, positive, shown⟩ := bare_showZero nonempty filled
          exact ⟨zeros, by simp [bare_reverse, shown], fun _ => by simp [positive]⟩

/-! ## The fraction -/

/-- Only zeros are dropped. -/
theorem trimZeros_spec (keep : Nat) (digits : List Char) :
    ∃ zeros, digits = trimZeros keep digits ++ List.replicate zeros '0' := by
  have within := Nat.min_le_left (digits.reverse.takeWhile (· = '0')).length (digits.length - keep)
  generalize dropped : min (digits.reverse.takeWhile (· = '0')).length (digits.length - keep) = drop_
  rw [dropped] at within
  have zeros : digits.reverse.take drop_ = List.replicate drop_ '0' := by
    rw [← List.takeWhile_append_dropWhile (p := (· = '0')) (l := digits.reverse),
      List.take_append_of_le_length within, List.eq_replicate_iff]
    refine ⟨by rw [List.length_take]; exact min_eq_left within, fun c member => ?_⟩
    have here := List.mem_takeWhile_imp (List.mem_of_mem_take member)
    exact of_decide_eq_true here
  refine ⟨drop_, ?_⟩
  rw [trimZeros]
  simp only [dropped]
  calc digits = (digits.reverse.take drop_ ++ digits.reverse.drop drop_).reverse := by
        rw [List.take_append_drop, List.reverse_reverse]
    _ = _ := by rw [zeros, List.reverse_append, List.reverse_replicate]

/-- Trimming zeros keeps as many as are asked for. -/
theorem trimZeros_zeros (keep k : Nat) :
    trimZeros keep (List.replicate k '0') = List.replicate (min keep k) '0' := by
  have all : (List.replicate k '0').takeWhile (· = '0') = List.replicate k '0' :=
    List.takeWhile_eq_self_iff.mpr fun c member => by simp [List.eq_of_mem_replicate member]
  rw [trimZeros]
  simp only [List.reverse_replicate, all, List.length_replicate, List.drop_replicate]
  congr 1
  omega

/-- The places that keep their zeros reach to the last zero of the format. -/
theorem keep_eq_zero {ff : List Char} :
    (ff.reverse.findIdx? (· = '0')).elim 0 (ff.length - ·) = 0 ↔ '0' ∉ ff := by
  cases found : ff.reverse.findIdx? (· = '0') with
  | none =>
      rw [List.findIdx?_eq_none_iff] at found
      refine iff_of_true rfl fun member => ?_
      simpa using found '0' (List.mem_reverse.mpr member)
  | some i =>
      obtain ⟨bound, zero, -⟩ := List.findIdx?_eq_some_iff_getElem.mp found
      refine iff_of_false ?_ (not_not.mpr ?_)
      · rw [List.length_reverse] at bound
        rw [Option.elim_some]
        omega
      · rw [← List.mem_reverse, ← of_decide_eq_true zero]
        exact List.getElem_mem bound

/-- The digits shown after the point lack only zeros at their end; of a fraction of zeros there is
none left where the format has no place for it or FM drops it. -/
theorem fractionText_some (fm : Bool) {ff part : List Char} (length : part.length = ff.length) :
    ∃ kept zeros, fractionText fm (some ff) part = '.' :: kept ∧
      part = kept ++ List.replicate zeros '0' ∧
      (part = List.replicate ff.length '0' → (kept = [] ↔ ff = [] ∨ fm = true ∧ '0' ∉ ff)) := by
  cases fm with
  | false =>
      refine ⟨part, 0, rfl, (List.append_nil part).symm, fun _ => ?_⟩
      simp [← List.length_eq_zero_iff, length]
  | true =>
      obtain ⟨zeros, trimmed⟩ :=
        trimZeros_spec ((ff.reverse.findIdx? (· = '0')).elim 0 (ff.length - ·)) part
      refine ⟨_, zeros, rfl, trimmed, fun onlyZeros => ?_⟩
      rw [onlyZeros, if_pos rfl, trimZeros_zeros, List.replicate_eq_nil_iff, Nat.min_eq_zero_iff,
        keep_eq_zero, List.length_eq_zero_iff]
      simp [or_comm]

end MockOracle.NumberFormat
