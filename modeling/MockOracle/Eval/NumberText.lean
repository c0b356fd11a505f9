import MockOracle.Eval.StoreValue

/-!
# Numbers as text and back

A number that is converted to VARCHAR2 is written by `formatNumber`, and a VARCHAR2 that is
converted to NUMBER is read by `Value.toNumber`. Reading gives the number that was written, so
that comparisons, set operations and columns may convert back and forth.
-/

namespace MockOracle

open Semantics

namespace BigDecimal

/-- The numeral of a number that is no multiple of ten does not end with a zero. -/
theorem getLast_toDigits {n : Nat} (odd : ¬ 10 ∣ n) : (Nat.toDigits 10 n).getLast? ≠ some '0' := by
  intro zero
  obtain ⟨front, numeral⟩ : ∃ front, Nat.toDigits 10 n = front ++ ['0'] :=
    List.getLast?_eq_some_iff.mp zero
  have value := @Nat.ofDigitChars_ten_toDigits n
  rw [numeral, Decimal.ofDigitChars_append_zero] at value
  have last : Nat.ofDigitChars 10 ['0'] 0 = 0 := by decide
  rw [last, List.length_singleton, pow_one, add_zero] at value
  exact odd ⟨Nat.ofDigitChars 10 front 0, value.symm⟩

/-- The numeral of a number other than zero does not begin with a zero. -/
theorem head_toDigits {n : Nat} (nonzero : n ≠ 0) : (Nat.toDigits 10 n).head? ≠ some '0' := by
  intro zero
  obtain ⟨rest, numeral⟩ : ∃ rest, Nat.toDigits 10 n = '0' :: rest := by
    cases digits : Nat.toDigits 10 n with
    | nil => exact absurd digits Nat.toDigits_ne_nil
    | cons c rest =>
        rw [digits] at zero
        simp only [List.head?_cons, Option.some.injEq] at zero
        exact ⟨rest, by rw [zero]⟩
  have value : Nat.ofDigitChars 10 rest 0 = n := by
    have := @Nat.ofDigitChars_ten_toDigits n
    rw [numeral, Decimal.ofDigitChars_cons_zero] at this
    simpa using this
  have digits : Decimal.AllDigits rest := fun c member =>
    Decimal.allDigits_toDigits n c (by rw [numeral]; exact List.mem_cons_of_mem _ member)
  have small := Decimal.ofDigitChars_lt digits
  rw [value] at small
  cases rest with
  | nil => exact nonzero (by simpa using value.symm)
  | cons c more =>
      have shorter := (Nat.length_toDigits_le_iff (b := 10) (by decide) (by simp)).mpr small
      rw [numeral] at shorter
      simp at shorter

variable {text : String} {scale : Int}

/-- With decimal places the digits after the point are the last ones. -/
theorem plainDigits_places (nonempty : text.toList ≠ []) (places : 0 < scale) :
    ∃ whole fraction, (plainDigits text scale).toList = whole ++ '.' :: fraction ∧ whole ≠ [] ∧
      whole ++ fraction = List.replicate (scale.toNat + 1 - text.length) '0' ++ text.toList ∧
      fraction.length = scale.toNat ∧ fraction.getLast? = text.toList.getLast? := by
  let padded := List.replicate (scale.toNat + 1 - text.length) '0' ++ text.toList
  have long : scale.toNat + 1 ≤ padded.length := by
    simp only [padded, List.length_append, List.length_replicate, String.length_toList]
    omega
  have padding : ("".pushn '0' (scale.toNat + 1 - text.length) ++ text).toList = padded := by
    simp [padded, toList_pushn]
  have length : ("".pushn '0' (scale.toNat + 1 - text.length) ++ text).length = padded.length := by
    rw [← String.length_toList, padding]
  refine ⟨padded.take (padded.length - scale.toNat), padded.drop (padded.length - scale.toNat),
    ?_, ?_, List.take_append_drop _ _, ?_, ?_⟩
  · rw [plainDigits, if_neg (by omega)]
    simp only [padding, length]
    simp
  · intro empty
    have none := congrArg List.length empty
    simp only [List.length_take, List.length_nil] at none
    omega
  · rw [List.length_drop]
    omega
  · rw [List.getLast?_drop, if_neg (by omega)]
    exact List.getLast?_append_of_ne_nil _ nonempty

end BigDecimal

/-- Dropping the zero before a leading point, in parts. -/
theorem stripLeadingZero_write {negative : Bool} {whole : List Char} {fraction : Option (List Char)}
    (nonempty : whole ≠ []) (digits : Decimal.AllDigits whole) :
    stripLeadingZero (Decimal.write negative whole fraction none) =
      Decimal.write negative (if whole = ['0'] ∧ fraction ≠ none then [] else whole) fraction none := by
  have form : ∀ whole, Decimal.write negative whole fraction none =
      Decimal.signText negative ++ (whole ++ fraction.elim [] ('.' :: ·)) := by
    intro whole
    simp [Decimal.write]
  split
  · next zero =>
      obtain ⟨rfl, point⟩ := zero
      obtain ⟨rest, rfl⟩ := Option.ne_none_iff_exists'.mp point
      cases negative <;> simp [form, Decimal.signText, stripLeadingZero]
  · next other =>
      unfold stripLeadingZero
      split
      · next rest equal =>
          refine absurd ?_ other
          cases negative with
          | true => simp [form, Decimal.signText] at equal
          | false =>
              obtain ⟨zero, point⟩ := whole_eq_zero digits nonempty (by
                simpa [form, Decimal.signText] using equal)
              exact ⟨zero, by rw [point]; exact Option.some_ne_none rest⟩
      · next rest equal =>
          refine absurd ?_ other
          cases negative with
          | true =>
              obtain ⟨zero, point⟩ := whole_eq_zero digits nonempty (by
                simpa [form, Decimal.signText] using equal)
              exact ⟨zero, by rw [point]; exact Option.some_ne_none rest⟩
          | false =>
              obtain ⟨c, more, rfl⟩ := List.exists_cons_of_ne_nil nonempty
              simp only [form, Decimal.signText, Bool.false_eq_true, if_false, List.nil_append,
                List.cons_append, List.cons.injEq] at equal
              exact absurd (digits c List.mem_cons_self) (by rw [equal.1]; decide)
      · rfl

namespace BigDecimal

/-- Plain notation in parts. -/
theorem toPlainString_form (n : BigDecimal) :
    ∃ whole fraction,
      n.toPlainString.toList = Decimal.write (decide (n.intVal < 0)) whole fraction none ∧
      whole ≠ [] ∧ Decimal.AllDigits whole ∧ Decimal.AllDigits (fraction.getD []) ∧
      (fraction.getD []).length = n.scale.toNat ∧
      (fraction ≠ none → fraction ≠ some [] ∧
        (fraction.getD []).getLast? = (Nat.toDigits 10 n.intVal.natAbs).getLast?) := by
  have numeral : (toString n.intVal.natAbs).toList = Nat.toDigits 10 n.intVal.natAbs := by simp
  have digits := Decimal.allDigits_toDigits n.intVal.natAbs
  have nonempty : (toString n.intVal.natAbs).toList ≠ [] := by simp
  have signed : ∀ whole fraction, (plainDigits (toString n.intVal.natAbs) n.scale).toList =
      whole ++ fraction.elim [] ('.' :: ·) →
      n.toPlainString.toList = Decimal.write (decide (n.intVal < 0)) whole fraction none := by
    intro whole fraction form
    simp only [toPlainString]
    by_cases negative : n.intVal < 0 <;>
      simp only [negative, if_true, if_false, String.toList_append, form] <;>
      simp [Decimal.write, Decimal.signText]
  by_cases places : 0 < n.scale
  · obtain ⟨whole, fraction, form, some_, padded, length, last⟩ := plainDigits_places nonempty places
    have allDigits : Decimal.AllDigits (whole ++ fraction) := by
      rw [padded, numeral]
      exact (Decimal.allDigits_replicate_zero _).append digits
    refine ⟨whole, some fraction, signed whole (some fraction) form, some_, allDigits.of_append.1,
      allDigits.of_append.2, length, fun _ => ⟨?_, ?_⟩⟩
    · intro empty
      rw [Option.some.inj empty, List.length_nil] at length
      omega
    · rw [← numeral]
      exact last
  · refine ⟨Nat.toDigits 10 n.intVal.natAbs ++ List.replicate n.scale.natAbs '0', none,
      signed _ none ?_, ?_, digits.append (Decimal.allDigits_replicate_zero _), ?_, ?_, ?_⟩
    · simp [plainDigits, if_pos (not_lt.mp places), toList_pushn]
    · simp [Nat.toDigits_ne_nil]
    · simp [Decimal.AllDigits]
    · rw [Option.getD_none, List.length_nil]
      omega
    · simp

/-- Normalizing adds no decimal places. -/
theorem places_normalized_le (n : BigDecimal) : n.normalized.scale.toNat ≤ n.scale.toNat := by
  unfold normalized
  split
  · exact Nat.zero_le _
  · exact Int.toNat_le_toNat (scale_stripZeros_le _ _ _)

end BigDecimal

/-- A numeral as Oracle writes numbers by default. -/
structure DefaultNumeral (text : List Char) : Prop where
  noExponent : ∀ c ∈ text, Decimal.isExponentMark c = false
  /-- Behind a point there is a digit, and the last one is no zero. -/
  noTrailingZero : '.' ∈ text → text.getLast? ≠ some '.' ∧ text.getLast? ≠ some '0'
  noLoneZero : ¬ ['0', '.'] <+: text ∧ ¬ ['-', '0', '.'] <+: text

/-- The default text of a number in parts. -/
theorem formatNumber_form (n : BigDecimal) :
    ∃ negative whole fraction, (formatNumber n).toList = Decimal.write negative whole fraction none ∧
      Decimal.AllDigits whole ∧ Decimal.AllDigits (fraction.getD []) ∧ whole ++ fraction.getD [] ≠ [] ∧
      (fraction ≠ none → whole ≠ ['0'] ∧ (fraction.getD []).getLast? ≠ none ∧
        (fraction.getD []).getLast? ≠ some '0') ∧
      (fraction.getD []).length ≤ n.scale.toNat := by
  -- The decimal whose plain notation is written, and that its last decimal place is no zero.
  obtain ⟨m, text, last, places⟩ : ∃ m : BigDecimal,
      formatNumber n = String.ofList (stripLeadingZero m.toPlainString.toList) ∧
      (0 < m.scale → (Nat.toDigits 10 m.intVal.natAbs).getLast? ≠ some '0') ∧
      m.scale.toNat ≤ n.scale.toNat := by
    by_cases negative : n.normalized.scale < 0
    · refine ⟨n.normalized.withScale 0, ?_, ?_, ?_⟩
      · simp only [formatNumber, if_pos negative]
        rw [BigDecimal.toText_whole]
        rw [BigDecimal.withScale, if_pos negative.le]
      all_goals
        rw [BigDecimal.withScale, if_pos negative.le]
        simp
    · refine ⟨n.normalized, by simp only [formatNumber, if_neg negative], fun positive => ?_, ?_⟩
      · refine BigDecimal.getLast_toDigits fun divides => ?_
        rcases BigDecimal.normal_normalized n with zero | normal
        · rw [zero] at positive
          exact absurd positive (lt_irrefl _)
        · exact normal (Int.natCast_dvd.mpr divides)
      · exact BigDecimal.places_normalized_le n
  obtain ⟨whole, fraction, form, some_, wholeDigits, fractionDigits, length, point⟩ :=
    m.toPlainString_form
  refine ⟨decide (m.intVal < 0), if whole = ['0'] ∧ fraction ≠ none then [] else whole, fraction, ?_, ?_,
    fractionDigits, ?_, fun pointed => ?_, length.trans_le places⟩
  · rw [text, String.toList_ofList, form, stripLeadingZero_write some_ wholeDigits]
  · split
    · simp [Decimal.AllDigits]
    · exact wholeDigits
  · split
    · next zero =>
        obtain ⟨rest, rfl⟩ := Option.ne_none_iff_exists'.mp zero.2
        simpa using (point zero.2).1
    · simp [some_]
  · obtain ⟨digits, lastDigit⟩ := point pointed
    obtain ⟨rest, rfl⟩ := Option.ne_none_iff_exists'.mp pointed
    have positive : 0 < m.scale := by
      have : rest.length ≠ 0 := by simpa using digits
      rw [Option.getD_some] at length
      omega
    refine ⟨?_, ?_, ?_⟩
    · split
      · simp
      · next other => exact fun zero => other ⟨zero, pointed⟩
    · simpa using digits
    · rw [lastDigit]
      exact last positive

/-- Text without white space at its ends is not trimmed. -/
theorem trim_eq_self {text : String} (first : ∀ c ∈ text.toList.head?, isWhitespace c = false)
    (last : ∀ c ∈ text.toList.getLast?, isWhitespace c = false) : trim text = text := by
  have kept : ∀ chars : List Char, (∀ c ∈ chars.head?, isWhitespace c = false) →
      chars.dropWhile isWhitespace = chars := by
    intro chars plain
    cases chars with
    | nil => rfl
    | cons c rest => exact List.dropWhile_cons_of_neg (by simp [plain c rfl])
  rw [trim, kept _ first, kept _ (by simpa using last), List.reverse_reverse, String.ofList_toList]

section Write

variable {negative : Bool} {whole : List Char} {fraction : Option (List Char)}
  (wholeDigits : Decimal.AllDigits whole) (fractionDigits : Decimal.AllDigits (fraction.getD []))
include wholeDigits fractionDigits

/-- The characters of a numeral without exponent. -/
theorem mem_write {c : Char} (member : c ∈ Decimal.write negative whole fraction none) :
    c = '-' ∨ c.isDigit = true ∨ c = '.' := by
  cases fraction with
  | none =>
      simp only [Decimal.write, Option.elim_none, List.append_nil, List.mem_append,
        Decimal.signText] at member
      rcases member with sign | digit
      · split at sign
        · exact Or.inl (List.mem_singleton.mp sign)
        · cases sign
      · exact Or.inr (Or.inl (wholeDigits c digit))
  | some f =>
      simp only [Decimal.write, Option.elim_none, Option.elim_some, List.append_nil,
        List.mem_append, List.mem_cons, Decimal.signText] at member
      rcases member with (sign | digit) | point | digit
      · split at sign
        · exact Or.inl (List.mem_singleton.mp sign)
        · cases sign
      · exact Or.inr (Or.inl (wholeDigits c digit))
      · exact Or.inr (Or.inr point)
      · exact Or.inr (Or.inl (fractionDigits c digit))

theorem plain_of_mem_write {c : Char} (member : c ∈ Decimal.write negative whole fraction none) :
    isWhitespace c = false ∧ Decimal.isExponentMark c = false := by
  rcases mem_write wholeDigits fractionDigits member with rfl | digit | rfl
  · decide
  · refine ⟨?_, Decimal.not_isExponentMark_of_isDigit digit⟩
    have range := Decimal.digit_range digit
    simp only [isWhitespace, Bool.or_eq_false_iff, Bool.and_eq_false_iff, decide_eq_false_iff_not]
    omega
  · decide

omit fractionDigits in
/-- A numeral that starts with a zero and a point has that zero as its digits before the point. -/
theorem not_lone_zero (point : fraction ≠ none → whole ≠ ['0']) :
    ¬ ['0', '.'] <+: Decimal.write negative whole fraction none ∧
      ¬ ['-', '0', '.'] <+: Decimal.write negative whole fraction none := by
  have other : ∀ rest, whole ++ fraction.elim [] ('.' :: ·) ≠ '0' :: '.' :: rest := by
    intro rest starts
    by_cases nonempty : whole = []
    · subst nonempty
      cases fraction <;> simp at starts
    · obtain ⟨zero, pointed⟩ := whole_eq_zero wholeDigits nonempty starts
      exact point (by rw [pointed]; exact Option.some_ne_none rest) zero
  have unsigned : ∀ rest, whole ++ fraction.elim [] ('.' :: ·) ≠ '-' :: rest := by
    intro rest starts
    cases whole with
    | nil => cases fraction <;> simp at starts
    | cons c more =>
        rw [List.cons_append, List.cons.injEq] at starts
        exact absurd (wholeDigits c List.mem_cons_self) (by rw [starts.1]; decide)
  constructor
  · rintro ⟨rest, starts⟩
    cases negative with
    | false => exact other rest (by simpa [Decimal.write, Decimal.signText] using starts.symm)
    | true => simp [Decimal.write, Decimal.signText] at starts
  · rintro ⟨rest, starts⟩
    cases negative with
    | false =>
        exact unsigned ('0' :: '.' :: rest) (by
          simpa [Decimal.write, Decimal.signText] using starts.symm)
    | true => exact other rest (by simpa [Decimal.write, Decimal.signText] using starts.symm)

end Write

/-- Numbers survive conversion to text: reading the default text of a number gives the number, and
the text depends on the number only. -/
theorem number_text_round_trip (n : BigDecimal) (scale : BigDecimal.InBits 64 n.scale) :
    (∃ m, (Value.varchar (formatNumber n)).toNumber = .ok (some m) ∧ m.toRat = n.toRat) ∧
      DefaultNumeral (formatNumber n).toList ∧
      ∀ n' : BigDecimal, n'.toRat = n.toRat → formatNumber n' = formatNumber n := by
  obtain ⟨negative, whole, fraction, form, wholeDigits, fractionDigits, some_, point, places⟩ :=
    formatNumber_form n
  have plain := fun c (member : c ∈ (formatNumber n).toList) =>
    plain_of_mem_write wholeDigits fractionDigits (form ▸ member)
  refine ⟨?_, ?_, fun n' same => ?_⟩
  · -- The text has no white space and its decimal places are at most those of the number.
    have trimmed : trim (formatNumber n) = formatNumber n :=
      trim_eq_self (fun c first => (plain c (List.mem_of_mem_head? first)).1)
        fun c last => (plain c (List.mem_of_mem_getLast? last)).1
    obtain ⟨m, reads, value⟩ : ∃ m, BigDecimal.fromStr (formatNumber n) = some m ∧ m.toRat = n.toRat := by
      have denoted := denote_formatNumber n
      rw [Decimal.denote, form,
        Decimal.read_write negative wholeDigits fractionDigits some_ Decimal.Marks.none_,
        Option.map_some] at denoted
      refine ⟨_, BigDecimal.fromStr_write form wholeDigits fractionDigits some_ Decimal.Marks.none_
        (by decide) (by simp only [BigDecimal.InBits] at scale ⊢; omega), ?_⟩
      rw [← Option.some.inj denoted]
      cases negative <;> simp [BigDecimal.toRat, Decimal.Parts.value]
    have nonempty : formatNumber n ≠ "" := by
      intro empty
      rw [empty] at form
      have length := congrArg List.length form
      cases fraction with
      | none => simp_all [Decimal.write]
      | some f => simp [Decimal.write] at length
    refine ⟨m, ?_, value⟩
    simp [Value.varchar, Value.toNumber, nonempty, trimmed, reads]
  · refine ⟨fun c member => (plain c member).2, fun pointed => ?_, ?_⟩
    · cases fraction with
      | none =>
          rw [form] at pointed
          simp only [Decimal.write, Decimal.signText, Option.elim_none, List.append_nil,
            List.mem_append] at pointed
          rcases pointed with sign | digit
          · split at sign <;> simp at sign
          · exact absurd (wholeDigits _ digit) (by decide)
      | some f =>
          obtain ⟨-, digits, last⟩ := point (Option.some_ne_none f)
          rw [Option.getD_some] at digits last fractionDigits
          have ends : (formatNumber n).toList.getLast? = f.getLast? := by
            rw [form]
            simp only [Decimal.write, Option.elim_none, Option.elim_some, List.append_nil]
            obtain ⟨x, isLast⟩ := Option.ne_none_iff_exists'.mp digits
            rw [List.getLast?_append_of_ne_nil _ (List.cons_ne_nil _ _), List.getLast?_cons, isLast]
            rfl
          rw [ends]
          refine ⟨fun dot => ?_, last⟩
          exact absurd (fractionDigits _ (List.mem_of_mem_getLast? dot)) (by decide)
    · rw [form]
      exact not_lone_zero wholeDigits fun pointed => (point pointed).1
  · simp only [formatNumber, BigDecimal.normalized_eq_iff.mpr same]

theorem number_text_round_trip_quarter :
    (∃ m, (Value.varchar (formatNumber ⟨-250, 3⟩)).toNumber = .ok (some m) ∧
        m.toRat = (BigDecimal.mk (-250) 3).toRat) ∧
      DefaultNumeral (formatNumber ⟨-250, 3⟩).toList ∧
      ∀ n' : BigDecimal, n'.toRat = (BigDecimal.mk (-250) 3).toRat →
        formatNumber n' = formatNumber ⟨-250, 3⟩ :=
  number_text_round_trip ⟨-250, 3⟩ (by decide)

end MockOracle
