import MockOracle.Eval.DatetimeReading

/-!
# When TO_DATE panics

`parse` slices its input where an element that is matched as text begins: a name of a month or day,
an AM/PM mark, or a literal with letters or digits. The text is matched in capitals, and the offset
then moves by the length of what was matched, which need not be that of the characters it was matched
with. If it stops inside a character or after the end, and the next element that moves on is matched
as text again, that slice is the panic. There is no other.
-/

namespace MockOracle.Datetime

open Semantics Semantics.Text

variable (unicode : Unicode)

/-- The element is matched as text. -/
def Elem.isText : Elem → Bool
  | .mon | .month | .dy | .day | .am => true
  | .literal text => !text.all fun c => !unicode.isAlphanumeric c
  | _ => false

/-- The element is a number. -/
def Elem.isNumber : Elem → Bool
  | .yyyy | .yy | .rr | .mm | .dd | .ddd | .d | .hh24 | .hh12 | .mi | .ss | .ff _ => true
  | _ => false

/-- The length of what a text element is matched with at the start of a text. -/
def word (rest : List Char) : Elem → Option Nat
  | .mon | .month => (findName months (unicode.toUppercase rest)).map Prod.snd
  | .dy | .day => (findName days (unicode.toUppercase rest)).map Prod.snd
  | .am => (findMeridian (unicode.toUppercase rest)).map Prod.snd
  | .literal text =>
      if (unicode.toUppercase text).isPrefixOf (unicode.toUppercase rest) then some (size text)
      else none
  | _ => none

/-- The next element that moves on is matched as text. FM and X do not, and after the end of the
input punctuation does not either. -/
def meetsText (pastEnd : Bool) : List (Elem × Case) → Bool
  | [] => false
  | (.fm, _) :: more | (.x, _) :: more => meetsText pastEnd more
  | (.literal text, _) :: more =>
      (Elem.literal text).isText unicode || (pastEnd && meetsText pastEnd more)
  | (e, _) :: _ => e.isText unicode

/-- What the element is matched with here takes whole characters, or else text is not matched before
the offset is between characters again. -/
def TakesWhole (input : List Char) (r : Reading) (e : Elem) (more : List (Elem × Case)) : Prop :=
  ∀ rest n, dropBytes input r.offset = some rest → e.isText unicode = true →
    word unicode rest e = some n →
    (dropBytes rest n).isSome = true ∨ meetsText unicode (size rest < n) more = false

variable {input : List Char}

/-! ## Numbers -/

/-- A number ends where a character starts, and is below the power of ten of its length. -/
theorem number_cases (input : List Char) (offset : Nat) {max : Nat} (few : max ≤ 9) :
    number input offset max = .error (.error notNumeric) ∨ ∃ n length,
      number input offset max = .ok (n, length) ∧ length ≤ max ∧ n < 10 ^ length ∧
        (dropBytes input offset).isSome = true ∧ (dropBytes input (offset + length)).isSome = true := by
  cases found : dropBytes input offset with
  | none => exact Or.inl (number_elsewhere found max)
  | some rest =>
      obtain ⟨digits, isDigits⟩ : ∃ digits, (rest.takeWhile Char.isDigit).take max = digits := ⟨_, rfl⟩
      rw [number_at found few, isDigits]
      cases digits with
      | nil => exact Or.inl rfl
      | cons first more =>
          have allDigits : Decimal.AllDigits (first :: more) := by
            intro c member
            rw [← isDigits] at member
            exact List.mem_takeWhile_imp (List.mem_of_mem_take member)
          have front : first :: more <+: rest :=
            isDigits ▸ (List.take_prefix _ _).trans (List.takeWhile_prefix _)
          obtain ⟨left, rfl⟩ := front
          have length : (first :: more).length ≤ max := by
            rw [← isDigits, List.length_take]
            exact min_le_left _ _
          refine Or.inr ⟨_, _, rfl, length, Decimal.ofDigitChars_lt allDigits, rfl, ?_⟩
          rw [← size_ascii (ascii_digits allDigits), dropBytes_past found]
          rfl

/-- What becomes of a reading where a number is expected: an error, or the number is recorded and
the rest starts where a character does. -/
def Numbered (input : List Char) (r : Reading) (outcome : Outcome Reading) : Prop :=
  outcome = .error (.error notNumeric) ∨ ∃ r', outcome = .ok r' ∧ r'.nanos < 1000000000 ∧
    (dropBytes input r.offset).isSome = true ∧ (dropBytes input r'.offset).isSome = true

/-- Reading a number of few digits and recording it takes the digits off the input. -/
theorem numbered_bind {r : Reading} (max : Nat) (few : max ≤ 9) {record : Nat × Nat → Outcome Reading}
    (total : ∀ n length, length ≤ max → n < 10 ^ length → ∃ r', record (n, length) = .ok r' ∧
      r'.offset = r.offset + length ∧ r'.nanos < 1000000000) :
    Numbered input r (number input r.offset max >>= record) := by
  obtain none | ⟨n, length, found, short, small, before, after⟩ := number_cases input r.offset few
  · rw [none]
    exact Or.inl rfl
  · obtain ⟨r', recorded, moved, nanos⟩ := total n length short small
    rw [found]
    exact Or.inr ⟨r', recorded, nanos, before, moved ▸ after⟩

/-- An element that reads a number of few digits takes them off the input. -/
theorem numbered_readNumber {r : Reading} (small : r.nanos < 1000000000) {max : Nat} (few : max ≤ 9)
    (record : Nat → Reading → Reading) (keeps : ∀ n, (record n r).nanos = r.nanos) :
    Numbered input r (readNumber input r max record) :=
  numbered_bind max few fun n _ _ _ => ⟨_, rfl, rfl, (keeps n).trans_lt small⟩

/-- A number of at most four digits fits i32. -/
theorem asI32_lt {n : Nat} (small : n < 10000) : asI32 n = n := by
  unfold asI32
  rw [Int.bmod_eq_of_le] <;> omega

/-- A value below 20000 fits i32. -/
theorem i32_lt {n : Int} (low : 0 ≤ n) (high : n < 20000) : i32 n = .ok n :=
  if_pos ⟨by omega, by omega⟩

/-- The arithmetic of the readers does not overflow. -/
theorem readElem_number {e : Elem} (isNumber : e.isNumber = true) {r : Reading}
    (small : r.nanos < 1000000000) : Numbered input r (readElem unicode input r e) := by
  cases e with
  | yyyy | mm | dd | ddd | d | hh24 | hh12 | mi | ss =>
      rw [readElem]
      exact numbered_readNumber small (by decide) _ fun _ => rfl
  | yy =>
      refine numbered_bind 2 (by decide) fun n length short below => ?_
      have below' : n < 100 := below.trans_le (Nat.pow_le_pow_right (by decide) short)
      refine ⟨{ r with offset := r.offset + length, year := some (2000 + n) }, ?_, rfl, small⟩
      simp only [asI32_lt (show n < 10000 by omega), i32_lt (show (0 : Int) ≤ 2000 + n by omega)
        (by omega)]
      rfl
  | rr =>
      refine numbered_bind 4 (by decide) fun n length short below => ?_
      have below' : n < 10000 := below.trans_le (Nat.pow_le_pow_right (by decide) short)
      obtain ⟨year, isYear⟩ : ∃ year, rrYear n length = .ok year := by
        unfold rrYear
        rw [asI32_lt below']
        split
        · exact ⟨_, rfl⟩
        · split
          · exact ⟨_, i32_lt (by omega) (by omega)⟩
          · exact ⟨_, i32_lt (by omega) (by omega)⟩
      refine ⟨{ r with offset := r.offset + length, year := some year }, ?_, rfl, small⟩
      simp only [isYear]
      rfl
  | ff precision =>
      refine numbered_bind 9 (by decide) fun n length short below => ?_
      have whole : n * 10 ^ (9 - length) < 1000000000 := by
        have scaled := Nat.mul_lt_mul_of_pos_right below (show 0 < 10 ^ (9 - length) by positivity)
        rwa [← pow_add, Nat.add_sub_cancel' short] at scaled
      have power : 10 ^ (9 - length) < 2 ^ 32 := by
        have := Nat.pow_le_pow_right (show 0 < 10 by decide) (show 9 - length ≤ 9 by omega)
        omega
      refine ⟨{ r with offset := r.offset + length, nanos := n * 10 ^ (9 - length) }, ?_, rfl, whole⟩
      have nanos : fractionNanos n length = .ok (n * 10 ^ (9 - length)) := by
        rw [fractionNanos, if_pos short, u32, if_pos power]
        exact if_pos (show n * 10 ^ (9 - length) < 2 ^ 32 by omega)
      simp only [nanos]
      rfl
  | _ => cases isNumber

/-! ## Text -/

/-- A computation that has succeeded goes on with its result. -/
theorem ok_bind {α β : Type} (a : α) (f : α → Outcome β) : (Except.ok a >>= f) = f a := rfl

/-- A name that is found is one of the list. -/
theorem findName_index {names : List (List Char)} {rest : List Char} {index length : Nat}
    (found : findName names rest = some (index, length)) : index < names.length := by
  obtain ⟨i, isIndex, same⟩ := Option.map_eq_some_iff.mp found
  obtain rfl := (Prod.mk.inj same).1
  exact (List.findIdx?_eq_some_iff_findIdx_eq.mp isIndex).1

/-- Text is matched where a character starts, and the offset moves by the length of the word; where
no word is found the reader stops with an error. -/
theorem readElem_text {e : Elem} (isText : e.isText unicode = true) {r : Reading} {rest : List Char}
    (found : dropBytes input r.offset = some rest) :
    match word unicode rest e with
    | some n => ∃ r', readElem unicode input r e = .ok r' ∧ r'.offset = r.offset + n ∧
        r'.nanos = r.nanos
    | none => ∃ err, readElem unicode input r e = .error (.error err) := by
  have upper := upperRest_at unicode found
  cases e with
  | mon | month =>
      rw [readElem, upper, ok_bind, word]
      cases name : findName months (unicode.toUppercase rest) with
      | none => exact ⟨_, rfl⟩
      | some entry =>
          obtain ⟨index, length⟩ := entry
          have small : u32 (index + 1) = .ok (index + 1) := by
            have index : index < 12 := findName_index name
            rw [u32, if_pos (by omega)]
          refine ⟨{ r with offset := r.offset + length, month := index + 1 }, ?_, rfl, rfl⟩
          show (do return { r with offset := r.offset + length, month := ← u32 (index + 1) }
            : Outcome Reading) = _
          rw [small]
          rfl
  | dy | day =>
      rw [readElem, upper, ok_bind, word]
      cases name : findName days (unicode.toUppercase rest) with
      | none => exact ⟨_, rfl⟩
      | some entry => exact ⟨_, rfl, rfl, rfl⟩
  | am =>
      rw [readElem, upper, ok_bind, word]
      cases mark : findMeridian (unicode.toUppercase rest) with
      | none => exact ⟨_, rfl⟩
      | some entry => exact ⟨_, rfl, rfl, rfl⟩
  | literal text =>
      have letters : ¬ (text.all fun c => !unicode.isAlphanumeric c) = true := by
        simpa [Elem.isText] using isText
      rw [readElem, if_neg letters, upper, ok_bind, word]
      by_cases matched : (unicode.toUppercase text).isPrefixOf (unicode.toUppercase rest) = true
      · rw [if_pos matched, if_pos matched]
        exact ⟨_, rfl, rfl, rfl⟩
      · rw [if_neg matched, if_neg matched]
        exact ⟨_, rfl⟩
  | _ => cases isText

/-- Elsewhere, matching text panics. -/
theorem readElem_text_elsewhere {e : Elem} (isText : e.isText unicode = true) {r : Reading}
    (missed : dropBytes input r.offset = none) :
    readElem unicode input r e = .error .panic := by
  have upper : upperRest unicode input r.offset = .error .panic := by
    rw [upperRest, missed]
    rfl
  cases e with
  | mon | month | dy | day | am =>
      rw [readElem, upper]
      rfl
  | literal text =>
      have letters : ¬ (text.all fun c => !unicode.isAlphanumeric c) = true := by
        simpa [Elem.isText] using isText
      rw [readElem, if_neg letters, upper]
      rfl
  | _ => cases isText

/-! ## Punctuation -/

/-- Where a letter or digit of ASCII stands, or the text ends, a character starts or the text ends. -/
theorem lands_of_dropWhile {offset : Nat} (inside : offset ≤ size input)
    (stops : ∀ b ∈ ((bytes input).drop offset).head?, b.toNat < 128) :
    (dropBytes input offset).isSome = true := by
  cases left : (bytes input).drop offset with
  | nil =>
      have atEnd : offset = size input := by
        have := List.drop_eq_nil_iff.mp left
        exact Nat.le_antisymm inside this
      have := dropBytes_size input []
      rw [List.append_nil] at this
      rw [atEnd, this]
      rfl
  | cons b after =>
      obtain ⟨before, c, rest, rfl, length, -⟩ := start_of_ascii left (stops b (by rw [left]; rfl))
      rw [← length, dropBytes_size]
      rfl

/-- After punctuation a character starts. -/
theorem skip_lands {offset : Nat} (inside : offset ≤ size input) :
    (dropBytes input (offset
      + (((bytes input).drop offset).takeWhile fun b => !isAsciiAlphanumeric b).length)).isSome
      = true := by
  obtain ⟨left, isLeft⟩ : ∃ left, (bytes input).drop offset = left := ⟨_, rfl⟩
  have after : (bytes input).drop (offset
      + (left.takeWhile fun b => !isAsciiAlphanumeric b).length)
        = left.dropWhile fun b => !isAsciiAlphanumeric b := by
    have parts : left.takeWhile (fun b => !isAsciiAlphanumeric b)
        ++ left.dropWhile (fun b => !isAsciiAlphanumeric b) = left :=
      List.takeWhile_append_dropWhile
    have dropped := congrArg (List.drop (left.takeWhile fun b => !isAsciiAlphanumeric b).length) parts
    rw [List.drop_left] at dropped
    rw [← List.drop_drop, isLeft, dropped]
  rw [isLeft]
  refine lands_of_dropWhile ?_ ?_
  · have total := congrArg List.length isLeft
    have shorter := (List.takeWhile_prefix (fun b => !isAsciiAlphanumeric b) (l := left)).length_le
    rw [List.length_drop] at total
    unfold size at inside ⊢
    omega
  · intro b isHead
    have stops := List.head?_dropWhile_not (fun b => !isAsciiAlphanumeric b) left
    rw [after, Option.mem_def] at isHead
    rw [isHead] at stops
    simp only [isAsciiAlphanumeric, isAsciiDigit, Bool.not_eq_false', Bool.or_eq_true,
      Bool.and_eq_true, decide_eq_true_eq] at stops
    omega

/-- Punctuation comes to where a character starts, unless the offset is after the end. -/
theorem readElem_mark {text : List Char} (isMark : (Elem.literal text).isText unicode = false)
    (r : Reading) : ∃ offset, readElem unicode input r (.literal text) = .ok { r with offset := offset } ∧
      (r.offset ≤ size input → (dropBytes input offset).isSome = true) ∧
      (size input < r.offset → offset = r.offset) := by
  have lenient : (text.all fun c => !unicode.isAlphanumeric c) = true := by
    simpa [Elem.isText] using isMark
  rw [readElem, if_pos lenient]
  refine ⟨_, rfl, skip_lands, fun pastEnd => ?_⟩
  rw [List.drop_eq_nil_of_le (Nat.le_of_lt pastEnd)]
  rfl

/-- FM reads nothing and X at most a point. -/
theorem readElem_x (r : Reading) : ∃ offset, readElem unicode input r .x = .ok { r with offset := offset } ∧
    ((dropBytes input r.offset).isSome = true → (dropBytes input offset).isSome = true) ∧
    ((dropBytes input r.offset).isSome = false → offset = r.offset) := by
  rw [readElem]
  split
  · next point =>
      have left : (bytes input).drop r.offset = 46 :: (bytes input).drop (r.offset + 1) := by
        obtain ⟨inside, isPoint⟩ := List.getElem?_eq_some_iff.mp point
        rw [List.drop_eq_getElem_cons inside, isPoint]
      obtain ⟨before, c, rest, rfl, length, ascii, -⟩ := start_of_ascii left (by decide)
      have here := dropBytes_size before (c :: rest)
      rw [length] at here
      have one : c.utf8Size = 1 := by
        rw [← String.length_utf8EncodeChar, utf8EncodeChar_ascii ascii]
        rfl
      have next : dropBytes (before ++ c :: rest) (r.offset + 1) = some rest := by
        have past : dropBytes (before ++ c :: rest) (r.offset + size [c]) = some rest :=
          dropBytes_past here
        rwa [size_cons, one] at past
      refine ⟨r.offset + 1, rfl, fun _ => by rw [next]; rfl, fun none => ?_⟩
      rw [here] at none
      cases none
  · exact ⟨r.offset, rfl, id, fun _ => rfl⟩

/-! ## Runs -/

variable {unicode}

/-- From this reading on, every step takes whole characters where it has to. -/
def AllWhole (unicode : Unicode) (input : List Char) : Reading → List (Elem × Case) → Prop
  | _, [] => True
  | r, e :: more => TakesWhole unicode input r e.1 more ∧
      ∀ r', readElem unicode input r e.1 = .ok r' → AllWhole unicode input r' more

/-- The first element reads, then the rest of them. -/
theorem readElems_next (unicode : Unicode) (input : List Char) (r : Reading) (e : Elem × Case)
    (more : List (Elem × Case)) : readElems unicode input r (e :: more)
      = readElem unicode input r e.1 >>= fun r' => readElems unicode input r' more := rfl

/-- An element that reads no name cannot stop inside a character. -/
theorem takesWhole_of_not_isText {e : Elem} (notText : e.isText unicode = false) (r : Reading)
    (more : List (Elem × Case)) : TakesWhole unicode input r e more := by
  intro rest n _ isText
  rw [notText] at isText
  cases isText

/-- An element that reads a name meets the text at once. -/
theorem meetsText_of_isText {e : Elem} (isText : e.isText unicode = true) (pastEnd : Bool)
    (case : Case) (more : List (Elem × Case)) : meetsText unicode pastEnd ((e, case) :: more) = true := by
  cases e with
  | literal text => rw [meetsText, isText, Bool.true_or]
  | mon | month | dy | day | am => rfl
  | _ => cases isText

/-- An element that reads a number does not meet the text. -/
theorem meetsText_of_isNumber {e : Elem} (isNumber : e.isNumber = true) (pastEnd : Bool)
    (case : Case) (more : List (Elem × Case)) :
    meetsText unicode pastEnd ((e, case) :: more) = false := by
  cases e with
  | mon | month | dy | day | am | literal | fm | x => cases isNumber
  | _ => rfl

/-- Whether the offset after a word is between characters is decided by the text from the word on. -/
theorem takesWhole_iff {e : Elem} {r r' : Reading} {rest : List Char} {n : Nat}
    (isText : e.isText unicode = true) (found : dropBytes input r.offset = some rest)
    (matched : word unicode rest e = some n) (moved : r'.offset = r.offset + n)
    (more : List (Elem × Case)) : TakesWhole unicode input r e more ↔
      ((dropBytes input r'.offset).isSome = false →
        meetsText unicode (size input < r'.offset) more = false) := by
  have same : dropBytes input r'.offset = dropBytes rest n := by
    obtain ⟨before, rfl, length⟩ := dropBytes_eq_some found
    rw [moved, ← length, dropBytes_size_add]
  have past : decide (size input < r'.offset) = decide (size rest < n) := by
    obtain ⟨before, rfl, length⟩ := dropBytes_eq_some found
    rw [decide_eq_decide, size_append, moved, length]
    omega
  rw [same, past]
  constructor
  · intro whole inside
    have stops := whole rest n found isText matched
    rw [inside] at stops
    exact stops.resolve_left Bool.false_ne_true
  · intro stops rest' n' found' _ matched'
    obtain rfl := Option.some.inj (found.symm.trans found')
    obtain rfl := Option.some.inj (matched.symm.trans matched')
    cases whole : (dropBytes rest n).isSome with
    | true => exact Or.inl rfl
    | false => exact Or.inr (stops whole)

/-- Reading panics exactly where a step does not take whole characters, or where text is matched
although the offset is not between characters. -/
theorem readElems_returns (elems : List (Elem × Case)) {r : Reading} (small : r.nanos < 1000000000) :
    readElems unicode input r elems ≠ .error .panic ↔
      AllWhole unicode input r elems ∧ ((dropBytes input r.offset).isSome = false →
        meetsText unicode (size input < r.offset) elems = false) := by
  induction elems generalizing r with
  | nil => exact ⟨fun _ => ⟨trivial, fun _ => rfl⟩, fun _ panics => nomatch panics⟩
  | cons entry more ih =>
      obtain ⟨e, case⟩ := entry
      rw [readElems_next, AllWhole]
      cases isText : e.isText unicode with
      | true =>
          cases found : dropBytes input r.offset with
          | none =>
              rw [readElem_text_elsewhere unicode isText found, meetsText_of_isText isText]
              exact ⟨fun returns => absurd rfl returns, fun meets => nomatch meets.2 rfl⟩
          | some rest =>
              have step := readElem_text unicode isText found
              cases matched : word unicode rest e with
              | none =>
                  rw [matched] at step
                  obtain ⟨err, stopped⟩ := step
                  rw [stopped]
                  refine ⟨fun _ => ⟨⟨?_, fun r' read => nomatch read⟩, fun none => nomatch none⟩,
                    fun _ panics => nomatch panics⟩
                  intro rest' n found' _ matched'
                  rw [found] at found'
                  cases found'
                  rw [matched] at matched'
                  cases matched'
              | some n =>
                  rw [matched] at step
                  obtain ⟨r', read, moved, nanos⟩ := step
                  rw [read, ok_bind, ih (nanos.trans_lt small),
                    takesWhole_iff isText found matched moved]
                  constructor
                  · rintro ⟨whole, next⟩
                    refine ⟨⟨next, fun r'' same => ?_⟩, fun none => nomatch none⟩
                    obtain rfl := Except.ok.inj same
                    exact whole
                  · rintro ⟨⟨next, whole⟩, -⟩
                    exact ⟨whole r' rfl, next⟩
      | false =>
          have whole : TakesWhole unicode input r e more := takesWhole_of_not_isText isText r more
          -- A step that goes on decides nothing by itself.
          have goesOn {r' : Reading} (read : readElem unicode input r e = .ok r')
              (nanos : r'.nanos < 1000000000)
              (same : ((dropBytes input r.offset).isSome = false →
                  meetsText unicode (size input < r.offset) ((e, case) :: more) = false) ↔
                ((dropBytes input r'.offset).isSome = false →
                  meetsText unicode (size input < r'.offset) more = false)) :
              readElem unicode input r e >>= (fun r' => readElems unicode input r' more)
                  ≠ .error .panic ↔
                (TakesWhole unicode input r e more ∧
                  ∀ r', readElem unicode input r e = .ok r' → AllWhole unicode input r' more) ∧
                ((dropBytes input r.offset).isSome = false →
                  meetsText unicode (size input < r.offset) ((e, case) :: more) = false) := by
            rw [read, ok_bind, ih nanos, same]
            constructor
            · rintro ⟨all, next⟩
              refine ⟨⟨whole, fun r'' same => ?_⟩, next⟩
              obtain rfl := Except.ok.inj same
              exact all
            · rintro ⟨⟨-, all⟩, next⟩
              exact ⟨all r' rfl, next⟩
          cases isNumber : e.isNumber with
          | true =>
              obtain stopped | ⟨r', read, nanos, before, after⟩ :=
                readElem_number unicode isNumber small
              · rw [stopped, meetsText_of_isNumber isNumber]
                exact ⟨fun _ => ⟨⟨whole, fun r' read => nomatch read⟩, fun _ => rfl⟩,
                  fun _ panics => nomatch panics⟩
              · refine goesOn read nanos ?_
                rw [before, after]
                exact ⟨fun _ none => (nomatch none), fun _ none => (nomatch none)⟩
          | false =>
              cases e with
              | fm => exact goesOn rfl small Iff.rfl
              | x =>
                  obtain ⟨offset, read, after, stays⟩ := readElem_x unicode r
                  refine goesOn read small ?_
                  cases here : (dropBytes input r.offset).isSome with
                  | true =>
                      rw [after here]
                      exact ⟨fun _ none => (nomatch none), fun _ none => (nomatch none)⟩
                  | false =>
                      obtain rfl := stays here
                      rw [here]
                      exact Iff.rfl
              | literal text =>
                  obtain ⟨offset, read, lands, stays⟩ := readElem_mark unicode isText r
                  refine goesOn read small ?_
                  by_cases inside : r.offset ≤ size input
                  · have notPast : decide (size input < r.offset) = false :=
                      decide_eq_false (Nat.not_lt.mpr inside)
                    rw [lands inside, meetsText, isText, notPast]
                    exact ⟨fun _ none => (nomatch none), fun _ _ => rfl⟩
                  · have past := Nat.lt_of_not_le inside
                    obtain rfl := stays past
                    rw [meetsText, isText, decide_eq_true past, Bool.false_or, Bool.true_and]
              | mon | month | dy | day | am => cases isText
              | _ => cases isNumber

/-- The nanoseconds that an element reads are below a second. -/
theorem nanos_readElem {e : Elem} {r r' : Reading} (read : readElem unicode input r e = .ok r')
    (small : r.nanos < 1000000000) : r'.nanos < 1000000000 := by
  cases isText : e.isText unicode with
  | true =>
      cases found : dropBytes input r.offset with
      | none =>
          rw [readElem_text_elsewhere unicode isText found] at read
          cases read
      | some rest =>
          have step := readElem_text unicode isText found
          cases matched : word unicode rest e with
          | none =>
              rw [matched] at step
              obtain ⟨err, stopped⟩ := step
              rw [stopped] at read
              cases read
          | some n =>
              rw [matched] at step
              obtain ⟨r'', read', -, nanos⟩ := step
              rw [read] at read'
              cases read'
              exact nanos.trans_lt small
  | false =>
      cases isNumber : e.isNumber with
      | true =>
          obtain stopped | ⟨r'', read', nanos, -⟩ :=
            readElem_number unicode isNumber small
          · rw [stopped] at read
            cases read
          · rw [read] at read'
            cases read'
            exact nanos
      | false =>
          cases e with
          | fm =>
              cases read
              exact small
          | x =>
              obtain ⟨offset, read', -⟩ := readElem_x unicode r
              rw [read] at read'
              cases read'
              exact small
          | literal text =>
              obtain ⟨offset, read', -⟩ := readElem_mark unicode isText r
              rw [read] at read'
              cases read'
              exact small
          | mon | month | dy | day | am => cases isText
          | _ => cases isNumber

/-- What was read keeps the nanoseconds below a second. -/
theorem nanos_readElems (elems : List (Elem × Case)) {r r' : Reading}
    (read : readElems unicode input r elems = .ok r') (small : r.nanos < 1000000000) :
    r'.nanos < 1000000000 := by
  induction elems generalizing r with
  | nil =>
      cases read
      exact small
  | cons entry more ih =>
      rw [readElems_next] at read
      cases step : readElem unicode input r entry.1 with
      | error failure =>
          rw [step] at read
          cases read
      | ok next =>
          rw [step, ok_bind] at read
          exact ih read (nanos_readElem step small)

/-- Nothing in the last part of `parse` panics. -/
theorem finish_returns (input : List Char) (currentYear : Int) {r : Reading}
    (small : r.nanos < 1000000000) : finish input currentYear r ≠ .error .panic := by
  have hours : hourOfDay r ≠ .error .panic := by
    unfold hourOfDay
    split
    · split
      · split
        · rw [u32, if_pos (by omega)]
          intro panics
          cases panics
        · intro panics
          cases panics
      · intro panics
        cases panics
    · intro panics
      cases panics
  unfold finish
  split
  · intro panics
    cases panics
  · cases hour : hourOfDay r with
    | error failure =>
        intro panics
        cases panics
        exact hours hour
    | ok hour =>
        rw [ok_bind]
        split_ifs with late lateMinute lateSecond noMonth
        · intro panics
          cases panics
        · intro panics
          cases panics
        · intro panics
          cases panics
        · split
          · intro panics
            cases panics
          · rw [andHmsNanoOpt, if_pos ⟨by omega, by omega, by omega, Or.inl small⟩]
            intro panics
            cases panics
        · intro panics
          cases panics

/-- Each step of a run takes whole characters where it has to. -/
theorem allWhole_iff (elems : List (Elem × Case)) (r : Reading) :
    AllWhole unicode input r elems ↔ ∀ before e case more r', elems = before ++ (e, case) :: more →
      readElems unicode input r before = .ok r' → TakesWhole unicode input r' e more := by
  induction elems generalizing r with
  | nil =>
      refine ⟨fun _ before e case more r' split => ?_, fun _ => trivial⟩
      exact absurd split.symm (List.append_ne_nil_of_right_ne_nil _ (List.cons_ne_nil _ _))
  | cons entry more ih =>
      constructor
      · rintro ⟨here, later⟩ before e case rest r' split read
        cases before with
        | nil =>
            obtain ⟨rfl, rfl⟩ := List.cons.inj split
            cases read
            exact here
        | cons first before =>
            obtain ⟨rfl, rfl⟩ := List.cons.inj split
            rw [readElems_next] at read
            cases step : readElem unicode input r entry.1 with
            | error failure =>
                rw [step] at read
                cases read
            | ok next =>
                rw [step, ok_bind] at read
                exact (ih next).mp (later next step) before e case rest r' rfl read
      · intro all
        refine ⟨all [] entry.1 entry.2 more r rfl rfl, fun next step => (ih next).mpr ?_⟩
        intro before e case rest r' split read
        refine all (entry :: before) e case rest r' (congrArg (entry :: ·) split) ?_
        rw [readElems_next, step, ok_bind, read]

/-- Only reading the elements can panic. -/
theorem finish_bind_returns (input : List Char) (currentYear : Int) (elems : List (Elem × Case)) :
    readElems unicode input {} elems >>= finish input currentYear ≠ .error .panic ↔
      readElems unicode input {} elems ≠ .error .panic := by
  cases read : readElems unicode input {} elems with
  | error failure =>
      have same {α : Type} : (Except.error failure : Outcome α) ≠ .error .panic ↔
          failure ≠ .panic :=
        ⟨fun returns equal => returns (congrArg Except.error equal),
          fun other equal => other (Except.error.inj equal)⟩
      exact same.trans same.symm
  | ok r =>
      refine ⟨fun _ panics => (nomatch panics), fun _ => ?_⟩
      exact finish_returns input currentYear (nanos_readElems elems read (by decide))

/-- `parse` panics exactly where a step does not take whole characters. -/
theorem parse_returns (unicode : Unicode) (currentYear : Int) (s fmt : String) :
    parse unicode currentYear s fmt ≠ .error .panic ↔
      ∀ elems, tokenize unicode fmt.toList = .ok elems →
        AllWhole unicode (trim s).toList {} elems := by
  unfold parse
  generalize (trim s).toList = input
  cases tokenized : tokenize unicode fmt.toList with
  | error err => exact ⟨fun _ elems none => (nomatch none), fun _ panics => nomatch panics⟩
  | ok elems =>
      have start : readElems unicode input {} elems ≠ .error .panic ↔ _ :=
        readElems_returns elems (by decide)
      rw [dropBytes_zero] at start
      show readElems unicode input {} elems >>= finish input currentYear ≠ .error .panic ↔ _
      rw [finish_bind_returns, start]
      constructor
      · rintro ⟨whole, -⟩ elems' same
        obtain rfl := Except.ok.inj same
        exact whole
      · exact fun whole => ⟨whole elems rfl, fun none => nomatch none⟩

/-- TO_DATE panics exactly where it moves on, from text that it matched in capitals, to the inside of
a character or past the end of its input, and matches text there again. -/
theorem to_date_panics_iff (unicode : Unicode) (currentYear : Int) (s fmt : String) :
    parse unicode currentYear s fmt ≠ .error .panic ↔
      ∀ elems before e case more r, tokenize unicode fmt.toList = .ok elems →
        elems = before ++ (e, case) :: more →
        readElems unicode (trim s).toList {} before = .ok r →
        TakesWhole unicode (trim s).toList r e more := by
  rw [parse_returns]
  constructor
  · intro whole elems before e case more r tokenized split read
    exact (allWhole_iff elems {}).mp (whole elems tokenized) before e case more r split read
  · intro whole elems tokenized
    refine (allWhole_iff elems {}).mpr fun before e case more r split read => ?_
    exact whole elems before e case more r tokenized split read

/-- A dotless i is an I in capitals and a byte longer: the day ends inside it. -/
theorem to_date_of_dotless_i :
    parse .sample 2024 "FRıJAN" "DYMON" = .error .panic := by
  decide +kernel

/-! ## Characters that keep their length -/

/-- In capitals the character is one of the same length. -/
def Keeps (unicode : Unicode) (c : Char) : Prop :=
  ∃ upper, unicode.upper c = [upper] ∧ upper.utf8Size = c.utf8Size

/-- An ASCII character is one byte long. -/
theorem utf8Size_ascii {c : Char} (ascii : c.toNat < 128) : c.utf8Size = 1 := by
  rw [← String.length_utf8EncodeChar, utf8EncodeChar_ascii ascii]
  rfl

/-- Uppercasing keeps the size of an ASCII character. -/
theorem keeps_ascii {c : Char} (ascii : c.toNat < 128) : Keeps unicode c := by
  refine ⟨c.toUpper, unicode.upper_ascii c ascii, ?_⟩
  have low : c.toUpper.toNat < 128 := by
    have all : ∀ n < 128, (Char.ofNat n).toUpper.toNat < 128 := by decide +kernel
    have here := all c.toNat ascii
    rwa [Char.ofNat_toNat] at here
  rw [utf8Size_ascii ascii, utf8Size_ascii low]

/-- What stands in capitals at the start stands for characters of the same length. -/
theorem dropBytes_of_keeps {rest front : List Char} (keeps : ∀ c ∈ rest, Keeps unicode c)
    (matched : front <+: unicode.toUppercase rest) : (dropBytes rest (size front)).isSome = true := by
  induction rest generalizing front with
  | nil =>
      obtain rfl := List.prefix_nil.mp matched
      rfl
  | cons c rest ih =>
      obtain ⟨⟨upper, isUpper, same⟩, keeps'⟩ := List.forall_mem_cons.mp keeps
      have here : unicode.toUppercase (c :: rest) = upper :: unicode.toUppercase rest := by
        show unicode.upper c ++ _ = _
        rw [isUpper]
        rfl
      rw [here] at matched
      cases front with
      | nil =>
          rw [size_nil, dropBytes_zero]
          rfl
      | cons first front =>
          obtain ⟨rfl, matched'⟩ := List.cons_prefix_cons.mp matched
          have past := dropBytes_size_add [c] rest (size front)
          rw [size_cons, size_nil, Nat.add_zero, ← same] at past
          rw [size_cons]
          exact past ▸ ih keeps' matched'

/-- A name is found only if the input starts with a text of its size. -/
theorem findName_spec {names : List (List Char)} (ascii : ∀ name ∈ names, Ascii name)
    (long : ∀ name ∈ names, 3 ≤ name.length) {rest : List Char} {index length : Nat}
    (found : findName names rest = some (index, length)) :
    ∃ front, front <+: rest ∧ size front = length := by
  obtain ⟨i, isIndex, same⟩ := Option.map_eq_some_iff.mp found
  obtain ⟨rfl, isLength⟩ := Prod.mk.inj same
  obtain ⟨inside, matched, -⟩ := List.findIdx?_eq_some_iff_getElem.mp isIndex
  have member : names[i] ∈ names := List.getElem_mem inside
  have here : names.getD i [] = names[i] := by
    rw [List.getD_eq_getElem?_getD, List.getElem?_eq_getElem inside, Option.getD_some]
  simp only [here] at isLength
  split at isLength
  · next whole =>
      refine ⟨names[i], List.isPrefixOf_iff_prefix.mp whole, ?_⟩
      rw [size_ascii (ascii _ member), isLength]
  · next notWhole =>
      have three := (Bool.or_eq_true_iff.mp matched).resolve_left notWhole
      have front : Ascii (names[i].take 3) :=
        fun c inFront => ascii _ member c (List.mem_of_mem_take inFront)
      refine ⟨names[i].take 3, List.isPrefixOf_iff_prefix.mp three, ?_⟩
      rw [size_ascii front, List.length_take, min_eq_left (long _ member), isLength]

/-- A word is found as some text in capitals of its length. -/
theorem word_spec {e : Elem} {rest : List Char} {n : Nat} (matched : word unicode rest e = some n)
    (keeps : ∀ text, e = .literal text → size (unicode.toUppercase text) = size text) :
    ∃ front, front <+: unicode.toUppercase rest ∧ size front = n := by
  have meridian {mark : List Char} (isMark : mark.isPrefixOf (unicode.toUppercase rest) = true)
      (ascii : Ascii mark) : ∃ front, front <+: unicode.toUppercase rest ∧ size front = mark.length :=
    ⟨mark, List.isPrefixOf_iff_prefix.mp isMark, size_ascii ascii⟩
  cases e with
  | mon | month =>
      obtain ⟨⟨index, length⟩, found, rfl⟩ := Option.map_eq_some_iff.mp matched
      exact findName_spec (by decide) (by decide) found
  | dy | day =>
      obtain ⟨⟨index, length⟩, found, rfl⟩ := Option.map_eq_some_iff.mp matched
      exact findName_spec (by decide) (by decide) found
  | am =>
      obtain ⟨⟨isPm, length⟩, found, rfl⟩ := Option.map_eq_some_iff.mp matched
      unfold findMeridian at found
      split_ifs at found with pm am pmDots amDots <;>
        obtain ⟨rfl, rfl⟩ := Prod.mk.inj (Option.some.inj found)
      · exact meridian pm (by decide)
      · exact meridian am (by decide)
      · exact meridian pmDots (by decide)
      · exact meridian amDots (by decide)
  | literal text =>
      rw [word] at matched
      split at matched
      · next front =>
          obtain rfl := Option.some.inj matched
          exact ⟨_, List.isPrefixOf_iff_prefix.mp front, keeps text rfl⟩
      · cases matched
  | _ => cases matched

/-- Uppercasing keeps the size of a text if it keeps the size of its characters. -/
theorem size_toUppercase {text : List Char} (keeps : ∀ c ∈ text, Keeps unicode c) :
    size (unicode.toUppercase text) = size text := by
  induction text with
  | nil => rfl
  | cons c rest ih =>
      obtain ⟨⟨upper, isUpper, same⟩, keeps'⟩ := List.forall_mem_cons.mp keeps
      have here : unicode.toUppercase (c :: rest) = upper :: unicode.toUppercase rest := by
        show unicode.upper c ++ _ = _
        rw [isUpper]
        rfl
      rw [here, size_cons, size_cons, ih keeps', same]

/-- A literal is a quoted part of the format or a mark in it. -/
theorem nextElem_literal {first : Char} {rest text : List Char} {length : Nat}
    (found : nextElem (first :: rest) = .ok (.literal text, length)) :
    ∀ c ∈ text, c ∈ first :: rest := by
  have keyword : ∀ entry ∈ table, (match entry.2 with | .literal _ => false | _ => true) = true := by
    decide
  intro c inText
  rw [nextElem] at found
  split_ifs at found with quote mark fraction
  · split at found
    · obtain ⟨isText, -⟩ := Prod.mk.inj (Except.ok.inj found)
      obtain rfl := Elem.literal.inj isText
      exact List.mem_cons_of_mem _ (List.mem_of_mem_take inText)
    · cases found
  · obtain ⟨isText, -⟩ := Prod.mk.inj (Except.ok.inj found)
    obtain rfl := Elem.literal.inj isText
    exact List.mem_singleton.mp inText ▸ List.mem_cons_self
  · split at found
    · split_ifs at found <;> cases found
    · cases found
  · split at found
    · next key e isEntry =>
        obtain ⟨rfl, -⟩ := Prod.mk.inj (Except.ok.inj found)
        cases keyword _ (List.mem_of_find?_eq_some isEntry)
    · cases found

/-- The text of a literal is part of the format. -/
theorem mem_of_literal {fmt : List Char} {skip : Nat} {elems : List (Elem × Case)}
    (tokenized : tokenizeFrom unicode skip fmt = .ok elems) {text : List Char} {case : Case}
    (member : (.literal text, case) ∈ elems) : ∀ c ∈ text, c ∈ fmt := by
  induction fmt generalizing skip elems with
  | nil =>
      cases skip <;> cases tokenized <;> cases member
  | cons first fmt ih =>
      cases skip with
      | succ skip => exact fun c inText => List.mem_cons_of_mem _ (ih tokenized member c inText)
      | zero =>
          rw [tokenizeFrom] at tokenized
          cases next : nextElem (first :: fmt) with
          | error err =>
              rw [next] at tokenized
              cases tokenized
          | ok found =>
              obtain ⟨e, length⟩ := found
              rw [next] at tokenized
              cases later : tokenizeFrom unicode (length - 1) fmt with
              | error err =>
                  change (tokenizeFrom unicode (length - 1) fmt >>= fun more =>
                    Except.ok ((e, caseOf unicode (first :: fmt)) :: more)) = _ at tokenized
                  rw [later] at tokenized
                  cases tokenized
              | ok more =>
                  change (tokenizeFrom unicode (length - 1) fmt >>= fun more =>
                    Except.ok ((e, caseOf unicode (first :: fmt)) :: more)) = _ at tokenized
                  rw [later] at tokenized
                  obtain rfl := Except.ok.inj tokenized
                  rcases List.mem_cons.mp member with isFirst | isLater
                  · obtain ⟨rfl, -⟩ := Prod.mk.inj isFirst
                    exact nextElem_literal next
                  · exact fun c inText => List.mem_cons_of_mem _ (ih later isLater c inText)

/-- Where each character of the input and of the format keeps its length in capitals, TO_DATE does not
panic. -/
theorem to_date_returns {s fmt : String} (keepsInput : ∀ c ∈ (trim s).toList, Keeps unicode c)
    (keepsFormat : ∀ c ∈ fmt.toList, Keeps unicode c) (currentYear : Int) :
    parse unicode currentYear s fmt ≠ .error .panic := by
  rw [parse_returns]
  intro elems tokenized
  refine (allWhole_iff elems {}).mpr ?_
  rintro before e case more r split - rest n found - matched
  left
  obtain ⟨front, matched', rfl⟩ := word_spec matched fun text isLiteral => by
    subst isLiteral
    refine size_toUppercase fun c inText => keepsFormat c ?_
    exact mem_of_literal tokenized (split ▸ List.mem_append_right _ List.mem_cons_self) c inText
  refine dropBytes_of_keeps (fun c inRest => keepsInput c ?_) matched'
  obtain ⟨passed, isInput, -⟩ := dropBytes_eq_some found
  rw [isInput]
  exact List.mem_append_right _ inRest

/-- TO_DATE of ASCII does not panic. -/
theorem to_date_returns_ascii {s fmt : String} (input : Ascii (trim s).toList)
    (format : Ascii fmt.toList) (currentYear : Int) :
    parse unicode currentYear s fmt ≠ .error .panic :=
  to_date_returns (fun c member => keeps_ascii (input c member))
    (fun c member => keeps_ascii (format c member)) currentYear

end MockOracle.Datetime
