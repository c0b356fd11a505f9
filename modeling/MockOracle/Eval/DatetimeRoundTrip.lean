import MockOracle.Eval.DatetimeKeywords

/-!
# TO_DATE undoes TO_CHAR

What `format` writes for a format of keywords and punctuation is read back by `parse`. While it
reads, what is left of the input is what is left of the output, up to punctuation at both ends: the
white space at the ends was trimmed and a mark takes all the punctuation it finds.

The exception is a year of two digits with a number right after it. It is written with two digits
and read with up to four, so that all the numbers after it are read two digits late and the last of
them finds none.
-/

namespace MockOracle.Datetime

open Semantics Semantics.Text

variable {unicode : Unicode} {d : NaiveDateTime}

/-! ## What is left to read -/

/-- What is left of the input is what is left of the output, but for some punctuation at its ends. -/
def Remains (out rest : List Char) : Prop :=
  ∃ front back, out = front ++ (rest ++ back) ∧ (∀ c ∈ front, c.isAlphanum = false) ∧
    ∀ c ∈ back, c.isAlphanum = false

namespace Remains

/-- A word is not trimmed, so that it comes next. -/
theorem word {first : Char} {more out rest : List Char}
    (remains : Remains (first :: more ++ out) rest)
    (isWord : ∀ c ∈ first :: more, c.isAlphanum = true) :
    ∃ left back, rest = first :: more ++ left ∧ out = left ++ back ∧
      ∀ c ∈ back, c.isAlphanum = false := by
  obtain ⟨front, back, split, noWord, noWordBack⟩ := remains
  cases front with
  | cons c front =>
      obtain ⟨rfl, -⟩ := List.cons.inj split
      have letter := isWord first List.mem_cons_self
      rw [noWord first List.mem_cons_self] at letter
      cases letter
  | nil =>
      rw [List.nil_append] at split
      rcases List.append_eq_append_iff.mp split with ⟨left, rfl, rfl⟩ | ⟨cut, isMore, rfl⟩
      · exact ⟨left, back, rfl, rfl, noWordBack⟩
      · -- The word would reach into the punctuation at the end.
        cases cut with
        | nil =>
            rw [List.append_nil] at isMore
            exact ⟨[], out, by rw [List.append_nil, isMore], rfl, noWordBack⟩
        | cons c cut =>
            have letter := isWord c (isMore ▸ List.mem_append_right _ List.mem_cons_self)
            rw [noWordBack c List.mem_cons_self] at letter
            cases letter

/-- Punctuation takes all that is there. -/
theorem mark {c : Char} {out rest : List Char} (remains : Remains (c :: out) rest)
    (isMark : c.isAlphanum = false) :
    Remains out (rest.dropWhile fun c => !c.isAlphanum) := by
  obtain ⟨front, back, split, noWord, noWordBack⟩ := remains
  have skipped (text : List Char) :
      ∀ c ∈ text.takeWhile fun c => !c.isAlphanum, c.isAlphanum = false := by
    intro c member
    simpa using List.mem_takeWhile_imp member
  have parts (text : List Char) :
      text = text.takeWhile (fun c => !c.isAlphanum) ++ text.dropWhile (fun c => !c.isAlphanum) :=
    List.takeWhile_append_dropWhile.symm
  cases front with
  | cons f front =>
      obtain ⟨rfl, rfl⟩ := List.cons.inj split
      refine ⟨front ++ rest.takeWhile fun c => !c.isAlphanum, back, ?_, ?_, noWordBack⟩
      · show front ++ (rest ++ back) = _
        conv_lhs => rw [parts rest]
        simp only [List.append_assoc]
      · intro f member
        rcases List.mem_append.mp member with inFront | inRest
        · exact noWord f (List.mem_cons_of_mem _ inFront)
        · exact skipped rest f inRest
  | nil =>
      cases rest with
      | nil =>
          rw [List.nil_append, List.nil_append] at split
          subst split
          exact ⟨[], out, rfl, List.forall_mem_nil _, fun c member =>
            noWordBack c (List.mem_cons_of_mem _ member)⟩
      | cons first rest =>
          obtain ⟨rfl, rfl⟩ := List.cons.inj split
          rw [List.dropWhile_cons_of_pos (by simp [isMark])]
          refine ⟨rest.takeWhile fun c => !c.isAlphanum, back, ?_, skipped rest, noWordBack⟩
          show rest ++ back = _
          conv_lhs => rw [parts rest]
          simp only [List.append_assoc]

/-- Nothing is left of the input when nothing is left of the output. -/
theorem nil {rest : List Char} (remains : Remains [] rest) : rest = [] := by
  obtain ⟨front, back, split, -⟩ := remains
  have empty := (List.append_eq_nil_iff.mp split.symm).2
  exact (List.append_eq_nil_iff.mp empty).1

end Remains

/-- Punctuation is neither letter nor digit. -/
theorem isAlphanum_of_isPunctuation {c : Char} (isMark : isPunctuation c = true) :
    c.isAlphanum = false := by
  rcases isPunctuation_cases isMark with rfl | rfl | rfl | rfl | rfl | rfl | rfl <;> rfl

/-- Nothing that follows belongs to a number or a name of a month. -/
def Unambiguous (unicode : Unicode) (d : NaiveDateTime) (piece : Piece) (rest : List Piece) : Prop :=
  (piece.keyword? = some .rr → ∀ c ∈ (output unicode d rest).head?, c.isDigit = false) ∧
    (piece.keyword? = some .mon → ∀ c ∈ (output unicode d rest).head?, c.toUpper ∉ fourthLetters)

namespace Piece

/-- What reading a piece records. -/
def record (d : NaiveDateTime) : Piece → Reading → Reading
  | keyword k _ _, r => k.record d r
  | mark _ _, r => r

/-- The keyword of the piece tells its part of the date. -/
def Tells (d : NaiveDateTime) (piece : Piece) : Prop := ∀ k ∈ piece.keyword?, k.Tells d

end Piece

/-- One piece is read, and what is left is what was written after it. -/
theorem readElem_piece {piece : Piece} {pieces : List Piece} {input rest : List Char} {r : Reading}
    (tells : piece.Tells d) (unambiguous : Unambiguous unicode d piece pieces)
    (ascii : Ascii rest) (found : dropBytes input r.offset = some rest)
    (remains : Remains (output unicode d (piece :: pieces)) rest) :
    ∃ offset left, readElem unicode input r piece.elem
        = .ok { piece.record d r with offset := offset } ∧
      dropBytes input offset = some left ∧ Ascii left ∧ Remains (output unicode d pieces) left := by
  rw [output_cons] at remains
  cases piece with
  | keyword k spelling spelled =>
      obtain ⟨isWord, first, more, isText, -⟩ := elemText_word (tells k rfl)
        (caseOf unicode (formatText (.keyword k spelling spelled :: pieces)))
      have isWritten : written unicode d (.keyword k spelling spelled) pieces = first :: more := isText
      rw [isWritten] at remains
      rw [isText] at isWord
      obtain ⟨left, back, rfl, isOut, noWord⟩ := remains.word isWord
      have head : ∀ c ∈ left.head?, c ∈ (output unicode d pieces).head? := by
        intro c isHead
        rw [isOut, List.head?_append, Option.mem_def.mp isHead]
        rfl
      rw [← isText] at ascii found
      refine ⟨_, left, readElem_keyword (tells k rfl) ascii found ?_ ?_, ?_, ?_, ?_⟩
      · rintro rfl c isHead
        exact unambiguous.1 rfl c (head c isHead)
      · rintro rfl c isHead
        exact unambiguous.2 rfl c (head c isHead)
      · have wordAscii : Ascii (elemText d false
            (caseOf unicode (formatText (.keyword k spelling spelled :: pieces))) k.elem) :=
          fun c member => ascii c (List.mem_append_left _ member)
        rw [← size_ascii wordAscii]
        exact dropBytes_past found
      · exact fun c member => ascii c (List.mem_append_right _ member)
      · exact ⟨[], back, isOut, List.forall_mem_nil _, noWord⟩
  | mark c isMark =>
      have low : c.toNat < 128 := by
        rcases isPunctuation_cases isMark with rfl | rfl | rfl | rfl | rfl | rfl | rfl <;> decide
      have notAlphanum := isAlphanum_of_isPunctuation isMark
      have lenient : ([c].all fun c => !unicode.isAlphanumeric c) = true := by
        simp [unicode.isAlphanumeric_ascii c low, notAlphanum]
      refine ⟨r.offset + size (rest.takeWhile fun c => !c.isAlphanum),
        rest.dropWhile fun c => !c.isAlphanum, ?_, ?_, ?_, remains.mark notAlphanum⟩
      · rw [Piece.elem, readElem, if_pos lenient, skip_at ascii found]
        rfl
      · refine dropBytes_past ?_
        rwa [List.takeWhile_append_dropWhile]
      · exact fun c member => ascii c ((List.dropWhile_sublist _).subset member)

/-! ## Whole formats -/

/-- Letters and digits are ASCII. -/
theorem isAlphanum_ascii {c : Char} (word : c.isAlphanum = true) : c.toNat < 128 := by
  have same : c.val.toNat = c.toNat := rfl
  have large : 'Z'.val.toNat = 90 ∧ 'z'.val.toNat = 122 := ⟨rfl, rfl⟩
  rw [Char.isAlphanum, Bool.or_eq_true] at word
  rcases word with letter | digit
  · simp only [Char.isAlpha, Char.isUpper, Char.isLower, Bool.or_eq_true, Bool.and_eq_true,
      decide_eq_true_eq, ge_iff_le, UInt32.le_iff_toNat_le, same, large] at letter
    omega
  · have := Decimal.digit_range digit
    omega

/-- White space is neither letter nor digit. -/
theorem isAlphanum_of_isWhitespace {c : Char} (white : isWhitespace c = true) :
    c.isAlphanum = false := by
  by_contra word
  have ascii := isAlphanum_ascii (Bool.eq_true_of_not_eq_false word)
  simp only [isWhitespace, Bool.or_eq_true, Bool.and_eq_true, decide_eq_true_eq] at white
  have blank : c = Char.ofNat 9 ∨ c = Char.ofNat 10 ∨ c = Char.ofNat 11 ∨ c = Char.ofNat 12 ∨
      c = Char.ofNat 13 ∨ c = Char.ofNat 32 := by
    have same := Char.ofNat_toNat c
    obtain value | value | value | value | value | value : c.toNat = 9 ∨ c.toNat = 10 ∨
        c.toNat = 11 ∨ c.toNat = 12 ∨ c.toNat = 13 ∨ c.toNat = 32 := by omega
    all_goals
      rw [value] at same
      simp [← same]
  rcases blank with rfl | rfl | rfl | rfl | rfl | rfl <;> exact word rfl

/-- Trimming removes no letters and digits. -/
theorem remains_trim (out : List Char) : Remains out (trim (String.ofList out)).toList := by
  have white (text : List Char) : ∀ c ∈ text.takeWhile isWhitespace, c.isAlphanum = false :=
    fun c member => isAlphanum_of_isWhitespace (List.mem_takeWhile_imp member)
  have first : out = out.takeWhile isWhitespace ++ out.dropWhile isWhitespace :=
    List.takeWhile_append_dropWhile.symm
  have last : out.dropWhile isWhitespace
      = ((out.dropWhile isWhitespace).reverse.dropWhile isWhitespace).reverse
        ++ ((out.dropWhile isWhitespace).reverse.takeWhile isWhitespace).reverse := by
    rw [← List.reverse_append, List.takeWhile_append_dropWhile, List.reverse_reverse]
  refine ⟨out.takeWhile isWhitespace,
    ((out.dropWhile isWhitespace).reverse.takeWhile isWhitespace).reverse, ?_, white out, ?_⟩
  · rw [trim, String.toList_ofList, String.toList_ofList, ← last]
    exact first
  · intro c member
    exact white _ c (List.mem_reverse.mp member)

/-- What is written for a date that the pieces tell is ASCII. -/
theorem ascii_output {pieces : List Piece} (tells : ∀ piece ∈ pieces, piece.Tells d) :
    Ascii (output unicode d pieces) := by
  induction pieces with
  | nil => exact List.forall_mem_nil _
  | cons piece pieces ih =>
      obtain ⟨here, later⟩ := List.forall_mem_cons.mp tells
      rw [output_cons]
      intro c member
      rcases List.mem_append.mp member with inPiece | inRest
      · cases piece with
        | keyword k spelling spelled =>
            exact isAlphanum_ascii ((elemText_word (here k rfl) _).1 c inPiece)
        | mark m isMark =>
            obtain rfl := List.mem_singleton.mp inPiece
            rcases isPunctuation_cases isMark with rfl | rfl | rfl | rfl | rfl | rfl | rfl <;> decide
      · exact ih later c inRest

/-- The output begins with a digit where a number is first only, and with a fourth letter of a
month where a month is. -/
theorem head_output {pieces : List Piece} (tells : ∀ piece ∈ pieces, piece.Tells d) {c : Char}
    (isHead : c ∈ (output unicode d pieces).head?) :
    (c.isDigit = false ∨ ∃ k spelling spelled rest,
      pieces = .keyword k spelling spelled :: rest ∧ k.IsNumeric) ∧
    (c.toUpper ∉ fourthLetters ∨ .mon ∈ keywords pieces) := by
  cases pieces with
  | nil => cases isHead
  | cons piece rest =>
      rw [output_cons] at isHead
      cases piece with
      | keyword k spelling spelled =>
          obtain ⟨-, first, more, isText, noDigit, noLetter⟩ :=
            elemText_word (tells _ List.mem_cons_self k rfl)
              (caseOf unicode (formatText (.keyword k spelling spelled :: rest)))
          have isWritten : written unicode d (.keyword k spelling spelled) rest = first :: more :=
            isText
          rw [isWritten] at isHead
          cases isHead
          constructor
          · by_cases numeric : k.IsNumeric
            · exact Or.inr ⟨k, spelling, spelled, rest, rfl, numeric⟩
            · exact Or.inl (noDigit numeric)
          · by_cases month : k = .mon
            · exact Or.inr (month ▸ List.mem_cons_self)
            · exact Or.inl (noLetter month)
      | mark m isMark =>
          cases isHead
          constructor
          · left
            rcases isPunctuation_cases isMark with rfl | rfl | rfl | rfl | rfl | rfl | rfl <;> rfl
          · left
            rcases isPunctuation_cases isMark with rfl | rfl | rfl | rfl | rfl | rfl | rfl <;> decide

/-- A year of two digits that a number follows without anything between them. -/
def CrampedYear (pieces : List Piece) : Prop :=
  ∃ before spelling spelled k spelling' spelled' after,
    pieces = before ++ .keyword .rr spelling spelled :: .keyword k spelling' spelled' :: after ∧
      k.IsNumeric

/-- A format with each keyword at most once is unambiguous, if no number follows a year of two
digits. -/
theorem unambiguous_of_once {piece : Piece} {pieces : List Piece}
    (once : (keywords (piece :: pieces)).Nodup)
    (roomy : piece.keyword? = some .rr → ∀ k spelling spelled rest,
      pieces = .keyword k spelling spelled :: rest → ¬ k.IsNumeric)
    (tells : ∀ piece ∈ pieces, piece.Tells d) : Unambiguous unicode d piece pieces := by
  constructor
  · intro isYear c isHead
    refine (head_output tells isHead).1.resolve_right ?_
    rintro ⟨k, spelling, spelled, rest, isFirst, numeric⟩
    exact roomy isYear k spelling spelled rest isFirst numeric
  · intro isMonth c isHead
    refine (head_output tells isHead).2.resolve_right fun again => ?_
    rw [keywords, List.filterMap_cons_some isMonth] at once
    exact (List.nodup_cons.mp once).1 again

/-- What reading the pieces records. -/
def recordAll (d : NaiveDateTime) (pieces : List Piece) (r : Reading) : Reading :=
  pieces.foldl (fun r piece => piece.record d r) r

/-- What the pieces record does not depend on the offset that is recorded. -/
theorem recordAll_offset (pieces : List Piece) (r : Reading) (offset : Nat) :
    recordAll d pieces { r with offset := offset } = { recordAll d pieces r with offset := offset } := by
  induction pieces generalizing r with
  | nil => rfl
  | cons piece pieces ih =>
      have here : piece.record d { r with offset := offset }
          = { piece.record d r with offset := offset } := by
        cases piece with
        | keyword k spelling spelled => cases k <;> rfl
        | mark m isMark => rfl
      show recordAll d pieces (piece.record d { r with offset := offset }) = _
      rw [here, ih]
      rfl

/-- A format with each keyword at most once is one of its first piece and such a rest. -/
theorem nodup_tail {piece : Piece} {pieces : List Piece} (once : (keywords (piece :: pieces)).Nodup) :
    (keywords pieces).Nodup := by
  cases piece with
  | keyword k spelling spelled => exact (List.nodup_cons.mp once).2
  | mark m isMark => exact once

/-- All the pieces are read, to the end of the input. -/
theorem readElems_output {pieces : List Piece} (once : (keywords pieces).Nodup)
    (roomy : ¬ CrampedYear pieces) (tells : ∀ piece ∈ pieces, piece.Tells d)
    {input rest : List Char} {r : Reading} (ascii : Ascii rest)
    (found : dropBytes input r.offset = some rest)
    (remains : Remains (output unicode d pieces) rest) :
    readElems unicode input r (tokens unicode pieces)
      = .ok { recordAll d pieces r with offset := (bytes input).length } := by
  induction pieces generalizing r rest with
  | nil =>
      obtain rfl := remains.nil
      obtain ⟨before, rfl, length⟩ := dropBytes_eq_some found
      rw [List.append_nil]
      show Except.ok r = Except.ok { r with offset := size before }
      rw [length]
  | cons piece pieces ih =>
      obtain ⟨here, later⟩ := List.forall_mem_cons.mp tells
      have nextRoomy : piece.keyword? = some .rr → ∀ k spelling spelled rest,
          pieces = .keyword k spelling spelled :: rest → ¬ k.IsNumeric := by
        rintro isYear k spelling' spelled' after rfl numeric
        cases piece with
        | mark m isMark => cases isYear
        | keyword k' spelling spelled =>
            obtain rfl : k' = .rr := Option.some.inj isYear
            exact roomy ⟨[], spelling, spelled, k, spelling', spelled', after, rfl, numeric⟩
      obtain ⟨offset, left, read, found', ascii', remains'⟩ :=
        readElem_piece here (unambiguous_of_once once nextRoomy later) ascii found remains
      have roomy' : ¬ CrampedYear pieces := by
        rintro ⟨before, spelling, spelled, k, spelling', spelled', after, rfl, numeric⟩
        exact roomy ⟨piece :: before, spelling, spelled, k, spelling', spelled', after, rfl, numeric⟩
      have more := ih (nodup_tail once) roomy' later (r := { piece.record d r with offset := offset })
        ascii' found' remains'
      rw [recordAll_offset] at more
      rw [tokens, readElems, List.foldlM_cons, read]
      exact more

/-- The format with these pieces as a string. -/
def fmt (pieces : List Piece) : String := String.ofList (formatText pieces)

/-- The text of a date is what the pieces write one after another. -/
theorem toList_format {pieces : List Piece} (once : (keywords pieces).Nodup) :
    format unicode d (fmt pieces) = String.ofList (output unicode d pieces) := by
  rw [format, fmt, String.toList_ofList, tokenize_formatText unicode once]
  rfl

/-- The output is read element by element. -/
theorem parse_output {pieces : List Piece} (once : (keywords pieces).Nodup)
    (tells : ∀ piece ∈ pieces, piece.Tells d) (currentYear : Int) :
    ∃ input, Ascii input ∧ Remains (output unicode d pieces) input ∧
      parse unicode currentYear (format unicode d (fmt pieces)) (fmt pieces)
        = (readElems unicode input {} (tokens unicode pieces)).bind (finish input currentYear) := by
  have remains := remains_trim (output unicode d pieces)
  have tokenized : tokenize unicode (fmt pieces).toList = .ok (tokens unicode pieces) := by
    rw [fmt, String.toList_ofList, tokenize_formatText unicode once]
  refine ⟨_, ?_, remains, ?_⟩
  · obtain ⟨front, back, split, -⟩ := remains
    intro c member
    have inOutput : c ∈ output unicode d pieces := by
      rw [split]
      exact List.mem_append_right _ (List.mem_append_left _ member)
    exact ascii_output tells c inOutput
  · rw [parse, toList_format once, tokenized]
    rfl

/-- The output is read as what the pieces record. -/
theorem parse_format {pieces : List Piece} (once : (keywords pieces).Nodup)
    (roomy : ¬ CrampedYear pieces) (tells : ∀ piece ∈ pieces, piece.Tells d) (currentYear : Int) :
    ∃ input r, parse unicode currentYear (format unicode d (fmt pieces)) (fmt pieces)
        = finish input currentYear r ∧
      r = { recordAll d pieces {} with offset := (bytes input).length } := by
  obtain ⟨input, ascii, remains, parsed⟩ := parse_output once tells currentYear
  have read := readElems_output (r := {}) once roomy tells ascii (dropBytes_zero _) remains
  refine ⟨input, _, ?_, rfl⟩
  rw [parsed, read, Except.bind]

/-- What was recorded of a date/time makes it up. -/
theorem finish_record {r : Reading} {input : List Char} (all : r.offset = (bytes input).length)
    (supported : -262143 ≤ d.year ∧ d.year ≤ 262142) (whole : d.nanos = 0)
    (year : r.year = some d.year) (month : r.month = d.month) (day : r.day = d.day)
    (hour : hourOfDay r = .ok d.hour) (minute : r.minute = d.minute) (second : r.second = d.second)
    (nanos : r.nanos = 0) (currentYear : Int) : finish input currentYear r = .ok d := by
  have notMore : ¬ r.offset < (bytes input).length := by omega
  have hours := d.hour_lt
  have minutes := d.minute_lt
  have seconds := d.second_lt
  have valid : ¬ ¬ (1 ≤ d.month ∧ d.month ≤ 12) := not_not.mpr d.month_bounds
  have isDate : ({ d with nanos := 0 } : NaiveDateTime) = d := by
    rw [← whole]
  rw [finish, if_neg notMore, hour]
  show (if 23 < d.hour then _ else _) = _
  rw [if_neg (by omega), minute, if_neg (by omega), second, if_neg (by omega), month, if_neg valid,
    year, Option.getD_some, day, d.fromYmdOpt_date supported]
  show orPanic (andHmsNanoOpt d.date d.hour d.minute d.second r.nanos) = _
  rw [nanos, d.andHmsNanoOpt_parts (by decide), isDate]
  rfl

/-! ## Every format of a date and a time -/

/-- What the pieces record is what their keywords record. -/
theorem recordAll_keywords (pieces : List Piece) (r : Reading) :
    recordAll d pieces r = (keywords pieces).foldl (fun r k => k.record d r) r := by
  induction pieces generalizing r with
  | nil => rfl
  | cons piece pieces ih =>
      cases piece with
      | keyword k spelling spelled => exact ih (k.record d r)
      | mark m isMark => exact ih r

/-- Pieces tell their date when their keywords do. -/
theorem tells_of_keywords {pieces : List Piece} (tells : ∀ k ∈ keywords pieces, k.Tells d) :
    ∀ piece ∈ pieces, piece.Tells d := by
  intro piece member k isKeyword
  exact tells k (List.mem_filterMap.mpr ⟨piece, member, isKeyword⟩)

/-- The keywords of a format of a date and a time; the clock has one or two of them. -/
def layout (year month : Keyword) (clock : List Keyword) : List Keyword :=
  [year, month, .dd] ++ clock ++ [.mi, .ss]

/-- The two ways to tell the hour. -/
def IsClock (clock : List Keyword) : Prop :=
  clock = [.hh24] ∨ ∃ mark, clock = [.hh12, .meridian mark]

/-- Keywords record the same in any order, unless they tell the hour in two ways. -/
theorem record_comm {x y : Keyword} (left : ¬ (x = .hh24 ∧ y = .hh12))
    (right : ¬ (x = .hh12 ∧ y = .hh24)) (r : Reading) :
    y.record d (x.record d r) = x.record d (y.record d r) := by
  cases x <;> cases y <;> first
    | rfl
    | exact absurd ⟨rfl, rfl⟩ left
    | exact absurd ⟨rfl, rfl⟩ right

section Layout

variable {pieces : List Piece} {year month : Keyword} {clock : List Keyword}

/-- A layout tells the hour in one way. -/
theorem not_both_hours (isYear : year = .yyyy ∨ year = .rr) (isMonth : month = .mm ∨ month = .mon)
    (isClock : IsClock clock) :
    ¬ (.hh24 ∈ layout year month clock ∧ .hh12 ∈ layout year month clock) := by
  obtain rfl | ⟨mark, rfl⟩ := isClock <;> rcases isYear with rfl | rfl <;>
    rcases isMonth with rfl | rfl <;> simp [layout]

/-- A format records the date and the time, in whatever order it has them. -/
theorem recordAll_layout (isYear : year = .yyyy ∨ year = .rr) (isMonth : month = .mm ∨ month = .mon)
    (isClock : IsClock clock) (perm : (keywords pieces).Perm (layout year month clock)) :
    recordAll d pieces {} = clock.foldl (fun r k => k.record d r)
      { year := some d.year, month := d.month, day := d.day, minute := d.minute,
        second := d.second } := by
  have single := not_both_hours isYear isMonth isClock
  rw [recordAll_keywords, perm.foldl_eq']
  · obtain rfl | ⟨mark, rfl⟩ := isClock <;> rcases isYear with rfl | rfl <;>
      rcases isMonth with rfl | rfl <;> rfl
  · intro x isX y isY r
    rw [perm.mem_iff] at isX isY
    refine record_comm ?_ ?_ r
    · rintro ⟨rfl, rfl⟩
      exact single ⟨isX, isY⟩
    · rintro ⟨rfl, rfl⟩
      exact single ⟨isY, isX⟩

/-- The hour that a clock tells. -/
theorem hourOfDay_clock (isClock : IsClock clock) (r : Reading) (fresh : r.pm = none)
    (noClock : r.hour12 = false) (offset : Nat) :
    hourOfDay { clock.foldl (fun r k => k.record d r) r with offset := offset } = .ok d.hour := by
  have hour := d.hour_lt
  obtain rfl | ⟨mark, rfl⟩ := isClock
  · show (if r.hour12 || r.pm.isSome then _ else Except.ok d.hour) = _
    rw [fresh, noClock]
    rfl
  · have face : 1 ≤ clockHour d.hour ∧ clockHour d.hour ≤ 12 ∧ clockHour d.hour % 12 = d.hour % 12 := by
      unfold clockHour
      split <;> omega
    show (if 1 ≤ clockHour d.hour ∧ clockHour d.hour ≤ 12 then
      if some (12 ≤ d.hour : Bool) = some true then u32 (clockHour d.hour % 12 + 12)
      else .ok (clockHour d.hour % 12) else _) = _
    rw [if_pos ⟨face.1, face.2.1⟩, face.2.2]
    by_cases afternoon : 12 ≤ d.hour
    · rw [decide_eq_true afternoon, if_pos rfl, u32, if_pos (by omega)]
      congr 1
      omega
    · rw [decide_eq_false afternoon, if_neg (by decide)]
      congr 1
      omega

/-- No keyword occurs twice in a layout. -/
theorem nodup_layout (isYear : year = .yyyy ∨ year = .rr) (isMonth : month = .mm ∨ month = .mon)
    (isClock : IsClock clock) : (layout year month clock).Nodup := by
  obtain rfl | ⟨mark, rfl⟩ := isClock <;> rcases isYear with rfl | rfl <;>
    rcases isMonth with rfl | rfl <;> simp [layout]

/-- A date and a time are read back in every format that tells the year, unless its digits would
run into those of the next number. -/
theorem parse_format_layout (isYear : year = .yyyy ∨ year = .rr)
    (isMonth : month = .mm ∨ month = .mon) (isClock : IsClock clock)
    (perm : (keywords pieces).Perm (layout year month clock)) (tells : year.Tells d)
    (whole : d.nanos = 0) (roomy : ¬ CrampedYear pieces) (currentYear : Int) :
    parse unicode currentYear (format unicode d (fmt pieces)) (fmt pieces) = .ok d := by
  have once : (keywords pieces).Nodup := perm.nodup_iff.mpr (nodup_layout isYear isMonth isClock)
  have told : ∀ piece ∈ pieces, piece.Tells d := by
    refine tells_of_keywords fun k member => ?_
    rw [perm.mem_iff] at member
    obtain rfl | isOther : k = year ∨ k ∈ month :: .dd :: (clock ++ [.mi, .ss]) := by
      simpa [layout] using member
    · exact tells
    · have other : k ≠ .yyyy ∧ k ≠ .rr := by
        constructor <;> rintro rfl <;> obtain rfl | ⟨mark, rfl⟩ := isClock <;>
          rcases isMonth with rfl | rfl <;> simp at isOther
      cases k with
      | yyyy => exact absurd rfl other.1
      | rr => exact absurd rfl other.2
      | _ => trivial
  have supported : -262143 ≤ d.year ∧ d.year ≤ 262142 := by
    rcases isYear with rfl | rfl <;> unfold Keyword.Tells at tells <;> omega
  obtain ⟨input, r, parsed, isRecord⟩ := parse_format once roomy told currentYear
  rw [recordAll_layout isYear isMonth isClock perm] at isRecord
  rw [parsed]
  have hour : hourOfDay r = .ok d.hour := isRecord ▸ hourOfDay_clock isClock _ rfl rfl _
  -- The clock leaves alone what the other keywords record.
  obtain rfl | ⟨mark, rfl⟩ := isClock <;> subst isRecord <;>
    exact finish_record rfl supported whole rfl rfl rfl hour rfl rfl rfl currentYear

end Layout

/-- TO_DATE undoes TO_CHAR for every format with a full year, the month as number or name, the day
and the time of day, in any order and with any punctuation. -/
theorem to_date_to_char (unicode : Unicode) (currentYear : Int) (d : NaiveDateTime)
    (years : 0 ≤ d.year ∧ d.year ≤ 9999) (whole : d.nanos = 0) (pieces : List Piece)
    (month : Keyword) (isMonth : month = .mm ∨ month = .mon) (clock : List Keyword)
    (isClock : clock = [.hh24] ∨ ∃ mark, clock = [.hh12, .meridian mark])
    (perm : (keywords pieces).Perm ([.yyyy, month, .dd] ++ clock ++ [.mi, .ss])) :
    parse unicode currentYear (format unicode d (fmt pieces)) (fmt pieces) = .ok d := by
  refine parse_format_layout (Or.inl rfl) isMonth isClock perm years whole ?_ currentYear
  rintro ⟨before, spelling, spelled, k, spelling', spelled', after, rfl, -⟩
  have member : Keyword.rr ∈ [.yyyy, month, .dd] ++ clock ++ [.mi, .ss] := by
    rw [← perm.mem_iff]
    exact List.mem_filterMap.mpr ⟨.keyword .rr spelling spelled, by simp, rfl⟩
  obtain rfl | ⟨mark, rfl⟩ := isClock <;> rcases isMonth with rfl | rfl <;> simp at member

/-- `YYYYMonDDhh12missAM`, with nothing between the keywords. -/
def packed : List Piece :=
  [.keyword .yyyy "YYYY".toList (by decide), .keyword .mon "Mon".toList (by decide),
    .keyword .dd "DD".toList (by decide), .keyword .hh12 "hh12".toList (by decide),
    .keyword .mi "mi".toList (by decide), .keyword .ss "ss".toList (by decide),
    .keyword (.meridian .am) "AM".toList (by decide)]

/-- A date is read back from text with nothing between its parts. -/
theorem to_date_to_char_packed :
    parse .sample 2024 (format .sample ⟨1709647629, 0⟩ (fmt packed)) (fmt packed)
      = .ok ⟨1709647629, 0⟩ :=
  to_date_to_char .sample 2024 ⟨1709647629, 0⟩ (by decide +kernel) rfl packed .mon (Or.inr rfl) _
    (Or.inr ⟨.am, rfl⟩) (by decide)

/-! ## A year of two digits before a number -/

/-- Written as a number of two digits that is read with two. -/
def Keyword.IsPair : Keyword → Prop
  | .mm | .dd | .hh24 | .hh12 | .mi | .ss => True
  | _ => False

/-- A pair of digits tells its part of every date. -/
theorem number?_of_isPair {k : Keyword} (pair : k.IsPair) (d : NaiveDateTime) :
    k.Tells d ∧ ∃ n, k.number? d = some (n, 2) := by
  cases k with
  | mm | dd | hh24 | hh12 | mi | ss => exact ⟨trivial, _, rfl⟩
  | yyyy => exact pair.elim
  | rr => exact pair.elim
  | mon => exact pair.elim
  | meridian mark => exact pair.elim

/-- What reading a number of two digits records. -/
def Keyword.recordNumber (k : Keyword) (n : Nat) (r : Reading) : Reading :=
  match k with
  | .mm => { r with month := n }
  | .dd => { r with day := n }
  | .hh24 => { r with hour := n }
  | .hh12 => { r with hour := n, hour12 := true }
  | .mi => { r with minute := n }
  | .ss => { r with second := n }
  | _ => r

/-- A pair of digits is read as a number of two digits. -/
theorem readElem_pair {k : Keyword} (pair : k.IsPair) (unicode : Unicode) (input : List Char)
    (r : Reading) : readElem unicode input r k.elem = readNumber input r 2 k.recordNumber := by
  cases k with
  | mm | dd | hh24 | hh12 | mi | ss => rfl
  | yyyy => exact pair.elim
  | rr => exact pair.elim
  | mon => exact pair.elim
  | meridian mark => exact pair.elim

/-- Pieces are read one after another. -/
theorem readElems_cons (unicode : Unicode) (input : List Char) (r : Reading) (piece : Piece)
    (pieces : List Piece) : readElems unicode input r (tokens unicode (piece :: pieces))
      = (readElem unicode input r piece.elem).bind fun r =>
          readElems unicode input r (tokens unicode pieces) := rfl

/-- Where a number is written next, it comes next in what is left. -/
theorem number_next {k : Keyword} {spelling : List Char} {spelled : spelling.map Char.toUpper = k.text}
    {pieces : List Piece} {n : Nat} (isNumber : k.number? d = some (n, 2)) (tells : k.Tells d)
    {rest : List Char}
    (remains : Remains (output unicode d (.keyword k spelling spelled :: pieces)) rest) :
    n < 10 ^ 2 ∧ ∃ left back, rest = zeroPadded 2 n ++ left ∧ output unicode d pieces = left ++ back ∧
      ∀ c ∈ back, c.isAlphanum = false := by
  obtain ⟨isText, small, -⟩ := elemText_number isNumber tells
    (caseOf unicode (formatText (.keyword k spelling spelled :: pieces)))
  obtain ⟨isWord, first, more, isFirst, -⟩ := elemText_word tells
    (caseOf unicode (formatText (.keyword k spelling spelled :: pieces)))
  have isWritten : written unicode d (.keyword k spelling spelled) pieces = first :: more := isFirst
  rw [output_cons, isWritten] at remains
  rw [isFirst] at isWord
  obtain ⟨left, back, isRest, isMore, noWord⟩ := remains.word isWord
  rw [← isFirst, isText] at isRest
  exact ⟨small, left, back, isRest, isMore, noWord⟩

/-- Where the text of a number is gone, the last number of the run is not found. -/
theorem readElems_starved {k : Keyword} (pair : k.IsPair) {spelling : List Char}
    (spelled : spelling.map Char.toUpper = k.text) {pieces : List Piece}
    (pairs : ∀ piece ∈ pieces, ∀ k ∈ piece.keyword?, k.IsNumeric → k.IsPair)
    (tells : ∀ piece ∈ pieces, piece.Tells d) {input rest back : List Char} {r : Reading}
    (found : dropBytes input r.offset = some rest)
    (isOut : output unicode d pieces = rest ++ back) (noWord : ∀ c ∈ back, c.isAlphanum = false) :
    readElems unicode input r (tokens unicode (.keyword k spelling spelled :: pieces))
      = .error (.error notNumeric) := by
  induction pieces generalizing k spelling rest back r with
  | nil =>
      obtain ⟨rfl, -⟩ := List.append_eq_nil_iff.mp isOut.symm
      rw [readElems_cons, Piece.elem, readElem_pair pair, readNumber,
        number_missing found (by decide) (by simp)]
      rfl
  | cons piece pieces ih =>
      by_cases isNumber : ∃ k' spelling' spelled', piece = .keyword k' spelling' spelled' ∧ k'.IsNumeric
      · obtain ⟨k', spelling', spelled', rfl, numeric⟩ := isNumber
        obtain ⟨here, later⟩ := List.forall_mem_cons.mp pairs
        have pair' := here k' rfl numeric
        obtain ⟨told, n, value⟩ := number?_of_isPair pair' d
        obtain ⟨small, left, back', rfl, isMore, noWord'⟩ :=
          number_next value told ⟨[], back, isOut, List.forall_mem_nil _, noWord⟩
        have length := length_zeroPadded small (by decide)
        have past := dropBytes_past found
        rw [size_ascii (ascii_digits (allDigits_zeroPadded 2 n)), length] at past
        rw [readElems_cons, Piece.elem, readElem_pair pair, readNumber,
          number_padded found small (by decide) (by decide)]
        exact ih pair' spelled' later (List.forall_mem_cons.mp tells).2
          (r := { k.recordNumber n r with offset := r.offset + 2 }) past isMore noWord'
      · have stops : ∀ c ∈ rest.head?, c.isDigit = false := by
          intro c isHead
          have isFirst : c ∈ (output unicode d (piece :: pieces)).head? := by
            rw [isOut, List.head?_append, Option.mem_def.mp isHead]
            rfl
          refine (head_output tells isFirst).1.resolve_right ?_
          rintro ⟨k', spelling', spelled', rest', same, numeric⟩
          exact isNumber ⟨k', spelling', spelled', (List.cons.inj same).1, numeric⟩
        rw [readElems_cons, Piece.elem, readElem_pair pair, readNumber,
          number_missing found (by decide) stops]
        rfl

/-- The year takes the digits of the number after it. -/
theorem readElem_rr_cramped {n : Nat} (value : n < 10 ^ 2)
    (tells : Keyword.rr.Tells d) {input left : List Char} {r : Reading}
    (found : dropBytes input r.offset
      = some (zeroPadded 2 (d.year % 100).toNat ++ (zeroPadded 2 n ++ left))) :
    ∃ r', readElem unicode input r .rr = .ok r' ∧ dropBytes input r'.offset = some left := by
  obtain ⟨-, small, -⟩ := elemText_number (k := .rr) rfl tells .upper
  have digits := (allDigits_zeroPadded 2 (d.year % 100).toNat).append (allDigits_zeroPadded 2 n)
  have length : (zeroPadded 2 (d.year % 100).toNat ++ zeroPadded 2 n).length = 4 := by
    rw [List.length_append, length_zeroPadded small (by decide), length_zeroPadded value (by decide)]
  rw [← List.append_assoc] at found
  have front : (((zeroPadded 2 (d.year % 100).toNat ++ zeroPadded 2 n) ++ left).takeWhile
      Char.isDigit).take 4 = zeroPadded 2 (d.year % 100).toNat ++ zeroPadded 2 n := by
    rw [List.takeWhile_append_of_pos digits]
    exact List.take_left' length
  have past := dropBytes_past found
  rw [size_ascii (ascii_digits digits), length] at past
  have number : number input r.offset 4 = .ok (Nat.ofDigitChars 10
      (zeroPadded 2 (d.year % 100).toNat ++ zeroPadded 2 n) 0, 4) := by
    rw [number_at found (by decide), front]
    split
    · next none =>
        rw [none] at length
        cases length
    · rw [length]
  refine ⟨{ r with
    offset := r.offset + 4
    year := some (asI32 (Nat.ofDigitChars 10
      (zeroPadded 2 (d.year % 100).toNat ++ zeroPadded 2 n) 0)) }, ?_, past⟩
  rw [readElem, number]
  rfl

/-- With a cramped year the input is not read. -/
theorem readElems_cramped {before after : List Piece} {spelling : List Char}
    {spelled : spelling.map Char.toUpper = Keyword.rr.text} {k : Keyword} {spelling' : List Char}
    {spelled' : spelling'.map Char.toUpper = k.text} (pair : k.IsPair)
    (once : (keywords (before ++ .keyword .rr spelling spelled
      :: .keyword k spelling' spelled' :: after)).Nodup)
    (pairs : ∀ piece ∈ after, ∀ k ∈ piece.keyword?, k.IsNumeric → k.IsPair)
    (tells : ∀ piece ∈ before ++ .keyword .rr spelling spelled
      :: .keyword k spelling' spelled' :: after, piece.Tells d)
    {input rest : List Char} {r : Reading} (ascii : Ascii rest)
    (found : dropBytes input r.offset = some rest)
    (remains : Remains (output unicode d (before ++ .keyword .rr spelling spelled
      :: .keyword k spelling' spelled' :: after)) rest) :
    readElems unicode input r (tokens unicode (before ++ .keyword .rr spelling spelled
      :: .keyword k spelling' spelled' :: after)) = .error (.error notNumeric) := by
  induction before generalizing r rest with
  | nil =>
      obtain ⟨here, later⟩ := List.forall_mem_cons.mp tells
      obtain ⟨told, n, value⟩ := number?_of_isPair pair d
      obtain ⟨-, left, back, rfl, isMore, noWord⟩ := number_next rfl (here .rr rfl) remains
      obtain ⟨small, left, back, rfl, isRest, noWord⟩ :=
        number_next value told ⟨[], back, isMore, List.forall_mem_nil _, noWord⟩
      obtain ⟨r', read, past⟩ := readElem_rr_cramped small (here .rr rfl) found
      rw [List.nil_append, readElems_cons]
      show (readElem unicode input r .rr).bind _ = _
      rw [read]
      exact readElems_starved pair spelled' pairs (List.forall_mem_cons.mp later).2 past isRest noWord
  | cons piece before ih =>
      rw [List.cons_append] at once tells remains
      obtain ⟨here, later⟩ := List.forall_mem_cons.mp tells
      have notYear (isYear : piece.keyword? = some .rr) : .rr ∉ keywords (before
          ++ .keyword .rr spelling spelled :: .keyword k spelling' spelled' :: after) := by
        rw [keywords, List.filterMap_cons_some isYear] at once
        exact (List.nodup_cons.mp once).1
      have unambiguous : Unambiguous unicode d piece (before ++ .keyword .rr spelling spelled
          :: .keyword k spelling' spelled' :: after) := by
        refine unambiguous_of_once once (fun isYear => absurd ?_ (notYear isYear)) later
        exact List.mem_filterMap.mpr ⟨.keyword .rr spelling spelled, by simp, rfl⟩
      obtain ⟨offset, left, read, found', ascii', remains'⟩ :=
        readElem_piece here unambiguous ascii found remains
      rw [List.cons_append, readElems_cons, read]
      exact ih (nodup_tail once) later (r := { piece.record d r with offset := offset })
        ascii' found' remains'

/-- TO_DATE undoes TO_CHAR for a year of two digits exactly where no number comes right after it. -/
theorem to_date_to_char_rr (unicode : Unicode) (currentYear : Int) (d : NaiveDateTime)
    (years : 1950 ≤ d.year ∧ d.year ≤ 2049) (whole : d.nanos = 0) (pieces : List Piece)
    (month : Keyword) (isMonth : month = .mm ∨ month = .mon)
    (perm : (keywords pieces).Perm [.rr, month, .dd, .hh24, .mi, .ss]) :
    parse unicode currentYear (format unicode d (fmt pieces)) (fmt pieces) = .ok d ↔
      ¬ ∃ before spelling spelled k spelling' spelled' after,
        pieces = before ++ .keyword .rr spelling spelled :: .keyword k spelling' spelled' :: after ∧
          k ≠ .mon := by
  have isLayout : (keywords pieces).Perm (layout .rr month [.hh24]) := perm
  have once : (keywords pieces).Nodup :=
    isLayout.nodup_iff.mpr (nodup_layout (Or.inr rfl) isMonth (Or.inl rfl))
  have known {k : Keyword} (member : k ∈ keywords pieces) : k = .rr ∨ k = .mon ∨ k.IsPair := by
    rw [perm.mem_iff] at member
    simp only [List.mem_cons, List.not_mem_nil, or_false] at member
    rcases member with rfl | rfl | rfl | rfl | rfl | rfl
    · exact Or.inl rfl
    · rcases isMonth with rfl | rfl
      · exact Or.inr (Or.inr trivial)
      · exact Or.inr (Or.inl rfl)
    all_goals exact Or.inr (Or.inr trivial)
  have tells : ∀ piece ∈ pieces, piece.Tells d := by
    refine tells_of_keywords fun k member => ?_
    obtain rfl | rfl | pair := known member
    · exact years
    · trivial
    · exact (number?_of_isPair pair d).1
  constructor
  · rintro parsed ⟨before, spelling, spelled, k, spelling', spelled', after, rfl, number⟩
    have isKeyword : .rr :: k :: keywords after <:+ keywords (before ++ .keyword .rr spelling spelled
        :: .keyword k spelling' spelled' :: after) := by
      unfold keywords
      rw [List.filterMap_append]
      exact List.suffix_append _ _
    have notYear : k ≠ .rr := by
      rintro rfl
      exact (List.nodup_cons.mp (once.sublist isKeyword.sublist)).1 List.mem_cons_self
    have pair : k.IsPair :=
      ((known (isKeyword.subset (by simp))).resolve_left notYear).resolve_left number
    have pairs : ∀ piece ∈ after, ∀ k ∈ piece.keyword?, k.IsNumeric → k.IsPair := by
      intro piece member k' isKeyword' numeric
      have inAfter : k' ∈ keywords after := List.mem_filterMap.mpr ⟨piece, member, isKeyword'⟩
      have inRest := List.mem_cons_of_mem .rr (List.mem_cons_of_mem k inAfter)
      obtain rfl | rfl | pair := known (isKeyword.subset inRest)
      · have absent := (List.nodup_cons.mp (once.sublist isKeyword.sublist)).1
        exact absurd (List.mem_cons_of_mem _ inAfter) absent
      · exact numeric.elim
      · exact pair
    obtain ⟨input, ascii, remains, read⟩ := parse_output once tells currentYear
    rw [read, readElems_cramped pair once pairs tells ascii (dropBytes_zero _) remains] at parsed
    cases parsed
  · intro roomy
    refine parse_format_layout (Or.inr rfl) isMonth (Or.inl rfl) isLayout years whole ?_ currentYear
    rintro ⟨before, spelling, spelled, k, spelling', spelled', after, isPieces, numeric⟩
    refine roomy ⟨before, spelling, spelled, k, spelling', spelled', after, isPieces, ?_⟩
    rintro rfl
    exact numeric

/-- `RRMMDD HH24:MI:SS` -/
def cramped : List Piece :=
  [.keyword .rr "RR".toList (by decide), .keyword .mm "MM".toList (by decide),
    .keyword .dd "DD".toList (by decide), .mark ' ' rfl, .keyword .hh24 "HH24".toList (by decide),
    .mark ':' rfl, .keyword .mi "MI".toList (by decide), .mark ':' rfl,
    .keyword .ss "SS".toList (by decide)]

/-- A year of two digits in front of a number is read together with it, and the date is not read
back. -/
theorem to_date_to_char_rr_cramped :
    parse .sample 2024 (format .sample ⟨1709647629, 0⟩ (fmt cramped)) (fmt cramped)
      ≠ .ok ⟨1709647629, 0⟩ := by
  have exact_ := to_date_to_char_rr .sample 2024 ⟨1709647629, 0⟩ (by decide +kernel) rfl cramped .mm
    (Or.inl rfl) (by decide)
  exact fun read => exact_.mp read ⟨[], _, rfl, .mm, _, rfl, _, rfl, by decide⟩

/-- A format without marks writes a text that it does not read. -/
theorem to_date_of_rr_digits : NaiveDateTime.year ⟨1709647629, 0⟩ = 2024 ∧
    format .sample ⟨1709647629, 0⟩ "RRMMDDHH24MISS" = "240305140709" ∧
    parse .sample 2024 "240305140709" "RRMMDDHH24MISS"
      = .error (.error ⟨1858, "a non-numeric character was found where a numeric was expected"⟩) := by
  decide +kernel

end MockOracle.Datetime
