import MockOracle.Eval.Datetime

/-!
# Formats made of keywords and punctuation

A format is written as a list of pieces: keywords in any letter case and punctuation marks. The
tokenizer, which tries longer keywords first, finds these pieces again even where nothing stands
between them, as long as a DD does not follow a DD.
-/

namespace MockOracle.Datetime

/-- The four ways to write the half of the day. -/
inductive Meridian where
  | am | pm | amDots | pmDots
  deriving DecidableEq, Repr

/-- The keywords of the formats that are read back. -/
inductive Keyword where
  | yyyy | rr | mm | mon | dd | hh24 | hh12 | mi | ss
  | meridian (mark : Meridian)
  deriving DecidableEq, Repr

namespace Keyword

/-- The spelling of a keyword. -/
def text : Keyword → List Char
  | yyyy => "YYYY".toList
  | rr => "RR".toList
  | mm => "MM".toList
  | mon => "MON".toList
  | dd => "DD".toList
  | hh24 => "HH24".toList
  | hh12 => "HH12".toList
  | mi => "MI".toList
  | ss => "SS".toList
  | meridian .am => "AM".toList
  | meridian .pm => "PM".toList
  | meridian .amDots => "A.M.".toList
  | meridian .pmDots => "P.M.".toList

/-- The element of a keyword. -/
def elem : Keyword → Elem
  | yyyy => .yyyy
  | rr => .rr
  | mm => .mm
  | mon => .mon
  | dd => .dd
  | hh24 => .hh24
  | hh12 => .hh12
  | mi => .mi
  | ss => .ss
  | meridian _ => .am

end Keyword

/-- A part of a format. -/
inductive Piece where
  | keyword (k : Keyword) (spelling : List Char) (spelled : spelling.map Char.toUpper = k.text)
  | mark (c : Char) (isMark : isPunctuation c = true)

namespace Piece

/-- The text of a piece of a format. -/
def text : Piece → List Char
  | keyword _ spelling _ => spelling
  | mark c _ => [c]

/-- The element of a piece of a format. -/
def elem : Piece → Elem
  | keyword k _ _ => k.elem
  | mark c _ => .literal [c]

/-- The keyword of a piece, if it is one. -/
def keyword? : Piece → Option Keyword
  | keyword k _ _ => some k
  | mark _ _ => none

end Piece

/-- The format with these pieces. -/
def formatText (pieces : List Piece) : List Char := pieces.flatMap Piece.text

/-- Its keywords in order. -/
def keywords (pieces : List Piece) : List Keyword := pieces.filterMap Piece.keyword?

/-- Its elements; the letter case of one is that of the text from it on. -/
def tokens (unicode : Unicode) : List Piece → List (Elem × Case)
  | [] => []
  | piece :: rest =>
      (piece.elem, caseOf unicode (formatText (piece :: rest))) :: tokens unicode rest

/-- The punctuation, mark by mark. -/
theorem isPunctuation_cases {c : Char} (isMark : isPunctuation c = true) :
    c = '-' ∨ c = '/' ∨ c = ',' ∨ c = '.' ∨ c = ';' ∨ c = ':' ∨ c = ' ' := by
  simpa only [isPunctuation, Bool.or_eq_true, decide_eq_true_eq, or_assoc] using isMark

/-- What follows a keyword does not make it a longer one. -/
def Separate (k : Keyword) (rest : List Char) : Prop :=
  match k with
  | .mon => (rest.map Char.toUpper).head? ≠ some 'T'
  | .dd => (rest.map Char.toUpper).head? ≠ some 'D'
  | .rr => (rest.map Char.toUpper).head? ≠ some 'R'
  | _ => True

/-- At a letter other than F the table decides. -/
theorem nextElem_letter {c : Char} {rest : List Char} (letter : c.toUpper.isUpper = true)
    (notF : c.toUpper ≠ 'F') :
    nextElem (c :: rest) =
      match table.find? fun entry => entry.1.isPrefixOf ((c :: rest).map Char.toUpper) with
      | some (keyword, e) => .ok (e, keyword.length)
      | none => .error badFormat := by
  have notQuote : c ≠ '"' := by
    rintro rfl
    exact absurd letter (by decide)
  have notMark : ¬ isPunctuation c = true := by
    intro isMark
    rcases isPunctuation_cases isMark with rfl | rfl | rfl | rfl | rfl | rfl | rfl <;>
      exact absurd letter (by decide)
  have notFraction : ¬ starts (c :: rest) "FF".toList = true := by
    intro fraction
    have first : ('F' == c.toUpper) = true := (Bool.and_eq_true_iff.mp fraction).1
    exact notF (eq_of_beq first).symm
  rw [nextElem, if_neg notQuote, if_neg notMark, if_neg notFraction]
  rfl

/-- The first keyword of the table that a text in capitals begins with. -/
theorem find_keyword {k : Keyword} {rest : List Char} (separate : Separate k rest) :
    table.find? (fun entry => entry.1.isPrefixOf (k.text ++ rest.map Char.toUpper))
      = some (k.text, k.elem) := by
  -- Of three keywords a longer one is tried first, and what follows decides.
  have differs {c d : Char} {after : List Char} (other : (c :: after).head? ≠ some d) :
      (d == c) = false := by
    rw [List.head?_cons] at other
    exact beq_eq_false_iff_ne.mpr fun same => other (congrArg some same.symm)
  cases k with
  | mon =>
      unfold Separate at separate
      generalize rest.map Char.toUpper = after at separate ⊢
      cases after with
      | nil => rfl
      | cons c after =>
          show (match 'T' == c && ['H'].isPrefixOf after with
            | true => some ("MONTH".toList, Elem.month)
            | false => some ("MON".toList, Elem.mon)) = _
          rw [differs separate]
          rfl
  | dd =>
      unfold Separate at separate
      generalize rest.map Char.toUpper = after at separate ⊢
      cases after with
      | nil => rfl
      | cons c after =>
          show (match 'D' == c && [].isPrefixOf after with
            | true => some ("DDD".toList, Elem.ddd)
            | false => some ("DD".toList, Elem.dd)) = _
          rw [differs separate]
          rfl
  | rr =>
      unfold Separate at separate
      generalize rest.map Char.toUpper = after at separate ⊢
      cases after with
      | nil => rfl
      | cons c after =>
          show (match 'R' == c && ['R'].isPrefixOf after with
            | true => some ("RRRR".toList, Elem.yyyy)
            | false => some ("RR".toList, Elem.rr)) = _
          rw [differs separate]
          rfl
  | yyyy | mm | hh24 | hh12 | mi | ss => rfl
  | meridian mark => cases mark <;> rfl

/-- Keywords begin with a capital, and each of D and R begins only one of them. -/
theorem head_text (k : Keyword) : ∃ c, k.text.head? = some c ∧ c.isUpper = true ∧ c ≠ 'F' ∧
    c ≠ 'T' ∧ (c = 'D' → k = .dd) ∧ (c = 'R' → k = .rr) := by
  cases k with
  | meridian mark => cases mark <;> exact ⟨_, rfl, by decide⟩
  | _ => exact ⟨_, rfl, by decide⟩

/-- A keyword is found at its start. -/
theorem nextElem_keyword {k : Keyword} {spelling rest : List Char}
    (spelled : spelling.map Char.toUpper = k.text) (separate : Separate k rest) :
    nextElem (spelling ++ rest) = .ok (k.elem, spelling.length) := by
  have length : spelling.length = k.text.length := by rw [← spelled, List.length_map]
  have upper : (spelling ++ rest).map Char.toUpper = k.text ++ rest.map Char.toUpper := by
    rw [List.map_append, spelled]
  obtain ⟨first, isFirst, letter, notF, -⟩ := head_text k
  cases spelling with
  | nil =>
      rw [← spelled] at isFirst
      cases isFirst
  | cons c more =>
      have same : c.toUpper = first := by
        rw [← spelled] at isFirst
        exact Option.some.inj isFirst
      subst same
      rw [List.cons_append, nextElem_letter letter notF, ← List.cons_append, upper,
        find_keyword separate, length]

/-- A mark is an element of its own. -/
theorem nextElem_mark {c : Char} (isMark : isPunctuation c = true) (rest : List Char) :
    nextElem (c :: rest) = .ok (.literal [c], 1) := by
  have notQuote : c ≠ '"' := by
    rintro rfl
    exact absurd isMark (by decide)
  rw [nextElem, if_neg notQuote, if_pos isMark]

/-- What a piece begins with, in capitals: no T, and D and R only where a keyword does. -/
theorem head_piece (piece : Piece) (rest : List Char) : ∃ c,
    ((piece.text ++ rest).map Char.toUpper).head? = some c ∧ c ≠ 'T' ∧
      (c = 'D' → piece.keyword? = some .dd) ∧ (c = 'R' → piece.keyword? = some .rr) := by
  cases piece with
  | keyword k spelling spelled =>
      obtain ⟨c, isFirst, -, -, notT, isD, isR⟩ := head_text k
      refine ⟨c, ?_, notT, fun d => congrArg some (isD d), fun r => congrArg some (isR r)⟩
      rw [Piece.text, List.map_append, spelled, List.head?_append, isFirst]
      rfl
  | mark c isMark =>
      have other : c.toUpper ≠ 'T' ∧ c.toUpper ≠ 'D' ∧ c.toUpper ≠ 'R' := by
        rcases isPunctuation_cases isMark with rfl | rfl | rfl | rfl | rfl | rfl | rfl <;> decide
      exact ⟨c.toUpper, rfl, other.1, (absurd · other.2.1), (absurd · other.2.2)⟩

/-- Where each keyword occurs once, none becomes a longer one. -/
theorem separate_of_nodup {k : Keyword} {rest : List Piece} (once : k ∉ keywords rest) :
    Separate k (formatText rest) := by
  cases rest with
  | nil => cases k <;> simp [Separate, formatText]
  | cons piece more =>
      obtain ⟨c, isFirst, notT, isD, isR⟩ := head_piece piece (formatText more)
      have first : ((formatText (piece :: more)).map Char.toUpper).head? = some c := isFirst
      have absent : piece.keyword? ≠ some k := by
        intro present
        exact once (List.mem_filterMap.mpr ⟨piece, List.mem_cons_self, present⟩)
      unfold Separate
      rw [first]
      split
      · exact fun same => notT (Option.some.inj same)
      · exact fun same => absent (isD (Option.some.inj same))
      · exact fun same => absent (isR (Option.some.inj same))
      · trivial

/-- Characters to be skipped are skipped. -/
theorem tokenizeFrom_skip (unicode : Unicode) (skipped rest : List Char) :
    tokenizeFrom unicode skipped.length (skipped ++ rest) = tokenizeFrom unicode 0 rest := by
  induction skipped with
  | nil => rfl
  | cons c skipped ih => exact ih

/-- One element is found, and the others after it. -/
theorem tokenizeFrom_next (unicode : Unicode) {text rest : List Char} {e : Elem}
    (nonempty : text ≠ []) (found : nextElem (text ++ rest) = .ok (e, text.length)) :
    tokenizeFrom unicode 0 (text ++ rest) = do
      return (e, caseOf unicode (text ++ rest)) :: (← tokenizeFrom unicode 0 rest) := by
  obtain ⟨c, more, rfl⟩ := List.exists_cons_of_ne_nil nonempty
  rw [List.cons_append] at found ⊢
  rw [tokenizeFrom, found]
  show (do
    return (e, caseOf unicode (c :: (more ++ rest)))
      :: (← tokenizeFrom unicode ((c :: more).length - 1) (more ++ rest))) = _
  rw [List.length_cons, Nat.add_sub_cancel, tokenizeFrom_skip]

/-- The tokenizer finds the pieces of a format. -/
theorem tokenize_formatText (unicode : Unicode) {pieces : List Piece}
    (once : (keywords pieces).Nodup) :
    tokenize unicode (formatText pieces) = .ok (tokens unicode pieces) := by
  unfold tokenize
  induction pieces with
  | nil => rfl
  | cons piece rest ih =>
      have found : nextElem (piece.text ++ formatText rest) = .ok (piece.elem, piece.text.length) := by
        cases piece with
        | keyword k spelling spelled =>
            have absent : k ∉ keywords rest := (List.nodup_cons.mp once).1
            exact nextElem_keyword spelled (separate_of_nodup absent)
        | mark c isMark => exact nextElem_mark isMark _
      have nonempty : piece.text ≠ [] := by
        cases piece with
        | keyword k spelling spelled =>
            obtain ⟨c, isFirst, -⟩ := head_text k
            rintro rfl
            rw [← spelled] at isFirst
            cases isFirst
        | mark c isMark => exact List.cons_ne_nil _ _
      have later : (keywords rest).Nodup := by
        cases piece with
        | keyword k spelling spelled => exact (List.nodup_cons.mp once).2
        | mark c isMark => exact once
      have here : formatText (piece :: rest) = piece.text ++ formatText rest := rfl
      rw [here, tokenizeFrom_next unicode nonempty found, ih later]
      rfl

end MockOracle.Datetime
