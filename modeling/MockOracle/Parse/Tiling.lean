import MockOracle.Parse.ByteLexing

/-!
# Tokens tile their text

The tokens that are found lie one behind the other in the text, with nothing but white space and
comments between them, and the text of a token is that token alone.
-/

namespace MockOracle.Lexer

open Semantics

variable {unicode : Unicode}

/-! ## A token alone -/

section Alone

variable {c : Char} {x y rest : List Char} {tok : Tok}

/-- Digits and a point are read again where the text ends behind them or behind a further part that
starts otherwise. -/
theorem readNumber_front {seen : Bool} (other : ∀ d ∈ y.head?, d.isDigit = false ∧ d ≠ '.')
    (read : readNumber seen (x ++ (y ++ rest)) = (x, y ++ rest)) :
    readNumber seen (x ++ y) = (x, y) := by
  induction x generalizing seen with
  | nil =>
      cases y with
      | nil => rfl
      | cons d y =>
          obtain ⟨noDigit, noPoint⟩ := other d rfl
          simp [readNumber, noDigit, noPoint]
  | cons c x ih =>
      have onward : (c.isDigit || (c = '.' && !seen && (x ++ (y ++ rest)).head? ≠ some '.')) = true := by
        by_contra stop
        rw [List.cons_append, readNumber, if_neg stop] at read
        cases (Prod.mk.inj read).1
      have here : (c.isDigit || (c = '.' && !seen && (x ++ y).head? ≠ some '.')) = true := by
        cases ends : x ++ y with
        | nil =>
            rw [Bool.or_eq_true] at onward ⊢
            refine onward.imp_right fun point => ?_
            rw [Bool.and_eq_true] at point ⊢
            exact ⟨point.1, rfl⟩
        | cons d more =>
            rw [← List.append_assoc, ends] at onward
            exact onward
      rw [List.cons_append, readNumber, if_pos onward] at read
      obtain ⟨number, left⟩ := Prod.mk.inj read
      have again := ih (Prod.ext (List.cons.inj number).2 left)
      rw [List.cons_append, readNumber, if_pos here, again]

/-- A number that starts with its point reads the digit after it. -/
theorem readNumber_of_point {d : Char} {text : List Char} (digit : d.isDigit = true) :
    ∃ more, (readNumber false ('.' :: d :: text)).1 = '.' :: d :: more := by
  have other : d ≠ '.' := by
    rintro rfl
    exact absurd digit (by decide)
  exact ⟨(readNumber true text).1, by simp [readNumber, other, digit]⟩

/-- An exponent is read the same without what follows it. -/
theorem readExponent_alone (read : readExponent (x ++ rest) = (x, rest)) :
    readExponent x = (x, []) := by
  cases x with
  | nil => rfl
  | cons c x =>
      rw [List.cons_append, readExponent_cons] at read
      split at read
      case isFalse => cases (Prod.mk.inj read).1
      case isTrue exponent =>
        obtain ⟨spelled, -⟩ := Prod.mk.inj read
        have spelled := (List.cons.inj spelled).2
        rw [Bool.and_eq_true] at exponent
        obtain ⟨mark, digits⟩ := exponent
        have run : ∀ d ∈ (readSign (x ++ rest)).2.takeWhile Char.isDigit, d.isDigit = true :=
          fun d member => List.mem_takeWhile_imp member
        obtain ⟨d, more, isDigits, digit⟩ := head_of_any digits
        have start : (readSign (x ++ rest)).2.takeWhile Char.isDigit =
            d :: more.takeWhile Char.isDigit := by
          rw [isDigits, List.takeWhile_cons_of_pos digit]
        have signed : readSign x =
            ((readSign (x ++ rest)).1, (readSign (x ++ rest)).2.takeWhile Char.isDigit) := by
          rcases readSign_eq (x ++ rest) with ⟨s, digits', sign, -, isSign⟩ | ⟨-, isSign⟩
          · rw [isSign] at spelled ⊢
            rw [← spelled]
            simp [readSign, sign]
          · rw [isSign] at spelled start ⊢
            have isDigits : x = d :: more.takeWhile Char.isDigit := spelled.symm.trans start
            rw [start]
            exact (congrArg readSign isDigits).trans (readSign_of_isDigit digit)
        rw [readExponent_cons, signed]
        simp only
        rw [List.takeWhile_eq_self_iff.mpr run, List.dropWhile_eq_nil_iff.mpr run, if_pos, spelled]
        rw [mark, start]
        exact digit

/-- An exponent starts with an e. -/
theorem head_readExponent {text : List Char} :
    ∀ d ∈ (readExponent text).1.head?, d = 'e' ∨ d = 'E' := by
  cases text with
  | nil => exact fun d member => by cases member
  | cons c text =>
      rw [readExponent_cons]
      split
      · next exponent =>
          rintro d ⟨⟩
          simpa using (Bool.and_eq_true_iff.mp exponent).1
      · exact fun d member => by cases member

/-- A number is read the same without what follows it. -/
theorem number_alone (number : StartsNumber c (x ++ rest))
    (read : word unicode c (x ++ rest) = .ok (tok, rest)) : word unicode c x = .ok (tok, []) := by
  obtain ⟨num, rest₁, readNum⟩ : ∃ num rest₁, readNumber false (c :: (x ++ rest)) = (num, rest₁) :=
    ⟨_, _, rfl⟩
  obtain ⟨exponent, rest₂, readExp⟩ : ∃ exponent rest₂, readExponent rest₁ = (exponent, rest₂) :=
    ⟨_, _, rfl⟩
  rw [word_number number, readNum] at read
  simp only [readExp] at read
  obtain ⟨rfl, rfl⟩ := Prod.mk.inj (Except.ok.inj read)
  obtain ⟨parts, -, -⟩ := readNumber_ahead readNum
  obtain ⟨rfl, -, -⟩ := readExponent_ahead readExp
  have spelled : c :: x = num ++ exponent := by
    rw [← List.append_assoc, ← List.cons_append] at parts
    exact List.append_cancel_right parts
  have other : ∀ d ∈ exponent.head?, d.isDigit = false ∧ d ≠ '.' := by
    intro d head
    have mark := head_readExponent d (by rwa [readExp])
    rcases mark with rfl | rfl <;> decide
  have starts : StartsNumber c x := by
    unfold StartsNumber at number ⊢
    rw [Bool.or_eq_true] at number ⊢
    refine number.imp_right fun point => ?_
    rw [Bool.and_eq_true, decide_eq_true_eq] at point ⊢
    obtain ⟨rfl, some_⟩ := point
    obtain ⟨d, more, isText, digit⟩ := head_of_any some_
    obtain ⟨digits, isNumber⟩ := @readNumber_of_point d more digit
    rw [← isText, readNum] at isNumber
    obtain rfl : num = '.' :: d :: digits := isNumber
    rw [(List.cons.inj spelled).2]
    exact ⟨rfl, digit⟩
  rw [parts] at readNum
  have again := readNumber_front other readNum
  rw [← spelled] at again
  rw [word_number starts, again]
  simp only [readExponent_alone readExp]

/-- A text that starts no number starts none without what follows it. -/
theorem not_startsNumber_alone (number : ¬ StartsNumber c (x ++ rest)) : ¬ StartsNumber c x := by
  unfold StartsNumber at number ⊢
  cases x with
  | nil =>
      simp only [Bool.or_eq_true, not_or] at number
      simpa using number.1
  | cons d x => exact number

/-- A text that starts no assignment starts none without what follows it. -/
theorem not_startsAssign_alone (assign : ¬ StartsAssign c (x ++ rest)) : ¬ StartsAssign c x := by
  intro starts
  refine assign (List.isPrefixOf_iff_prefix.mpr ?_)
  exact (List.isPrefixOf_iff_prefix.mp starts).trans (List.prefix_append (c :: x) rest)

/-- A run of characters is one where the text ends behind it. -/
theorem takeWhile_alone {p : Char → Bool} (whole : (x ++ rest).dropWhile p = rest) :
    (x ++ rest).takeWhile p = x ∧ x.takeWhile p = x ∧ x.dropWhile p = [] := by
  have run : (x ++ rest).takeWhile p = x := by
    have parts := List.takeWhile_append_dropWhile (p := p) (l := x ++ rest)
    rw [whole] at parts
    exact List.append_cancel_right parts
  have all : ∀ d ∈ x, p d = true := by
    rw [← run]
    exact fun d member => List.mem_takeWhile_imp member
  exact ⟨run, List.takeWhile_eq_self_iff.mpr all, List.dropWhile_eq_nil_iff.mpr all⟩

/-- An assignment is read the same without what follows it. -/
theorem assign_alone (number : ¬ StartsNumber c (x ++ rest)) (assign : StartsAssign c (x ++ rest))
    (read : word unicode c (x ++ rest) = .ok (tok, rest)) : word unicode c x = .ok (tok, []) := by
  obtain ⟨more, spelled⟩ := List.isPrefixOf_iff_prefix.mp assign
  obtain ⟨isColon, behind⟩ := List.cons.inj spelled
  rw [word_assign number assign] at read
  obtain ⟨rfl, left⟩ := Prod.mk.inj (Except.ok.inj read)
  have equals : x = ['='] := by
    rw [← behind] at left
    obtain rfl : more = rest := left
    exact (List.append_cancel_right behind).symm
  subst isColon equals
  rfl

/-- A bind variable is read the same without what follows it. -/
theorem bind_alone (number : ¬ StartsNumber c (x ++ rest)) (assign : ¬ StartsAssign c (x ++ rest))
    (colon : c = ':') (read : word unicode c (x ++ rest) = .ok (tok, rest)) :
    word unicode c x = .ok (tok, []) := by
  rw [word_bind number assign colon] at read
  split at read
  · cases read
  next some_ =>
  obtain ⟨rfl, left⟩ := Prod.mk.inj (Except.ok.inj read)
  obtain ⟨run, alone, ends⟩ := takeWhile_alone left
  rw [run] at some_ ⊢
  rw [word_bind (not_startsNumber_alone number) (not_startsAssign_alone assign) colon, alone, ends,
    if_neg some_]

/-- An identifier is read the same without what follows it. -/
theorem ident_alone (number : ¬ StartsNumber c (x ++ rest)) (assign : ¬ StartsAssign c (x ++ rest))
    (colon : c ≠ ':') (ident : StartsIdent c) (read : word unicode c (x ++ rest) = .ok (tok, rest)) :
    word unicode c x = .ok (tok, []) := by
  rw [word_ident number assign colon ident] at read
  obtain ⟨rfl, left⟩ := Prod.mk.inj (Except.ok.inj read)
  obtain ⟨run, alone, ends⟩ := takeWhile_alone (x := c :: x) left
  rw [List.cons_append] at run
  rw [word_ident (not_startsNumber_alone number) (not_startsAssign_alone assign) colon ident, alone,
    ends, run]

/-- A symbol is read the same without what follows it. -/
theorem symbol_alone (number : ¬ StartsNumber c (x ++ rest)) (assign : ¬ StartsAssign c (x ++ rest))
    (colon : c ≠ ':') (ident : ¬ StartsIdent c)
    (read : word unicode c (x ++ rest) = .ok (tok, rest)) : word unicode c x = .ok (tok, []) := by
  rw [word_symbol number assign colon ident] at read
  split at read
  case h_2 => cases read
  case h_1 s found =>
    obtain ⟨rfl, left⟩ := Prod.mk.inj (Except.ok.inj read)
    obtain ⟨starts, before, after, order, earlier⟩ := List.find?_eq_some_iff_append.mp found
    obtain ⟨more, form⟩ := List.isPrefixOf_iff_prefix.mp starts
    have spelled : s.toList = c :: x := by
      rw [← form, ← String.length_toList, List.drop_left] at left
      subst left
      exact List.append_cancel_right form
    have found' : symbols.find? (fun s => s.toList.isPrefixOf (c :: x)) = some s := by
      refine List.find?_eq_some_iff_append.mpr ⟨?_, before, after, order, fun s' member => ?_⟩
      · rw [spelled]
        exact List.isPrefixOf_iff_prefix.mpr List.prefix_rfl
      · have other := earlier s' member
        rw [Bool.not_eq_true'] at other ⊢
        rw [Bool.eq_false_iff] at other ⊢
        intro starts'
        exact other (List.isPrefixOf_iff_prefix.mpr
          ((List.isPrefixOf_iff_prefix.mp starts').trans (List.prefix_append (c :: x) rest)))
    rw [word_symbol (not_startsNumber_alone number) (not_startsAssign_alone assign) colon ident, found']
    simp only [← String.length_toList, spelled, List.drop_length]

/-- A word is read the same without what follows it. -/
theorem word_alone (read : word unicode c (x ++ rest) = .ok (tok, rest)) :
    word unicode c x = .ok (tok, []) := by
  by_cases number : StartsNumber c (x ++ rest)
  · exact number_alone number read
  by_cases assign : StartsAssign c (x ++ rest)
  · exact assign_alone number assign read
  by_cases colon : c = ':'
  · exact bind_alone number assign colon read
  by_cases ident : StartsIdent c
  · exact ident_alone number assign colon ident read
  · exact symbol_alone number assign colon ident read

/-- A string is read the same without what follows it. -/
theorem readString_alone {s : List Char} (read : readString (x ++ rest) = .ok (s, rest)) :
    readString x = .ok (s, []) := by
  -- A string has a quote, so that it is not read without its characters.
  have shorter {text t left : List Char} (read : readString text = .ok (t, left)) :
      left.length < text.length := by
    obtain ⟨y, rfl, quoted, -⟩ := readString_in_place read
    have := List.length_pos_of_ne_nil quoted.ne_nil
    rw [List.length_append]
    omega
  induction x using readString.induct generalizing s with
  | case1 x ih =>
      rw [List.cons_append, List.cons_append, readString] at read
      obtain ⟨⟨t, left⟩, read', same⟩ := map_eq_ok read
      obtain ⟨rfl, rfl⟩ := Prod.mk.inj same
      rw [readString, ih read']
      rfl
  | case2 x single =>
      by_cases double : ∃ more, x ++ rest = '\'' :: more
      · obtain ⟨more, isDouble⟩ := double
        rw [List.cons_append, isDouble, readString] at read
        obtain ⟨⟨t, left⟩, read', same⟩ := map_eq_ok read
        obtain ⟨rfl, rfl⟩ := Prod.mk.inj same
        have fewer := shorter read'
        cases x with
        | nil =>
            rw [List.nil_append] at isDouble
            rw [isDouble, List.length_cons] at fewer
            omega
        | cons d x => exact absurd (congrArg (· :: x) (List.cons.inj isDouble).1) (single x)
      · rw [List.cons_append, readString.eq_2 _ fun more same => double ⟨more, same⟩] at read
        obtain ⟨rfl, left⟩ := Prod.mk.inj (Except.ok.inj read)
        obtain rfl : x = [] := List.append_left_eq_self.mp left
        rfl
  | case3 c x _ other ih =>
      have plain : ∀ text, readString (c :: text) =
          (readString text).map fun read => (c :: read.1, read.2) :=
        fun text => readString.eq_3 c text (fun _ same _ => other same) other
      rw [List.cons_append, plain] at read
      obtain ⟨⟨t, left⟩, read', same⟩ := map_eq_ok read
      obtain ⟨rfl, rfl⟩ := Prod.mk.inj same
      rw [plain, ih read']
      rfl
  | case4 => exact absurd (shorter read) (lt_irrefl _)

/-- The text of a token is read as this token. -/
theorem lexeme_alone (read : lexeme unicode c (x ++ rest) = .ok (some tok, rest)) :
    lexeme unicode c x = .ok (some tok, []) := by
  have head {d : Char} (head : x.head? = some d) : (x ++ rest).head? = some d := by
    rw [List.head?_append, head]
    rfl
  by_cases blank : isAsciiWhitespace c = true
  · rw [lexeme_blank blank] at read
    cases read
  by_cases line : c = '-' ∧ (x ++ rest).head? = some '-'
  · obtain ⟨rfl, hyphen⟩ := line
    obtain ⟨more, isText⟩ := List.head?_eq_some_iff.mp hyphen
    rw [isText, lexeme_line] at read
    cases read
  by_cases block : c = '/' ∧ (x ++ rest).head? = some '*'
  · obtain ⟨rfl, star⟩ := block
    obtain ⟨more, isText⟩ := List.head?_eq_some_iff.mp star
    rw [isText, lexeme_block] at read
    cases read
  by_cases single : c = '\''
  · subst single
    rw [lexeme_string] at read ⊢
    obtain ⟨⟨t, left⟩, read', same⟩ := map_eq_ok read
    obtain ⟨isTok, rfl⟩ := Prod.mk.inj same
    rw [readString_alone read', ← isTok]
    rfl
  by_cases double : c = '"'
  · subst double
    rw [lexeme_quotedIdent] at read ⊢
    rcases Decimal.cut_spec (p := fun c => decide (c = '"')) (x ++ rest) with
      ⟨equal, -⟩ | ⟨name, d, left, isText, isQuote, plain, equal⟩
    · rw [equal] at read
      cases read
    · rw [equal] at read
      obtain rfl := of_decide_eq_true isQuote
      cases name with
      | nil => cases read
      | cons first name =>
          obtain ⟨isTok, rfl⟩ := Prod.mk.inj (Except.ok.inj read)
          rw [List.append_cons] at isText
          rw [List.append_cancel_right isText, Decimal.cut_append plain (by decide)]
          exact congrArg (fun tok => Except.ok (tok, [])) isTok
  · rw [Bool.not_eq_true] at blank
    rw [lexeme_word blank line block (not_or.mpr ⟨single, double⟩)] at read
    obtain ⟨⟨t, left⟩, read', same⟩ := map_eq_ok read
    obtain ⟨isTok, rfl⟩ := Prod.mk.inj same
    rw [lexeme_word blank (fun both => line ⟨both.1, head both.2⟩)
      (fun both => block ⟨both.1, head both.2⟩) (not_or.mpr ⟨single, double⟩), word_alone read',
      ← isTok]
    rfl

end Alone

/-! ## Blanks -/

/-- White space and comments. Only what is last in its text may end within a comment. -/
inductive Blanks (last : Prop) : List Char → Prop
  | nil : Blanks last []
  | space {c : Char} {rest : List Char} (blank : isAsciiWhitespace c = true)
      (more : Blanks last rest) : Blanks last (c :: rest)
  | line {body rest : List Char} (oneLine : '\n' ∉ body)
      (ends : rest.head? = some '\n' ∨ rest = [] ∧ last) (more : Blanks last rest) :
      Blanks last ('-' :: '-' :: (body ++ rest))
  | block {body rest : List Char} (opened : ¬ "*/".toList <:+: body) (more : Blanks last rest) :
      Blanks last ('/' :: '*' :: (body ++ '*' :: '/' :: rest))
  | unclosed {body : List Char} (opened : ¬ "*/".toList <:+: body) (isLast : last) :
      Blanks last ('/' :: '*' :: body)

/-- The text between two offsets is white space and comments. -/
def Gap (sql : List Char) (last : Prop) (i j : Nat) : Prop :=
  ∃ text, Text.slice sql i j = some text ∧ Blanks last text

/-- From an offset on, gaps lie in front of the tokens and behind them. -/
def Gaps (sql : List Char) : Nat → List Token → Prop
  | i, [] => Gap sql True i (Text.size sql)
  | i, t :: tokens => Gap sql False i t.start ∧ Gaps sql t.stop tokens

/-- The text of the token, on its own, is that one token. -/
def Alone (unicode : Unicode) (sql : List Char) (t : Token) : Prop :=
  ∃ text, Text.slice sql t.start t.stop = some text ∧
    ByteLexer.tokenize unicode (String.ofList text) = .ok [⟨t.tok, 0, Text.size text⟩]

/-- The tokens are in their places in the text, in order, apart, and with gaps between them. -/
structure Tiling (unicode : Unicode) (sql : List Char) (tokens : List Token) : Prop where
  within : ∀ t ∈ tokens, t.start < t.stop ∧ t.stop ≤ Text.size sql
  ordered : tokens.Pairwise fun t u => t.stop ≤ u.start
  gaps : Gaps sql 0 tokens
  alone : ∀ t ∈ tokens, Alone unicode sql t

/-! ## The tokens of a text -/

/-- The text is a gap and a token and the like, up to a gap at its end. -/
inductive Laid (unicode : Unicode) : Nat → List Char → List Token → Prop
  | done {i : Nat} {text : List Char} (blanks : Blanks True text) : Laid unicode i text []
  | token {i : Nat} {gap x rest : List Char} {c : Char} {tok : Tok} {tokens : List Token}
      (blanks : Blanks False gap) (read : lexeme unicode c (x ++ rest) = .ok (some tok, rest))
      (further : Laid unicode (i + Text.size gap + Text.size (c :: x)) rest tokens) :
      Laid unicode i (gap ++ (c :: x ++ rest))
        (⟨tok, i + Text.size gap, i + Text.size gap + Text.size (c :: x)⟩ :: tokens)

namespace Laid

variable {i : Nat} {sql x text rest : List Char} {tokens : List Token}

/-- Blanks in front of the text. -/
theorem extend
    (front : ∀ last gap, (rest.head? = some '\n' → gap.head? = some '\n') →
      (rest = [] → gap = [] ∧ last) → Blanks last gap → Blanks last (x ++ gap))
    (laid : Laid unicode (i + Text.size x) rest tokens) : Laid unicode i (x ++ rest) tokens := by
  cases laid with
  | done blanks => exact .done (front True rest id (fun none => ⟨none, trivial⟩) blanks)
  | @token _ gap y rest c tok tokens blanks read further =>
      have newline (head : (gap ++ (c :: y ++ rest)).head? = some '\n') : gap.head? = some '\n' := by
        cases gap with
        | nil =>
            obtain rfl : c = '\n' := Option.some.inj head
            rw [lexeme_blank (by decide)] at read
            cases read
        | cons d gap => exact head
      have whole := front False gap newline (by simp) blanks
      have moved : i + Text.size x + Text.size gap = i + Text.size (x ++ gap) := by
        rw [Text.size_append, Nat.add_assoc]
      rw [moved] at further ⊢
      rw [← List.append_assoc]
      exact .token whole read further

end Laid

/-- White space and comments are blanks in front of what follows. -/
theorem laid_of_blank {c : Char} {text rest : List Char}
    (read : lexeme unicode c text = .ok (none, rest)) :
    ∃ x, c :: text = x ++ rest ∧ ∀ i tokens,
      Laid unicode (i + Text.size x) rest tokens → Laid unicode i (x ++ rest) tokens := by
  generalize found : (none : Option Tok) = tok at read
  cases lexeme_cases read with
  | blank here =>
      exact ⟨[c], rfl, fun _ _ => Laid.extend fun _ _ _ _ more => .space here more⟩
  | @line text =>
      refine ⟨'-' :: '-' :: text.takeWhile (· ≠ '\n'), ?_,
        fun _ _ => Laid.extend fun last gap newline ends more => ?_⟩
      · rw [List.cons_append, List.cons_append, List.takeWhile_append_dropWhile]
      · refine .line (fun member => ?_) ?_ more
        · simpa using List.mem_takeWhile_imp member
        · cases left : text.dropWhile (· ≠ '\n') with
          | nil => exact Or.inr (ends left)
          | cons d rest =>
              have stops := List.head?_dropWhile_not (· ≠ '\n') text
              rw [left] at stops newline
              have isNewline : d = '\n' := by simpa using stops
              exact Or.inl (newline (congrArg some isNewline))
  | @block text =>
      rcases ByteLexer.afterComment_eq text with ⟨opened, ends, -⟩ | ⟨body, rest, rfl, opened, ends, -⟩
      · rw [ends]
        refine ⟨'/' :: '*' :: text, (List.append_nil _).symm,
          fun _ _ => Laid.extend fun last gap _ atEnd _ => ?_⟩
        obtain ⟨rfl, isLast⟩ := atEnd rfl
        rw [List.append_nil]
        exact .unclosed opened isLast
      · rw [ends]
        refine ⟨'/' :: '*' :: (body ++ ['*', '/']), by simp,
          fun _ _ => Laid.extend fun last gap _ _ more => ?_⟩
        have closed := Blanks.block opened more
        simpa using closed
  | quoted => cases found
  | word => cases found

/-- A text that is read to its end is laid out. -/
theorem laid_of_scans {sql text : List Char} {i : Nat} {tokens final : List Token}
    (run : Scans (step unicode sql) tokens text final) (place : ByteLexer.At sql text i) :
    ∃ found, final = tokens ++ found ∧ Laid unicode i text found := by
  induction run generalizing i with
  | done tokens => exact ⟨[], (List.append_nil _).symm, .done .nil⟩
  | @step tokens tokens' final c text rest' read further ih =>
      obtain ⟨⟨tok, rest⟩, found, same⟩ := sequential_except _ read
      cases tok with
      | none =>
          obtain ⟨rfl, rfl⟩ := Prod.mk.inj (Except.ok.inj same)
          obtain ⟨x, isText, laid⟩ := laid_of_blank found
          rw [isText] at place ⊢
          obtain ⟨more, isFinal, isLaid⟩ := ih place.advance
          exact ⟨more, isFinal, laid i more isLaid⟩
      | some tok =>
          obtain ⟨rfl, rfl⟩ := Prod.mk.inj (Except.ok.inj same)
          obtain ⟨x, rfl⟩ : ∃ x, text = x ++ rest := by
            generalize isTok : some tok = tok' at found
            cases lexeme_cases found with
            | blank => cases isTok
            | line => cases isTok
            | block => cases isTok
            | @quoted _ x => exact ⟨x, rfl⟩
            | @word _ x => exact ⟨x, rfl⟩
          have stop : ByteLexer.At sql rest (i + Text.size (c :: x)) :=
            ByteLexer.At.advance (x := c :: x) place
          obtain ⟨more, isFinal, laid⟩ := ih stop
          refine ⟨⟨tok, i, i + Text.size (c :: x)⟩ :: more, ?_, ?_⟩
          · rw [isFinal, ← place.eq_sub, ← stop.eq_sub, List.append_assoc]
            rfl
          · exact .token .nil found laid

/-- A text that is one lexeme is one token. -/
theorem tokenize_alone {c : Char} {x : List Char} {tok : Tok}
    (read : lexeme unicode c x = .ok (some tok, [])) :
    ByteLexer.tokenize unicode (String.ofList (c :: x)) = .ok [⟨tok, 0, Text.size (c :: x)⟩] := by
  have run : Scans (step unicode (c :: x)) [] (c :: x) [⟨tok, 0, Text.size (c :: x)⟩] := by
    refine .step ?_ (.done _)
    rw [step, read]
    simp only [bind, Except.bind, Nat.sub_self, Text.size_nil, Nat.sub_zero, List.nil_append]
  have found : MockOracle.tokenize unicode (String.ofList (c :: x)) =
      .ok [⟨tok, 0, Text.size (c :: x)⟩] :=
    tokenize_eq_ok_iff.mpr (by rwa [String.toList_ofList])
  rw [ByteLexer.tokenize_eq, found]
  rfl

/-- What is laid out behind a place is in order behind it. -/
theorem Laid.tiles {sql text : List Char} {i : Nat} {tokens : List Token}
    (laid : Laid unicode i text tokens) (place : ByteLexer.At sql text i) :
    Gaps sql i tokens ∧ tokens.Pairwise (fun t u => t.stop ≤ u.start) ∧
      ∀ t ∈ tokens, i ≤ t.start ∧ (t.start < t.stop ∧ t.stop ≤ Text.size sql) ∧
        Alone unicode sql t := by
  have inside {text : List Char} {i : Nat} (place : ByteLexer.At sql text i) :
      i + Text.size text = Text.size sql := by
    obtain ⟨before, rfl, rfl⟩ := place
    exact (Text.size_append _ _).symm
  induction laid with
  | @done i text blanks =>
      refine ⟨⟨text, ?_, blanks⟩, .nil, List.forall_mem_nil _⟩
      have whole : ByteLexer.At sql (text ++ []) i := by rwa [List.append_nil]
      rw [← inside place]
      exact whole.slice
  | @token i gap x rest c tok tokens blanks read _ ih =>
      have start := place.advance
      obtain ⟨gaps, ordered, each⟩ := ih start.advance
      have positive : 0 < Text.size (c :: x) := by
        have := c.utf8Size_pos
        rw [Text.size_cons]
        omega
      refine ⟨⟨⟨gap, place.slice, blanks⟩, gaps⟩, ?_, ?_⟩
      · exact .cons (fun u member => (each u member).1) ordered
      · refine List.forall_mem_cons.mpr ⟨⟨Nat.le_add_right _ _, ⟨by simp only; omega, ?_⟩, ?_⟩, ?_⟩
        · rw [← inside start.advance]
          exact Nat.le_add_right _ _
        · exact ⟨c :: x, start.slice, tokenize_alone (lexeme_alone read)⟩
        · intro u member
          obtain ⟨behind, bounds, alone⟩ := each u member
          exact ⟨by omega, bounds, alone⟩

/-- On every text the lexer over bytes ends without a panic, with an error of its own or with tokens
that tile the text. -/
theorem tokenize_tiles (unicode : Unicode) (sql : String) :
    (∃ e, ByteLexer.tokenize unicode sql = .error (.error e)) ∨
      ∃ tokens, ByteLexer.tokenize unicode sql = .ok tokens ∧ Tiling unicode sql.toList tokens := by
  rw [ByteLexer.tokenize_eq]
  cases found : MockOracle.tokenize unicode sql with
  | error e => exact Or.inl ⟨e, rfl⟩
  | ok tokens =>
      obtain ⟨_, rfl, laid⟩ := laid_of_scans (tokenize_eq_ok_iff.mp found) (ByteLexer.At.start _)
      obtain ⟨gaps, ordered, each⟩ := laid.tiles (ByteLexer.At.start _)
      exact Or.inr ⟨_, rfl, {
        within := fun t member => (each t member).2.1
        ordered := ordered
        gaps := gaps
        alone := fun t member => (each t member).2.2 }⟩

end MockOracle.Lexer
