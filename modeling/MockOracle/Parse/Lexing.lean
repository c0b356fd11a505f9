import MockOracle.Eval.StoreValue
import MockOracle.Parse.Lexer

/-!
# Lexemes in place

A token is read from the characters of its own and a look at those behind them. It is read again in
front of any other text that goes on alike, up to a place where white space or a comment separates
the tokens or the statement ends.
-/

namespace MockOracle.Lexer

open Semantics

/-! ## Texts that go on alike -/

/-- The text is at its end, at white space, a comment or the end of a statement. -/
def Stop : List Char → Prop
  | [] => True
  | c :: rest => isAsciiWhitespace c = true ∨ c = ';' ∨ (c = '-' ∧ rest.head? = some '-') ∨
      (c = '/' ∧ rest.head? = some '*')

/-- The text is at its end or at white space. -/
def Blank (text : List Char) : Prop := ∀ c ∈ text.head?, isAsciiWhitespace c = true

/-- The second text goes on as the first one to a place where that one stops and it is blank. -/
inductive Ahead : List Char → List Char → Prop
  | stop {rest b : List Char} (stops : Stop rest) (blank : Blank b) : Ahead rest b
  | same {rest b : List Char} (c : Char) (further : Ahead rest b) : Ahead (c :: rest) (c :: b)

namespace Ahead

variable {rest b : List Char} {c : Char}

/-- What is read in both texts can be put back in front of both. -/
theorem append (x : List Char) (ahead : Ahead rest b) : Ahead (x ++ rest) (x ++ b) := by
  induction x with
  | nil => exact ahead
  | cons c x ih => exact .same c ih

/-- What is no blank in the second text is in the first. -/
theorem of_cons (ahead : Ahead rest (c :: b)) (solid : isAsciiWhitespace c = false) :
    ∃ rest', rest = c :: rest' ∧ Ahead rest' b := by
  cases ahead with
  | stop _ blank =>
      rw [blank c rfl] at solid
      cases solid
  | same _ further => exact ⟨_, rfl, further⟩

/-- The texts start alike, unless the second one stops at once. -/
theorem of_head (ahead : Ahead rest b) (head : b.head? = some c)
    (solid : isAsciiWhitespace c = false) : rest.head? = some c := by
  cases b with
  | nil => cases head
  | cons d b =>
      obtain rfl := Option.some.inj head
      obtain ⟨rest', rfl, -⟩ := ahead.of_cons solid
      rfl

/-- What is no stop in the first text is in the second. -/
theorem of_not_stop (ahead : Ahead (c :: rest) b) (goesOn : ¬ Stop (c :: rest)) :
    ∃ b', b = c :: b' ∧ Ahead rest b' := by
  cases ahead with
  | stop stops _ => exact absurd stops goesOn
  | same _ further => exact ⟨_, rfl, further⟩

end Ahead

/-- A character that is no white space and starts no comment and no end of a statement is no stop.
-/
theorem not_stop_of_ne {c : Char} {rest : List Char} (solid : isAsciiWhitespace c = false)
    (other : c ≠ ';' ∧ c ≠ '-' ∧ c ≠ '/') : ¬ Stop (c :: rest) := by
  rintro (blank | same | ⟨same, -⟩ | ⟨same, -⟩)
  · rw [solid] at blank
    cases blank
  exacts [other.1 same, other.2.1 same, other.2.2 same]

/-- Nothing stops at a digit. -/
theorem not_stop_of_isDigit {c : Char} {rest : List Char} (digit : c.isDigit = true) :
    ¬ Stop (c :: rest) := by
  refine not_stop_of_ne ?_ ⟨?_, ?_, ?_⟩
  · rw [Bool.eq_false_iff]
    intro blank
    simp only [isAsciiWhitespace, Bool.or_eq_true, decide_eq_true_eq] at blank
    rcases blank with (((rfl | rfl) | rfl) | rfl) | rfl <;> exact absurd digit (by decide)
  all_goals
    rintro rfl
    exact absurd digit (by decide)

/-- A mark that is no stop is ahead in both texts or in neither. -/
theorem Ahead.head_iff {rest b : List Char} {c : Char} (ahead : Ahead rest b)
    (solid : isAsciiWhitespace c = false) (other : c ≠ ';' ∧ c ≠ '-' ∧ c ≠ '/') :
    rest.head? = some c ↔ b.head? = some c := by
  constructor
  · intro head
    cases rest with
    | nil => cases head
    | cons d rest =>
        obtain rfl := Option.some.inj head
        obtain ⟨b', rfl, -⟩ := ahead.of_not_stop (not_stop_of_ne solid other)
        rfl
  · exact fun head => ahead.of_head head solid

/-! ## Characters of tokens -/

/-- A character of tokens that is neither white space nor a mark of its own for scripts. -/
def isPlain (c : Char) : Bool :=
  !isWhitespace c && !(c = '\'' || c = '"' || c = ';' || c = '/' || c = '-')

/-- Plain characters, and hyphens that begin no comment with what follows. -/
def Plain : List Char → List Char → Prop
  | [], _ => True
  | c :: x, rest => (isPlain c = true ∨ c = '-' ∧ (x ++ rest).head? ≠ some '-') ∧ Plain x rest

/-- Plain characters are plain in front of any text. -/
theorem plain_of_all {x : List Char} (rest : List Char) (all : ∀ c ∈ x, isPlain c = true) :
    Plain x rest := by
  induction x with
  | nil => trivial
  | cons c x ih =>
      rw [List.forall_mem_cons] at all
      exact ⟨Or.inl all.1, ih all.2⟩

/-- Plain text in front of plain text is plain. -/
theorem Plain.append {x y rest : List Char} (first : Plain x (y ++ rest)) (second : Plain y rest) :
    Plain (x ++ y) rest := by
  induction x with
  | nil => exact second
  | cons c x ih => exact ⟨by simpa using first.1, ih first.2⟩

/-- There is no white space in plain text. -/
theorem Plain.solid {x rest : List Char} (plain : Plain x rest) :
    ∀ c ∈ x, isWhitespace c = false := by
  induction x with
  | nil => exact List.forall_mem_nil _
  | cons c x ih =>
      refine List.forall_mem_cons.mpr ⟨?_, ih plain.2⟩
      rcases plain.1 with here | ⟨rfl, -⟩
      · simp only [isPlain, Bool.and_eq_true, Bool.not_eq_true'] at here
        exact here.1
      · decide

/-- Plain text does not end in white space. -/
theorem Plain.last {x rest : List Char} (plain : Plain x rest) :
    ∀ c ∈ x.getLast?, isWhitespace c = false :=
  fun c isLast => plain.solid c (List.mem_of_getLast? isLast)

/-- A plain character is no white space of ASCII. -/
theorem isAsciiWhitespace_of_isPlain {c : Char} (plain : isPlain c = true) :
    isAsciiWhitespace c = false := by
  rw [Bool.eq_false_iff]
  intro blank
  simp only [isAsciiWhitespace, Bool.or_eq_true, decide_eq_true_eq] at blank
  rcases blank with (((rfl | rfl) | rfl) | rfl) | rfl <;> exact absurd plain (by decide)

/-- Letters and digits are plain. -/
theorem isPlain_of_isAlphanum {c : Char} (alphanum : c.isAlphanum = true) : isPlain c = true := by
  have range : 48 ≤ c.toNat ∧ c.toNat ≤ 57 ∨ 65 ≤ c.toNat ∧ c.toNat ≤ 90 ∨
      97 ≤ c.toNat ∧ c.toNat ≤ 122 := by
    simp only [Char.isAlphanum, Char.isAlpha, Char.isUpper, Char.isLower, Char.isDigit,
      Bool.or_eq_true, Bool.and_eq_true, decide_eq_true_eq] at alphanum
    rcases alphanum with (⟨low, high⟩ | ⟨low, high⟩) | ⟨low, high⟩
    exacts [Or.inr (Or.inl ⟨low, high⟩), Or.inr (Or.inr ⟨low, high⟩), Or.inl ⟨low, high⟩]
  have solid : isWhitespace c = false := by
    rw [Bool.eq_false_iff]
    intro blank
    simp only [isWhitespace, Bool.or_eq_true, Bool.and_eq_true, decide_eq_true_eq] at blank
    omega
  have other : ¬ (c = '\'' ∨ c = '"' ∨ c = ';' ∨ c = '/' ∨ c = '-') := by
    rintro (rfl | rfl | rfl | rfl | rfl) <;> revert range <;> decide
  simpa [isPlain, solid, and_assoc] using other

/-- Digits are plain. -/
theorem isPlain_of_isDigit {c : Char} (digit : c.isDigit = true) : isPlain c = true :=
  isPlain_of_isAlphanum (by simp [Char.isAlphanum, digit])

/-- The ASCII characters of names are plain. -/
theorem isPlain_of_isIdentChar {c : Char} (ascii : c.toNat < 128) (ident : isIdentChar c = true) :
    isPlain c = true := by
  simp only [isIdentChar, Bool.or_eq_true, decide_eq_true_eq] at ident
  rcases ident with (((alphanum | rfl) | rfl) | rfl) | wide
  · exact isPlain_of_isAlphanum alphanum
  · decide
  · decide
  · decide
  · omega

/-- The characters of bind names are plain. -/
theorem isPlain_of_isBindChar {c : Char} (bind : isBindChar c = true) : isPlain c = true := by
  simp only [isBindChar, Bool.or_eq_true, decide_eq_true_eq] at bind
  rcases bind with alphanum | rfl
  · exact isPlain_of_isAlphanum alphanum
  · decide

/-! ## Reading the parts of a token in place -/

section Parts

variable {text x rest b : List Char}

/-- A run of characters of one kind ends where it ended. -/
theorem run_ahead {p : Char → Bool} (solid : ∀ c, p c = true → isAsciiWhitespace c = false)
    (ahead : Ahead (text.dropWhile p) b) :
    (text.takeWhile p ++ b).takeWhile p = text.takeWhile p ∧
      (text.takeWhile p ++ b).dropWhile p = b := by
  have run : ∀ c ∈ text.takeWhile p, p c = true := fun c member => List.mem_takeWhile_imp member
  have ends : b.takeWhile p = [] ∧ b.dropWhile p = b := by
    cases b with
    | nil => exact ⟨rfl, rfl⟩
    | cons c b =>
        have other : p c = false := by
          rw [Bool.eq_false_iff]
          intro more
          obtain ⟨rest', same, -⟩ := ahead.of_cons (solid c more)
          have head := List.head?_dropWhile_not p text
          rw [same, List.head?_cons] at head
          simp [more] at head
        simp [other]
  constructor
  · rw [List.takeWhile_append_of_pos run, ends.1, List.append_nil]
  · rw [List.dropWhile_append_of_pos run, ends.2]

/-- Characters that are plain are no white space of ASCII. -/
theorem solid_of_isPlain {p : Char → Bool} (plain : ∀ c, p c = true → isPlain c = true) (c : Char)
    (here : p c = true) : isAsciiWhitespace c = false :=
  isAsciiWhitespace_of_isPlain (plain c here)

/-- No number is read at white space. -/
theorem readNumber_of_blank {seen : Bool} (blank : Blank b) : readNumber seen b = ([], b) := by
  cases b with
  | nil => rfl
  | cons c b =>
      have here := blank c rfl
      have other : c.isDigit = false ∧ c ≠ '.' := by
        simp only [isAsciiWhitespace, Bool.or_eq_true, decide_eq_true_eq] at here
        rcases here with (((rfl | rfl) | rfl) | rfl) | rfl <;> decide
      simp [readNumber, other]

/-- The characters of names are no white space of ASCII. -/
theorem solid_of_isIdentChar (c : Char) (ident : isIdentChar c = true) :
    isAsciiWhitespace c = false := by
  rw [Bool.eq_false_iff]
  intro blank
  simp only [isAsciiWhitespace, Bool.or_eq_true, decide_eq_true_eq] at blank
  rcases blank with (((rfl | rfl) | rfl) | rfl) | rfl <;> exact absurd ident (by decide)

/-- Digits and a point are read again in front of a text that goes on alike. -/
theorem readNumber_ahead {seen : Bool} (read : readNumber seen text = (x, rest)) :
    text = x ++ rest ∧ (∀ c ∈ x, isPlain c = true) ∧
      ∀ b, Ahead rest b → readNumber seen (x ++ b) = (x, b) := by
  induction text generalizing seen x with
  | nil =>
      obtain ⟨rfl, rfl⟩ := Prod.mk.inj read
      refine ⟨rfl, List.forall_mem_nil _, fun b ahead => readNumber_of_blank ?_⟩
      cases ahead with
      | stop _ blank => exact blank
  | cons c text ih =>
      have point {text' : List Char} (ahead : Ahead text text') :
          (c.isDigit || (c = '.' && !seen && text'.head? ≠ some '.')) =
            (c.isDigit || (c = '.' && !seen && text.head? ≠ some '.')) := by
        simp only [ne_eq, ahead.head_iff (c := '.') (by decide) (by decide)]
      by_cases more : (c.isDigit || (c = '.' && !seen && text.head? ≠ some '.')) = true
      · rw [readNumber, if_pos more] at read
        obtain ⟨rfl, rfl⟩ := Prod.mk.inj read
        obtain ⟨parts, plain, again⟩ := ih rfl
        refine ⟨?_, ?_, fun b ahead => ?_⟩
        · rw [List.cons_append, ← parts]
        · refine List.forall_mem_cons.mpr ⟨?_, plain⟩
          rw [Bool.or_eq_true] at more
          rcases more with digit | point
          · exact isPlain_of_isDigit digit
          · simp only [Bool.and_eq_true, decide_eq_true_eq] at point
            rw [point.1.1]
            decide
        · have onward := ahead.append (readNumber (seen || c = '.') text).1
          rw [← parts] at onward
          rw [List.cons_append, readNumber, if_pos ((point onward).trans more), again b ahead]
      · rw [readNumber, if_neg more] at read
        obtain ⟨rfl, rfl⟩ := Prod.mk.inj read
        refine ⟨rfl, List.forall_mem_nil _, fun b ahead => ?_⟩
        cases ahead with
        | stop _ blank => exact readNumber_of_blank blank
        | same _ further =>
            rw [List.nil_append, readNumber, if_neg (by rwa [point further])]

/-- A sign is read if there is one, and nothing otherwise. -/
theorem readSign_eq (text : List Char) :
    (∃ c digits, (c = '+' ∨ c = '-') ∧ text = c :: digits ∧ readSign text = ([c], digits)) ∨
      (∀ c ∈ text.head?, ¬ (c = '+' ∨ c = '-')) ∧ readSign text = ([], text) := by
  cases text with
  | nil => exact Or.inr ⟨by simp, rfl⟩
  | cons c digits =>
      by_cases sign : c = '+' ∨ c = '-'
      · exact Or.inl ⟨c, digits, sign, rfl, by simp [readSign, sign]⟩
      · exact Or.inr ⟨by simpa using sign, by simp [readSign, sign]⟩

/-- No sign is read at a digit. -/
theorem readSign_of_isDigit {c : Char} {digits : List Char} (digit : c.isDigit = true) :
    readSign (c :: digits) = ([], c :: digits) := by
  have other : ¬ (c = '+' ∨ c = '-') := by rintro (rfl | rfl) <;> exact absurd digit (by decide)
  simp [readSign, other]

/-- A text whose first character has a property has a first character. -/
theorem head_of_any {p : Char → Bool} (some_ : text.head?.any p = true) :
    ∃ c rest, text = c :: rest ∧ p c = true := by
  cases text with
  | nil => cases some_
  | cons c rest => exact ⟨c, rest, rfl, some_⟩

/-- Digits after a sign are in both texts if they are in the second. -/
theorem exponent_ahead (ahead : Ahead text b)
    (digits : (readSign b).2.head?.any Char.isDigit = true) :
    (readSign text).2.head?.any Char.isDigit = true := by
  rcases readSign_eq b with ⟨c, more, sign, rfl, read⟩ | ⟨-, read⟩
  · have solid : isAsciiWhitespace c = false := by rcases sign with rfl | rfl <;> decide
    obtain ⟨text, rfl, further⟩ := ahead.of_cons solid
    rw [read] at digits
    obtain ⟨d, more, rfl, digit⟩ := head_of_any digits
    obtain ⟨text, rfl, -⟩ :=
      further.of_cons (isAsciiWhitespace_of_isPlain (isPlain_of_isDigit digit))
    simp [readSign, sign, digit]
  · rw [read] at digits
    obtain ⟨d, more, rfl, digit⟩ := head_of_any digits
    obtain ⟨text, rfl, -⟩ := ahead.of_cons (isAsciiWhitespace_of_isPlain (isPlain_of_isDigit digit))
    rw [readSign_of_isDigit digit]
    exact digit

/-- An exponent is an E with a sign and digits, and is read only if there is a digit. -/
theorem readExponent_cons (c : Char) (text : List Char) :
    readExponent (c :: text) =
      if ((c = 'e' || c = 'E') && (readSign text).2.head?.any Char.isDigit) = true then
        (c :: ((readSign text).1 ++ (readSign text).2.takeWhile Char.isDigit),
          (readSign text).2.dropWhile Char.isDigit)
      else ([], c :: text) := rfl

/-- No exponent is read at white space. -/
theorem readExponent_of_blank (blank : Blank b) : readExponent b = ([], b) := by
  cases b with
  | nil => rfl
  | cons c b =>
      have here := blank c rfl
      have other : c ≠ 'e' ∧ c ≠ 'E' := by
        simp only [isAsciiWhitespace, Bool.or_eq_true, decide_eq_true_eq] at here
        rcases here with (((rfl | rfl) | rfl) | rfl) | rfl <;> decide
      simp [readExponent, other]

/-- An exponent is read again in front of a text that goes on alike. -/
theorem readExponent_ahead (read : readExponent text = (x, rest)) :
    text = x ++ rest ∧ Plain x rest ∧ ∀ b, Ahead rest b → readExponent (x ++ b) = (x, b) := by
  cases text with
  | nil =>
      obtain ⟨rfl, rfl⟩ := Prod.mk.inj read
      refine ⟨rfl, trivial, fun b ahead => readExponent_of_blank ?_⟩
      cases ahead with
      | stop _ blank => exact blank
  | cons c text =>
      by_cases exponent : ((c = 'e' || c = 'E') &&
          (readSign text).2.head?.any Char.isDigit) = true
      · rw [readExponent_cons, if_pos exponent] at read
        obtain ⟨rfl, rfl⟩ := Prod.mk.inj read
        rw [Bool.and_eq_true] at exponent
        obtain ⟨isMark, digits⟩ := exponent
        have markPlain : isPlain c = true := by
          rw [Bool.or_eq_true, decide_eq_true_eq, decide_eq_true_eq] at isMark
          rcases isMark with rfl | rfl <;> decide
        obtain ⟨d, more, isDigits, digit⟩ := head_of_any digits
        have run : ∀ d ∈ (readSign text).2.takeWhile Char.isDigit, isPlain d = true :=
          fun d member => isPlain_of_isDigit (List.mem_takeWhile_imp member)
        have start : (readSign text).2.takeWhile Char.isDigit = d :: more.takeWhile Char.isDigit := by
          rw [isDigits, List.takeWhile_cons_of_pos digit]
        have signed : text = (readSign text).1 ++ (readSign text).2 ∧
            Plain (readSign text).1 ((readSign text).2.takeWhile Char.isDigit ++
              (readSign text).2.dropWhile Char.isDigit) ∧
            ∀ b, readSign ((readSign text).1 ++ ((readSign text).2.takeWhile Char.isDigit ++ b)) =
              ((readSign text).1, (readSign text).2.takeWhile Char.isDigit ++ b) := by
          rw [start]
          rcases readSign_eq text with ⟨s, more', sign, rfl, isSign⟩ | ⟨-, isSign⟩
          · rw [isSign] at isDigits ⊢
            refine ⟨rfl, ⟨?_, trivial⟩, fun b => by simp [readSign, sign]⟩
            rcases sign with rfl | rfl
            · exact Or.inl (by decide)
            · refine Or.inr ⟨rfl, ?_⟩
              rintro ⟨⟩
              exact absurd digit (by decide)
          · rw [isSign]
            exact ⟨rfl, trivial, fun b => readSign_of_isDigit digit⟩
        refine ⟨?_, ?_, fun b ahead => ?_⟩
        · rw [List.cons_append, List.append_assoc, List.takeWhile_append_dropWhile, ← signed.1]
        · refine ⟨Or.inl markPlain, ?_⟩
          exact signed.2.1.append (plain_of_all _ run)
        · obtain ⟨taken, left⟩ := run_ahead
            (solid_of_isPlain fun d digit => isPlain_of_isDigit digit) ahead
          rw [List.cons_append, List.append_assoc, readExponent_cons, signed.2.2 b]
          simp only [taken, left]
          rw [if_pos]
          rw [isMark, start, Bool.true_and]
          exact digit
      · rw [readExponent_cons, if_neg exponent] at read
        obtain ⟨rfl, rfl⟩ := Prod.mk.inj read
        refine ⟨rfl, trivial, fun b ahead => ?_⟩
        cases ahead with
        | stop _ blank => exact readExponent_of_blank blank
        | same _ further =>
            rw [List.nil_append, readExponent_cons, if_neg]
            intro more
            rw [Bool.and_eq_true] at more exponent
            exact exponent ⟨more.1, exponent_ahead further more.2⟩

end Parts

/-! ## Tokens without quotes -/

section Words

variable {unicode : Unicode} {c : Char} {text rest b : List Char}

/-- A number starts with this character: a digit, or a point in front of one. -/
def StartsNumber (c : Char) (text : List Char) : Prop :=
  (c.isDigit || (c = '.' && text.head?.any Char.isDigit)) = true

/-- An assignment sign starts with this character. -/
def StartsAssign (c : Char) (text : List Char) : Prop := ":=".toList.isPrefixOf (c :: text) = true

/-- A name starts with this character: a letter, or a character beyond ASCII. -/
def StartsIdent (c : Char) : Prop := (c.isAlpha || 128 ≤ c.toNat) = true

/-- How a number is read: its digits, and its exponent if it has one. -/
theorem word_number (number : StartsNumber c text) :
    word unicode c text = .ok (.number (String.ofList ((readNumber false (c :: text)).1 ++
        (readExponent (readNumber false (c :: text)).2).1)),
      (readExponent (readNumber false (c :: text)).2).2) := by
  rw [word]
  exact if_pos number

/-- How the assignment sign is read. -/
theorem word_assign (number : ¬ StartsNumber c text) (assign : StartsAssign c text) :
    word unicode c text = .ok (.symbol ":=", (c :: text).drop 2) := by
  rw [word]
  exact (if_neg number).trans (if_pos assign)

/-- How a bind is read: the colon and the name after it, which must not be empty. -/
theorem word_bind (number : ¬ StartsNumber c text) (assign : ¬ StartsAssign c text) (colon : c = ':') :
    word unicode c text =
      if text.takeWhile isBindChar = [] then .error invalidCharacter
      else .ok (.bind (String.ofList (unicode.toUppercase (text.takeWhile isBindChar))),
        text.dropWhile isBindChar) := by
  rw [word]
  exact (if_neg number).trans ((if_neg assign).trans (if_pos colon))

/-- How a name is read: as far as its characters go, in upper case. -/
theorem word_ident (number : ¬ StartsNumber c text) (assign : ¬ StartsAssign c text)
    (colon : c ≠ ':') (ident : StartsIdent c) :
    word unicode c text =
      .ok (.ident (String.ofList (unicode.toUppercase ((c :: text).takeWhile isIdentChar))),
        (c :: text).dropWhile isIdentChar) := by
  rw [word]
  exact (if_neg number).trans ((if_neg assign).trans ((if_neg colon).trans (if_pos ident)))

/-- How a symbol is read: the first one of the table that the text starts with. -/
theorem word_symbol (number : ¬ StartsNumber c text) (assign : ¬ StartsAssign c text)
    (colon : c ≠ ':') (ident : ¬ StartsIdent c) :
    word unicode c text =
      match symbols.find? fun s => s.toList.isPrefixOf (c :: text) with
      | some s => .ok (.symbol s, (c :: text).drop s.length)
      | none => .error invalidCharacter := by
  rw [word]
  exact (if_neg number).trans ((if_neg assign).trans ((if_neg colon).trans (if_neg ident)))

/-- A start without blanks of the second text starts the first. -/
theorem prefix_ahead {y : List Char} (solid : ∀ c ∈ y, isAsciiWhitespace c = false)
    (ahead : Ahead text b) (starts : y <+: b) : y <+: text := by
  induction y generalizing text b with
  | nil => exact List.nil_prefix
  | cons c y ih =>
      obtain ⟨more, rfl⟩ := starts
      rw [List.forall_mem_cons] at solid
      obtain ⟨text, rfl, further⟩ := ahead.of_cons solid.1
      exact List.prefix_cons_inj c |>.mpr (ih solid.2 further (List.prefix_append y more))

/-- Whether a number starts here is the same in a text that goes on alike. -/
theorem startsNumber_ahead (ahead : Ahead text b) : StartsNumber c b ↔ StartsNumber c text := by
  have digits : b.head?.any Char.isDigit = text.head?.any Char.isDigit := by
    rw [Bool.eq_iff_iff]
    constructor
    · intro some_
      obtain ⟨d, more, rfl, digit⟩ := head_of_any some_
      obtain ⟨text, rfl, -⟩ := ahead.of_cons (isAsciiWhitespace_of_isPlain (isPlain_of_isDigit digit))
      exact digit
    · intro some_
      obtain ⟨d, more, rfl, digit⟩ := head_of_any some_
      obtain ⟨b, rfl, -⟩ := ahead.of_not_stop (not_stop_of_isDigit digit)
      exact digit
  rw [StartsNumber, StartsNumber, digits]

/-- No assignment sign starts in a text that goes on alike if none starts here. -/
theorem not_startsAssign_ahead (ahead : Ahead text b) (assign : ¬ StartsAssign c text) :
    ¬ StartsAssign c b := by
  intro starts
  refine assign (List.isPrefixOf_iff_prefix.mpr ?_)
  have solid : ∀ d ∈ ":=".toList, isAsciiWhitespace d = false :=
    List.forall_mem_cons.mpr ⟨rfl, List.forall_mem_cons.mpr ⟨rfl, List.forall_mem_nil _⟩⟩
  exact prefix_ahead solid (ahead.append [c]) (List.isPrefixOf_iff_prefix.mp starts)

/-- The characters of a token without quotes: a mark of its own for scripts, or plain ones. -/
def Solid (c : Char) (x rest : List Char) (tok : Tok) : Prop :=
  c = ';' ∧ x = [] ∧ tok = .symbol ";" ∨
    (c = '/' ∧ x = [] ∨ Plain (c :: x) rest) ∧ tok ≠ .symbol ";"

variable {tok : Tok}

/-- The token is read from the characters of its own, and again in front of what goes on alike. -/
def ReadInPlace (unicode : Unicode) (c : Char) (text rest : List Char) (tok : Tok) : Prop :=
  ∃ x, text = x ++ rest ∧ (Text.Ascii (c :: text) → Solid c x rest tok) ∧
    ∀ b, Ahead rest b → word unicode c (x ++ b) = .ok (tok, b)

/-- A number is read from characters of its own. -/
theorem number_in_place (number : StartsNumber c text) (read : word unicode c text = .ok (tok, rest)) :
    ReadInPlace unicode c text rest tok := by
  obtain ⟨num, text₁, readNum⟩ : ∃ num text₁, readNumber false (c :: text) = (num, text₁) :=
    ⟨_, _, rfl⟩
  obtain ⟨exponent, rest', readExp⟩ : ∃ exponent rest', readExponent text₁ = (exponent, rest') :=
    ⟨_, _, rfl⟩
  have first : ∃ digits, num = c :: digits := by
    refine ⟨(readNumber (false || c = '.') text).1, ?_⟩
    rw [readNumber, if_pos] at readNum
    · exact (Prod.mk.inj readNum).1.symm
    unfold StartsNumber at number
    rw [Bool.or_eq_true, Bool.and_eq_true, decide_eq_true_eq] at number
    rcases number with digit | ⟨rfl, some_⟩
    · rw [digit, Bool.true_or]
    · obtain ⟨d, more, rfl, digit⟩ := head_of_any some_
      have other : d ≠ '.' := by
        rintro rfl
        exact absurd digit (by decide)
      simp [other]
  rw [word_number number, readNum] at read
  simp only [readExp] at read
  obtain ⟨rfl, rfl⟩ := Prod.mk.inj (Except.ok.inj read)
  obtain ⟨parts, plain, again⟩ := readNumber_ahead readNum
  obtain ⟨rfl, plain', again'⟩ := readExponent_ahead readExp
  obtain ⟨digits, rfl⟩ := first
  obtain rfl : text = digits ++ (exponent ++ rest') := (List.cons.inj parts).2
  refine ⟨digits ++ exponent, (List.append_assoc _ _ _).symm, fun _ => Or.inr ⟨Or.inr ?_, by simp⟩,
    fun b ahead => ?_⟩
  · exact (plain_of_all _ plain).append plain'
  · have onward := (ahead.append exponent).append digits
    have here := (again _ (ahead.append exponent))
    rw [List.cons_append] at here
    rw [List.append_assoc, word_number ((startsNumber_ahead onward).mpr number), here]
    simp only [again' b ahead]

/-- A bind is read from characters of its own. -/
theorem bind_in_place (number : ¬ StartsNumber c text) (assign : ¬ StartsAssign c text)
    (colon : c = ':') (read : word unicode c text = .ok (tok, rest)) :
    ReadInPlace unicode c text rest tok := by
  rw [word_bind number assign colon] at read
  split at read
  · cases read
  next some_ =>
  obtain ⟨rfl, rfl⟩ := Prod.mk.inj (Except.ok.inj read)
  have run : ∀ d ∈ text.takeWhile isBindChar, isPlain d = true := fun d member =>
    isPlain_of_isBindChar (List.mem_takeWhile_imp member)
  refine ⟨text.takeWhile isBindChar, (List.takeWhile_append_dropWhile).symm,
    fun _ => Or.inr ⟨Or.inr ?_, ?_⟩, fun b ahead => ?_⟩
  · exact plain_of_all _ (List.forall_mem_cons.mpr ⟨by rw [colon]; decide, run⟩)
  · simp
  · have onward := ahead.append (text.takeWhile isBindChar)
    rw [List.takeWhile_append_dropWhile] at onward
    obtain ⟨taken, left⟩ := run_ahead (solid_of_isPlain fun d => isPlain_of_isBindChar) ahead
    rw [word_bind ((startsNumber_ahead onward).not.mpr number) (not_startsAssign_ahead onward assign)
      colon, taken, left, if_neg some_]

/-- A name is read from characters of its own. -/
theorem ident_in_place (number : ¬ StartsNumber c text) (assign : ¬ StartsAssign c text)
    (colon : c ≠ ':') (ident : StartsIdent c) (read : word unicode c text = .ok (tok, rest)) :
    ReadInPlace unicode c text rest tok := by
  have first : isIdentChar c = true := by
    simp only [StartsIdent, Bool.or_eq_true, decide_eq_true_eq] at ident
    simp only [isIdentChar, Char.isAlphanum, Bool.or_eq_true, decide_eq_true_eq]
    tauto
  rw [word_ident number assign colon ident] at read
  obtain ⟨rfl, rfl⟩ := Prod.mk.inj (Except.ok.inj read)
  have run (ascii : Text.Ascii (c :: text)) :
      ∀ d ∈ c :: text.takeWhile isIdentChar, isPlain d = true := by
    intro d member
    have inText : d ∈ c :: text := by
      rw [← List.takeWhile_cons_of_pos first] at member
      exact (List.takeWhile_prefix _).subset member
    rcases List.mem_cons.mp member with rfl | more
    · exact isPlain_of_isIdentChar (ascii d inText) first
    · exact isPlain_of_isIdentChar (ascii d inText) (List.mem_takeWhile_imp more)
  rw [List.dropWhile_cons_of_pos first]
  refine ⟨text.takeWhile isIdentChar, (List.takeWhile_append_dropWhile).symm,
    fun ascii => Or.inr ⟨Or.inr (plain_of_all _ (run ascii)), by simp⟩, fun b ahead => ?_⟩
  have onward := ahead.append (text.takeWhile isIdentChar)
  rw [List.takeWhile_append_dropWhile] at onward
  obtain ⟨taken, left⟩ := run_ahead solid_of_isIdentChar ahead
  rw [word_ident ((startsNumber_ahead onward).not.mpr number) (not_startsAssign_ahead onward assign)
    colon ident, List.takeWhile_cons_of_pos first, List.takeWhile_cons_of_pos first,
    List.dropWhile_cons_of_pos first, taken, left]

/-- The assignment sign is read from characters of its own. -/
theorem assign_in_place (number : ¬ StartsNumber c text) (assign : StartsAssign c text)
    (read : word unicode c text = .ok (tok, rest)) : ReadInPlace unicode c text rest tok := by
  rw [word_assign number assign] at read
  obtain ⟨rfl, rfl⟩ := Prod.mk.inj (Except.ok.inj read)
  obtain ⟨more, starts⟩ := List.isPrefixOf_iff_prefix.mp assign
  obtain ⟨rfl, rfl⟩ := List.cons.inj starts
  refine ⟨['='], rfl, fun _ => Or.inr ⟨Or.inr ?_, by decide⟩, fun b ahead => ?_⟩
  · exact ⟨Or.inl (by decide), Or.inl (by decide), trivial⟩
  rw [word_assign ((startsNumber_ahead (ahead.append ['='])).not.mpr number)
    (List.isPrefixOf_iff_prefix.mpr (List.prefix_append _ b))]
  rfl

/-- The symbols that are neither a mark of their own for scripts nor a hyphen. -/
theorem isPlain_of_mem_symbols :
    ∀ s ∈ symbols, s = ";" ∨ s = "/" ∨ s = "-" ∨ s.toList.all isPlain = true := by decide

/-- There is no white space in symbols. -/
theorem solid_of_mem_symbols :
    ∀ s ∈ symbols, s.toList.all (fun c => !isAsciiWhitespace c) = true := by decide

/-- No symbol is empty. -/
theorem nonempty_of_mem_symbols : ∀ s ∈ symbols, s.toList ≠ [] := by decide

/-- A symbol that begins no comment is solid. -/
theorem solid_symbol {s : String} {x : List Char} (known : s ∈ symbols) (spelled : s.toList = c :: x)
    (noComment : ¬ (c = '-' ∧ (x ++ rest).head? = some '-')) : Solid c x rest (.symbol s) := by
  rcases isPlain_of_mem_symbols s known with rfl | rfl | rfl | plain
  · obtain ⟨rfl, rfl⟩ := List.cons.inj spelled
    exact Or.inl ⟨rfl, rfl, rfl⟩
  · obtain ⟨rfl, rfl⟩ := List.cons.inj spelled
    exact Or.inr ⟨Or.inl ⟨rfl, rfl⟩, by decide⟩
  · obtain ⟨rfl, rfl⟩ := List.cons.inj spelled
    exact Or.inr ⟨Or.inr ⟨Or.inr ⟨rfl, fun hyphen => noComment ⟨rfl, hyphen⟩⟩, trivial⟩, by decide⟩
  · refine Or.inr ⟨Or.inr ?_, ?_⟩
    · rw [← spelled]
      exact plain_of_all _ (List.all_eq_true.mp plain)
    · intro same
      rw [Tok.symbol.inj same] at plain
      revert plain
      decide

/-- A symbol that begins no comment is read from characters of its own. -/
theorem symbol_in_place (noComment : ¬ (c = '-' ∧ text.head? = some '-'))
    (number : ¬ StartsNumber c text) (assign : ¬ StartsAssign c text) (colon : c ≠ ':')
    (ident : ¬ StartsIdent c) (read : word unicode c text = .ok (tok, rest)) :
    ReadInPlace unicode c text rest tok := by
  rw [word_symbol number assign colon ident] at read
  split at read
  case h_2 => cases read
  case h_1 s found =>
    obtain ⟨rfl, rfl⟩ := Prod.mk.inj (Except.ok.inj read)
    obtain ⟨starts, before, after, order, earlier⟩ := List.find?_eq_some_iff_append.mp found
    have known : s ∈ symbols := by
      rw [order]
      simp
    obtain ⟨rest, form⟩ := List.isPrefixOf_iff_prefix.mp starts
    obtain ⟨x, spelled⟩ : ∃ x, s.toList = c :: x := by
      cases spelled : s.toList with
      | nil =>
          exact absurd spelled (nonempty_of_mem_symbols s known)
      | cons d x =>
          rw [spelled] at form
          exact ⟨x, by rw [(List.cons.inj form).1]⟩
    have left : ∀ b, (c :: (x ++ b)).drop s.length = b := by
      intro b
      rw [← String.length_toList, spelled]
      simp
    obtain rfl : x ++ rest = text := by
      rw [spelled] at form
      exact (List.cons.inj form).2
    rw [left]
    refine ⟨x, rfl, fun _ => solid_symbol known spelled noComment, fun b ahead => ?_⟩
    have onward := ahead.append x
    have found' : symbols.find? (fun s => s.toList.isPrefixOf (c :: (x ++ b))) = some s := by
      refine List.find?_eq_some_iff_append.mpr ⟨?_, before, after, order, fun s' member => ?_⟩
      · rw [spelled]
        exact List.isPrefixOf_iff_prefix.mpr (List.prefix_append (c :: x) b)
      · have other := earlier s' member
        rw [Bool.not_eq_true'] at other ⊢
        rw [Bool.eq_false_iff] at other ⊢
        have solid := List.all_eq_true.mp (solid_of_mem_symbols s' (by rw [order]; simp [member]))
        intro starts'
        refine other (List.isPrefixOf_iff_prefix.mpr ?_)
        exact prefix_ahead (fun d inside => by simpa using solid d inside) (onward.append [c])
          (List.isPrefixOf_iff_prefix.mp starts')
    rw [word_symbol ((startsNumber_ahead onward).not.mpr number) (not_startsAssign_ahead onward assign)
      colon ident, found']
    simp only [left]

/-- A token without quotes is read in place. -/
theorem word_in_place (noComment : ¬ (c = '-' ∧ text.head? = some '-'))
    (read : word unicode c text = .ok (tok, rest)) : ReadInPlace unicode c text rest tok := by
  by_cases number : StartsNumber c text
  · exact number_in_place number read
  by_cases assign : StartsAssign c text
  · exact assign_in_place number assign read
  by_cases colon : c = ':'
  · exact bind_in_place number assign colon read
  by_cases ident : StartsIdent c
  · exact ident_in_place number assign colon ident read
  · exact symbol_in_place noComment number assign colon ident read

end Words

end MockOracle.Lexer
