import MockOracle.Parse.ByteLexer
import MockOracle.Parse.Lexemes

/-!
# Bytes and characters

The lexer over bytes never leaves the boundaries of characters, and finds what the lexer over
characters finds.
-/

namespace MockOracle.ByteLexer

open Semantics Lexer

/-! ## Kinds of bytes and of characters -/

/-- All bytes of a character are of the kind that the character is of. -/
def Agrees (p : UInt8 → Bool) (q : Char → Bool) : Prop :=
  ∀ c, ∀ b ∈ String.utf8EncodeChar c, p b = q c

/-- Kinds agree if they do for ASCII, and beyond it all bytes and characters are of them or none. -/
theorem agrees_of {p : UInt8 → Bool} {q : Char → Bool} (wide : Bool)
    (ascii : ∀ n < 128, p (.ofNat n) = q (.ofNat n))
    (bytes : ∀ n < 256, 128 ≤ n → p (.ofNat n) = wide)
    (chars : ∀ c : Char, 128 ≤ c.toNat → q c = wide) : Agrees p q := by
  intro c b member
  by_cases low : c.toNat < 128
  · rw [Text.utf8EncodeChar_ascii low, List.mem_singleton] at member
    rw [member, ascii c.toNat low, Char.ofNat_toNat]
  · have high := bytes b.toNat b.toNat_lt (Text.high_of_mem (not_lt.mp low) member)
    rw [UInt8.ofNat_toNat] at high
    rw [high, chars c (not_lt.mp low)]

/-- Letters and digits are ASCII. -/
theorem ascii_of_isAlphanum {c : Char} (alphanum : c.isAlphanum = true) : c.toNat < 128 := by
  have bounds : c.val.toNat < 128 := by
    simp only [Char.isAlphanum, Char.isAlpha, Char.isUpper, Char.isLower, Char.isDigit,
      Bool.or_eq_true, Bool.and_eq_true, decide_eq_true_eq, ge_iff_le, UInt32.le_iff_toNat_le] at alphanum
    rcases alphanum with (⟨low, high⟩ | ⟨low, high⟩) | ⟨low, high⟩ <;>
      exact Nat.lt_of_le_of_lt high (by decide)
  exact bounds

/-- What holds only of ASCII does not hold beyond it. -/
theorem false_of_wide {q : Char → Bool} (ascii : ∀ c, q c = true → c.toNat < 128) (c : Char)
    (wide : 128 ≤ c.toNat) : q c = false := by
  rw [Bool.eq_false_iff]
  exact fun here => absurd (ascii c here) (not_lt.mpr wide)

/-- White space is ASCII. -/
theorem ascii_of_isAsciiWhitespace (c : Char) (blank : isAsciiWhitespace c = true) :
    c.toNat < 128 := by
  simp only [isAsciiWhitespace, Bool.or_eq_true, decide_eq_true_eq] at blank
  rcases blank with (((rfl | rfl) | rfl) | rfl) | rfl <;> decide

/-- Digits are ASCII. -/
theorem ascii_of_isDigit (c : Char) (digit : c.isDigit = true) : c.toNat < 128 :=
  ascii_of_isAlphanum (by simp [Char.isAlphanum, digit])

/-- The characters of bind names are ASCII. -/
theorem ascii_of_isBindChar (c : Char) (bind : isBindChar c = true) : c.toNat < 128 := by
  simp only [isBindChar, Bool.or_eq_true, decide_eq_true_eq] at bind
  rcases bind with alphanum | rfl
  · exact ascii_of_isAlphanum alphanum
  · decide

/-- The bytes of white space are those of white space characters. -/
theorem agrees_whitespace : Agrees isWhitespaceByte isAsciiWhitespace :=
  agrees_of false (by decide +kernel) (by decide +kernel) (false_of_wide ascii_of_isAsciiWhitespace)

/-- The bytes of digits are those of digit characters. -/
theorem agrees_digit : Agrees isDigitByte Char.isDigit :=
  agrees_of false (by decide +kernel) (by decide +kernel) (false_of_wide ascii_of_isDigit)

/-- The bytes of bind names are those of their characters. -/
theorem agrees_bind : Agrees isBindByte isBindChar :=
  agrees_of false (by decide +kernel) (by decide +kernel) (false_of_wide ascii_of_isBindChar)

/-- The bytes of names are those of their characters: all bytes beyond ASCII are. -/
theorem agrees_ident : Agrees isIdentByte isIdentChar :=
  agrees_of true (by decide +kernel) (by decide +kernel) fun c wide => by simp [isIdentChar, wide]

/-- The start of an identifier. -/
theorem agrees_letter : Agrees (fun b => isAlphabeticByte b || 128 ≤ b.toNat)
    (fun c => c.isAlpha || 128 ≤ c.toNat) :=
  agrees_of true (by decide +kernel) (by decide +kernel) fun c wide => by simp [wide]

/-- A byte of ASCII is its character. -/
theorem agrees_eq {d : Char} (ascii : d.toNat < 128) :
    Agrees (fun b => b = .ofNat d.toNat) (fun c => c = d) := by
  intro c b member
  by_cases low : c.toNat < 128
  · rw [Text.utf8EncodeChar_ascii low, List.mem_singleton] at member
    subst member
    have same : UInt8.ofNat c.toNat = UInt8.ofNat d.toNat ↔ c = d := by
      constructor
      · intro equal
        have values := congrArg UInt8.toNat equal
        simp only [UInt8.toNat_ofNat'] at values
        exact Char.toNat_inj.mp (by omega)
      · rintro rfl
        rfl
    simp only [same]
  · have high := Text.high_of_mem (not_lt.mp low) member
    have other : b ≠ .ofNat d.toNat := by
      rintro rfl
      rw [UInt8.toNat_ofNat'] at high
      omega
    have differs : c ≠ d := by
      rintro rfl
      exact low ascii
    simp only [other, differs]

/-- A character has at least one byte. -/
theorem encode_cons (c : Char) : ∃ b more, String.utf8EncodeChar c = b :: more := by
  refine List.exists_cons_of_ne_nil (List.ne_nil_of_length_pos ?_)
  rw [String.length_utf8EncodeChar]
  exact c.utf8Size_pos

section Runs

variable {p : UInt8 → Bool} {q : Char → Bool} (agrees : Agrees p q)
include agrees

/-- A run of bytes of a kind is one of characters. -/
theorem takeWhile_bytes (text : List Char) :
    (Text.bytes text).takeWhile p = Text.bytes (text.takeWhile q) := by
  induction text with
  | nil => rfl
  | cons c text ih =>
      rw [Text.bytes_cons]
      by_cases here : q c = true
      · rw [List.takeWhile_append_of_pos fun b member => (agrees c b member).trans here,
          List.takeWhile_cons_of_pos here, Text.bytes_cons, ih]
      · obtain ⟨b, more, encoded⟩ := List.exists_cons_of_ne_nil
          (List.ne_nil_of_length_pos (l := String.utf8EncodeChar c) (by
            rw [String.length_utf8EncodeChar]
            exact c.utf8Size_pos))
        have byte : p b = q c := agrees c b (encoded ▸ List.mem_cons_self)
        rw [encoded, List.cons_append, List.takeWhile_cons_of_neg (by rwa [byte]),
          List.takeWhile_cons_of_neg here]
        rfl

/-- The first byte of a text is of the kind of its first character. -/
theorem head_bytes (text : List Char) : (Text.bytes text).head?.any p = text.head?.any q := by
  cases text with
  | nil => rfl
  | cons c text =>
      obtain ⟨b, more, encoded⟩ := encode_cons c
      rw [Text.bytes_cons, encoded]
      exact agrees c b (encoded ▸ List.mem_cons_self)

end Runs

/-! ## Places between characters -/

/-- At this offset the rest of the text is `text`. -/
def At (sql text : List Char) (i : Nat) : Prop :=
  ∃ before, sql = before ++ text ∧ Text.size before = i

namespace At

variable {sql text x rest : List Char} {i : Nat}

/-- The whole text is at the offset 0. -/
theorem start (sql : List Char) : At sql sql 0 := ⟨[], rfl, rfl⟩

/-- After some characters, the rest is as many bytes further on. -/
theorem advance (place : At sql (x ++ rest) i) : At sql rest (i + Text.size x) := by
  obtain ⟨before, rfl, rfl⟩ := place
  exact ⟨before ++ x, (List.append_assoc _ _ _).symm, Text.size_append _ _⟩

/-- At the size of the text there is nothing left. -/
theorem finish (sql : List Char) : At sql [] (Text.size sql) := ⟨sql, (List.append_nil sql).symm, rfl⟩

/-- After a character, the rest is as many bytes further on. -/
theorem next {c : Char} (place : At sql (c :: rest) i) : At sql rest (i + c.utf8Size) := by
  have further := advance (x := [c]) place
  rwa [Text.size_cons, Text.size_nil, Nat.add_zero] at further

/-- The offset is what the rest of the text is shorter by. -/
theorem eq_sub (place : At sql text i) : i = Text.size sql - Text.size text := by
  obtain ⟨before, rfl, rfl⟩ := place
  rw [Text.size_append, Nat.add_sub_cancel]

/-- Cutting the text at the offset leaves the rest. -/
theorem dropBytes (place : At sql text i) : Text.dropBytes sql i = some text := by
  obtain ⟨before, rfl, rfl⟩ := place
  exact Text.dropBytes_size before text

/-- Cutting out characters that are there gives them. -/
theorem slice (place : At sql (x ++ rest) i) : Text.slice sql i (i + Text.size x) = some x := by
  obtain ⟨before, rfl, rfl⟩ := place
  exact Text.slice_size before x rest

/-- The bytes from the offset on are those of the rest. -/
theorem drop_bytes (place : At sql text i) : (Text.bytes sql).drop i = Text.bytes text := by
  obtain ⟨before, rfl, rfl⟩ := place
  rw [Text.bytes_append, Text.size, List.drop_left]

/-- The byte at the offset is the first one of the rest. -/
theorem byteAt (place : At sql text i) : byteAt sql i = (Text.bytes text).head? := by
  rw [ByteLexer.byteAt, ← place.drop_bytes, List.head?_drop]

/-- A run of bytes ends where the run of their characters does. -/
theorem runEnd {p : UInt8 → Bool} {q : Char → Bool} (agrees : Agrees p q) (place : At sql text i) :
    runEnd sql p i = i + Text.size (text.takeWhile q) := by
  rw [ByteLexer.runEnd, place.drop_bytes, takeWhile_bytes agrees, Text.size]

end At

/-! ## Parts of tokens -/

/-- A character is found where it occurs first. -/
theorem find_singleton_append {c : Char} {before : List Char} (other : ∀ d ∈ before, d ≠ c)
    (after : List Char) : Text.find [c] (before ++ c :: after) = some (Text.size before) := by
  induction before with
  | nil => simp [Text.find]
  | cons d before ih =>
      rw [List.forall_mem_cons] at other
      rw [List.cons_append, Text.find, if_neg (by simpa using Ne.symm other.1), ih other.2,
        Text.size_cons]
      rfl

/-- A comment ends behind the first closing mark, or with the text. -/
theorem afterComment_eq (text : List Char) :
    (¬ "*/".toList <:+: text ∧ afterComment text = [] ∧ Text.find "*/".toList text = none) ∨
      ∃ body rest, text = body ++ '*' :: '/' :: rest ∧ ¬ "*/".toList <:+: body ∧
        afterComment text = rest ∧ Text.find "*/".toList text = some (Text.size body) := by
  induction text using afterComment.induct with
  | case1 rest => exact Or.inr ⟨[], rest, rfl, by simp, rfl, rfl⟩
  | case2 c rest other ih =>
      have elsewhere : "*/".toList.isPrefixOf (c :: rest) = false := by
        rw [Bool.eq_false_iff]
        intro here
        obtain ⟨rfl, slash⟩ := (isPrefixOf_pair '*' '/').mp here
        obtain ⟨rest', rfl⟩ := List.head?_eq_some_iff.mp slash
        exact other rest' rfl rfl
      have notHere {body : List Char} (part : c :: body <+: c :: rest) :
          ¬ "*/".toList <+: c :: body := by
        intro here
        rw [List.isPrefixOf_iff_prefix.mpr (here.trans part)] at elsewhere
        cases elsewhere
      rw [afterComment.eq_2 c rest other, Text.find, elsewhere]
      rcases ih with ⟨opened, ends, none⟩ | ⟨body, rest', rfl, opened, ends, found⟩
      · refine Or.inl ⟨fun inside => ?_, ends, by rw [none]; rfl⟩
        exact (List.infix_cons_iff.mp inside).elim (notHere List.prefix_rfl) opened
      · refine Or.inr ⟨c :: body, rest', rfl, fun inside => ?_, ends, by
          rw [found, Text.size_cons]; rfl⟩
        exact (List.infix_cons_iff.mp inside).elim
          (notHere ((List.prefix_cons_inj c).mpr (List.prefix_append _ _))) opened
  | case3 => exact Or.inl ⟨by simp, rfl, rfl⟩

/-- The first byte of a text is that of an ASCII character if its first character is this one. -/
theorem head_bytes_eq {d : Char} (ascii : d.toNat < 128) (text : List Char) :
    (Text.bytes text).head? = some (.ofNat d.toNat) ↔ text.head? = some d := by
  have same := head_bytes (agrees_eq ascii) text
  rw [Bool.eq_iff_iff, Option.any_eq_true, Option.any_eq_true] at same
  simpa using same

/-- An ASCII character is one byte. -/
theorem bytes_cons_ascii {c : Char} (ascii : c.toNat < 128) (text : List Char) :
    Text.bytes (c :: text) = .ofNat c.toNat :: Text.bytes text := by
  rw [Text.bytes_cons, Text.utf8EncodeChar_ascii ascii]
  rfl

/-- An ASCII character has one byte. -/
theorem utf8Size_ascii {c : Char} (ascii : c.toNat < 128) : c.utf8Size = 1 := by
  rw [← String.length_utf8EncodeChar, Text.utf8EncodeChar_ascii ascii]
  rfl

/-- Digits and a point are as long in bytes as in characters. -/
theorem numberLength_bytes (seen : Bool) (text : List Char) :
    numberLength seen (Text.bytes text) = Text.size (readNumber seen text).1 := by
  induction text generalizing seen with
  | nil => rfl
  | cons c text ih =>
      by_cases ascii : c.toNat < 128
      · have digit : isDigitByte (.ofNat c.toNat) = c.isDigit :=
          agrees_digit c _ (by rw [Text.utf8EncodeChar_ascii ascii]; exact List.mem_cons_self)
        have point : (UInt8.ofNat c.toNat = 46) = (c = '.') := by
          have same := agrees_eq (d := '.') (by decide) c (.ofNat c.toNat)
            (by rw [Text.utf8EncodeChar_ascii ascii]; exact List.mem_cons_self)
          simpa using same
        have range : ((Text.bytes text).head? = some 46) = (text.head? = some '.') :=
          propext (head_bytes_eq (d := '.') (by decide) text)
        rw [bytes_cons_ascii ascii, numberLength, readNumber]
        simp only [digit, point, ne_eq, range]
        split
        · rw [ih, Text.size_cons, utf8Size_ascii ascii, Nat.add_comm]
        · rfl
      · have none : readNumber seen (c :: text) = ([], c :: text) := by
          have other : c ≠ '.' := by
            rintro rfl
            exact ascii (by decide)
          simp [readNumber, false_of_wide ascii_of_isDigit c (not_lt.mp ascii), other]
        obtain ⟨b, more, encoded⟩ := encode_cons c
        have wide : 128 ≤ b.toNat :=
          Text.high_of_mem (not_lt.mp ascii) (encoded ▸ List.mem_cons_self)
        have noDigit : isDigitByte b = false := by
          rw [agrees_digit c b (encoded ▸ List.mem_cons_self)]
          exact false_of_wide ascii_of_isDigit c (not_lt.mp ascii)
        have noPoint : b ≠ 46 := by
          rintro rfl
          exact absurd wide (by decide)
        rw [none, Text.bytes_cons, encoded, List.cons_append, numberLength]
        simp [noDigit, noPoint]

/-- A run is empty if and only if the first character is not of its kind. -/
theorem takeWhile_pos_iff {q : Char → Bool} (text : List Char) :
    0 < Text.size (text.takeWhile q) ↔ text.head?.any q = true := by
  cases text with
  | nil => simp
  | cons c text =>
      by_cases here : q c = true
      · have := c.utf8Size_pos
        simp only [List.takeWhile_cons_of_pos here, Text.size_cons, List.head?_cons, Option.any_some,
          here, iff_true]
        omega
      · simp [here]

/-- An exponent is as long in bytes as in characters. -/
theorem exponentLength_bytes (text : List Char) :
    exponentLength (Text.bytes text) = Text.size (readExponent text).1 := by
  cases text with
  | nil => rfl
  | cons c text =>
      have digits (more : List Char) : ((Text.bytes more).takeWhile isDigitByte).length =
          Text.size (more.takeWhile Char.isDigit) := by
        rw [takeWhile_bytes agrees_digit, Text.size]
      obtain ⟨b, more, encoded⟩ := encode_cons c
      have isB {d : Char} (ascii : d.toNat < 128) : (b = .ofNat d.toNat) = (c = d) := by
        have same := agrees_eq ascii c b (encoded ▸ List.mem_cons_self)
        simpa using same
      have isMark : (b = 101 || b = 69) = (c = 'e' || c = 'E') := by
        have lower : (b = 101) = (c = 'e') := isB (d := 'e') (by decide)
        have upper : (b = 69) = (c = 'E') := isB (d := 'E') (by decide)
        simp only [lower, upper]
      rw [Text.bytes_cons, encoded, List.cons_append, exponentLength, isMark, readExponent_cons]
      by_cases mark : (c = 'e' || c = 'E') = true
      · have ascii : c.toNat < 128 := by
          rw [Bool.or_eq_true, decide_eq_true_eq, decide_eq_true_eq] at mark
          rcases mark with rfl | rfl <;> decide
        obtain rfl : more = [] := by
          rw [Text.utf8EncodeChar_ascii ascii] at encoded
          exact (List.cons.inj encoded).2.symm
        have plus : (Text.bytes text).head? = some 43 ↔ text.head? = some '+' :=
          head_bytes_eq (d := '+') (by decide) text
        have minus : (Text.bytes text).head? = some 45 ↔ text.head? = some '-' :=
          head_bytes_eq (d := '-') (by decide) text
        rw [if_pos mark, List.nil_append, mark, Bool.true_and]
        rcases readSign_eq text with ⟨sign, rest, isSign, rfl, read⟩ | ⟨unsigned, read⟩
        · have signAscii : sign.toNat < 128 := by rcases isSign with rfl | rfl <;> decide
          have signed : (Text.bytes (sign :: rest)).head? = some 43 ∨
              (Text.bytes (sign :: rest)).head? = some 45 := by
            rw [plus, minus]
            simpa using isSign
          simp only [if_pos signed]
          rw [bytes_cons_ascii signAscii]
          simp only [read, List.drop_succ_cons, List.drop_zero, digits, takeWhile_pos_iff]
          split
          · simp only [Text.size_cons, Text.size_append, Text.size_nil, utf8Size_ascii ascii,
              utf8Size_ascii signAscii]
            omega
          · rfl
        · have noSign : ¬ ((Text.bytes text).head? = some 43 ∨ (Text.bytes text).head? = some 45) := by
            rw [plus, minus]
            rintro (head | head)
            · exact unsigned _ head (Or.inl rfl)
            · exact unsigned _ head (Or.inr rfl)
          simp only [if_neg noSign]
          simp only [read, List.drop_zero, digits, takeWhile_pos_iff]
          split
          · simp only [List.nil_append, Text.size_cons, utf8Size_ascii ascii, Nat.add_zero]
          · rfl
      · rw [if_neg mark, if_neg fun both => mark (Bool.and_eq_true_iff.mp both).1]
        rfl

/-! ## Results -/

/-- The lexer over bytes fails with the error of the lexer over characters, or finds what that one
finds and stops where that one does. -/
inductive Matches {α : Type} (sql : List Char) :
    Outcome (α × Nat) → Except OraError (α × List Char) → Prop
  | error (e : OraError) : Matches sql (.error (.error e)) (.error e)
  | ok (a : α) {stop : Nat} {rest : List Char} (place : At sql rest stop) :
      Matches sql (.ok (a, stop)) (.ok (a, rest))

/-- What both lexers find can be changed alike. -/
theorem Matches.map {α β : Type} {sql : List Char} {bytes : Outcome (α × Nat)}
    {chars : Except OraError (α × List Char)} (matches_ : Matches sql bytes chars) (f : α → β) :
    Matches sql (bytes >>= fun (a, stop) => .ok (f a, stop))
      (chars.map fun (a, rest) => (f a, rest)) := by
  cases matches_ with
  | error e => exact .error e
  | ok a place => exact .ok (f a) place

section Read

variable {unicode : Unicode} {sql text rest : List Char} {i : Nat}

/-- Characters in front of a quote. -/
theorem readString_append {before : List Char} (plain : ∀ c ∈ before, c ≠ '\'')
    (text : List Char) :
    readString (before ++ text) =
      (readString text).map fun (t, rest) => (before ++ t, rest) := by
  induction before with
  | nil =>
      rw [List.nil_append]
      cases readString text <;> rfl
  | cons c before ih =>
      rw [List.forall_mem_cons] at plain
      rw [List.cons_append, readString.eq_3 c _ (fun _ same _ => plain.1 same) plain.1, ih plain.2]
      cases readString text <;> rfl

/-- A character that does not occur is not found. -/
theorem find_singleton_none {c : Char} (other : ∀ d ∈ text, d ≠ c) : Text.find [c] text = none := by
  rw [Option.eq_none_iff_forall_ne_some]
  intro i found
  have member := Text.find_singleton_isSome.mp (Option.isSome_of_eq_some found)
  exact other c member rfl

/-- A string, with what was read of it before. -/
theorem stringAt_matches (place : At sql text i) {fuel : Nat} (enough : text.length < fuel)
    (s : List Char) :
    Matches sql (stringAt sql fuel i s) ((readString text).map fun (t, rest) => (s ++ t, rest)) := by
  induction fuel generalizing text i s with
  | zero => omega
  | succ fuel ih =>
      rw [stringAt, place.dropBytes]
      rcases Decimal.cut_spec (p := fun c => decide (c = '\'')) text with
        ⟨-, none⟩ | ⟨before, quote, after, rfl, isQuote, plain, -⟩
      · have plain : ∀ c ∈ text, c ≠ '\'' := fun c member => of_decide_eq_false (none c member)
        have open_ : readString text = .error ⟨1756, "quoted string not properly terminated"⟩ := by
          have read := readString_append plain []
          rwa [List.append_nil] at read
        simp only [orPanic, bind, Except.bind, find_singleton_none plain]
        rw [open_]
        exact .error _
      · obtain rfl := of_decide_eq_true isQuote
        have plain : ∀ c ∈ before, c ≠ '\'' := fun c member => of_decide_eq_false (plain c member)
        have behind : At sql after (i + Text.size before + 1) := place.advance.next
        have double : byteAt sql (i + Text.size before + 1) = some 39 ↔ after.head? = some '\'' := by
          rw [behind.byteAt]
          exact head_bytes_eq (d := '\'') (by decide) after
        simp only [orPanic, bind, Except.bind, find_singleton_append plain, place.slice, double]
        rw [readString_append plain]
        by_cases isDouble : after.head? = some '\''
        · obtain ⟨after, rfl⟩ := List.head?_eq_some_iff.mp isDouble
          have shorter : after.length < fuel := by
            simp only [List.length_append, List.length_cons] at enough
            omega
          have further : At sql after (i + Text.size before + 2) := behind.next
          have more := ih further shorter (s ++ before ++ ['\''])
          rw [if_pos isDouble, readString]
          cases read : readString after with
          | error e =>
              rw [read] at more
              exact more
          | ok result =>
              rw [read] at more
              simpa [Except.map] using more
        · have single : readString ('\'' :: after) = .ok ([], after) :=
            readString.eq_2 after fun rest same => isDouble (by rw [same]; rfl)
          rw [if_neg isDouble, single]
          simpa [Except.map, pure, Except.pure] using Matches.ok (s ++ before) behind

section Words

variable {c : Char} {b : UInt8} (place : At sql (c :: text) i)
  (byte : b ∈ String.utf8EncodeChar c)
include place byte

/-- A number starts at a byte if and only if one starts at its character. -/
theorem startsNumber_byte :
    (isDigitByte b || (b = 46 && (byteAt sql (i + 1)).any isDigitByte)) = true ↔
      StartsNumber c text := by
  have point : (b = 46) = (c = '.') := by
    have same := agrees_eq (d := '.') (by decide) c b byte
    simpa using same
  by_cases isPoint : c = '.'
  · subst isPoint
    have behind : At sql text (i + 1) := place.next
    simp only [StartsNumber, agrees_digit _ b byte, point, behind.byteAt, head_bytes agrees_digit]
  · simp only [StartsNumber, agrees_digit _ b byte, point, isPoint, decide_false, Bool.false_and]

/-- The lexers agree on numbers. -/
theorem numberAt_matches (number : StartsNumber c text) :
    Matches sql (wordAt unicode sql b i) (word unicode c text) := by
  obtain ⟨x, rest₁, readNum⟩ : ∃ x rest₁, readNumber false (c :: text) = (x, rest₁) := ⟨_, _, rfl⟩
  obtain ⟨y, rest₂, readExp⟩ : ∃ y rest₂, readExponent rest₁ = (y, rest₂) := ⟨_, _, rfl⟩
  have digits := (readNumber_ahead readNum).1
  have exponent := (readExponent_ahead readExp).1
  have numLength := numberLength_bytes false (c :: text)
  have expLength := exponentLength_bytes rest₁
  rw [readNum] at numLength
  rw [readExp] at expLength
  have after : At sql rest₁ (i + Text.size x) := by
    rw [digits] at place
    exact place.advance
  have whole : At sql ((x ++ y) ++ rest₂) i := by
    rwa [List.append_assoc, ← exponent, ← digits]
  have cut := whole.slice
  have stop := whole.advance
  rw [Text.size_append, ← Nat.add_assoc] at cut stop
  rw [wordAt, if_pos ((startsNumber_byte place byte).mpr number), word_number number, readNum]
  simp only [readExp, place.drop_bytes, numLength, after.drop_bytes, expLength, cut, orPanic, bind,
    Except.bind]
  exact .ok _ stop

/-- A word that is no number. -/
theorem wordAt_eq (number : ¬ StartsNumber c text) :
    wordAt unicode sql b i =
      if ":=".toList.isPrefixOf (c :: text) then .ok (.symbol ":=", i + 2)
      else if c = ':' then
        if runEnd sql isBindByte (i + 1) = i + 1 then .error (.error invalidCharacter)
        else do
          let name ← orPanic (Text.slice sql (i + 1) (runEnd sql isBindByte (i + 1)))
          return (.bind (String.ofList (unicode.toUppercase name)), runEnd sql isBindByte (i + 1))
      else if c.isAlpha || 128 ≤ c.toNat then do
        let name ← orPanic (Text.slice sql i (runEnd sql isIdentByte i))
        return (.ident (String.ofList (unicode.toUppercase name)), runEnd sql isIdentByte i)
      else
        match symbols.find? fun s => s.toList.isPrefixOf (c :: text) with
        | some s => .ok (.symbol s, i + Text.size s.toList)
        | none => .error (.error invalidCharacter) := by
  have colon : (b = 58) = (c = ':') := by
    have same := agrees_eq (d := ':') (by decide) c b byte
    simpa using same
  have letter := agrees_letter c b byte
  simp only at letter
  rw [wordAt, if_neg ((startsNumber_byte place byte).not.mpr number), place.dropBytes]
  simp only [orPanic, bind, Except.bind, colon, letter]
  rfl

/-- The lexers agree on the assignment sign. -/
theorem assignAt_matches (number : ¬ StartsNumber c text) (assign : StartsAssign c text) :
    Matches sql (wordAt unicode sql b i) (word unicode c text) := by
  obtain ⟨rest, spelled⟩ := List.isPrefixOf_iff_prefix.mp assign
  obtain ⟨rfl, rfl⟩ := List.cons.inj spelled
  have stop : At sql rest (i + 2) := At.advance (x := ":=".toList) place
  rw [wordAt_eq place byte number, word_assign number assign]
  exact (if_pos assign).symm ▸ .ok _ stop

/-- The lexers agree on binds. -/
theorem bindAt_matches (number : ¬ StartsNumber c text) (assign : ¬ StartsAssign c text)
    (colon : c = ':') : Matches sql (wordAt unicode sql b i) (word unicode c text) := by
  have behind : At sql (text.takeWhile isBindChar ++ text.dropWhile isBindChar) (i + 1) := by
    rw [List.takeWhile_append_dropWhile]
    subst colon
    exact place.next
  have stop : runEnd sql isBindByte (i + 1) = i + 1 + Text.size (text.takeWhile isBindChar) := by
    rw [behind.runEnd agrees_bind, List.takeWhile_append_dropWhile]
  have empty : i + 1 + Text.size (text.takeWhile isBindChar) = i + 1 ↔
      text.takeWhile isBindChar = [] := by
    rw [Nat.add_eq_left, Text.size_eq_zero_iff]
  have assign' : ¬ ":=".toList.isPrefixOf (c :: text) = true := assign
  rw [wordAt_eq place byte number, word_bind number assign colon, if_neg assign', if_pos colon, stop,
    behind.slice]
  simp only [empty]
  split
  · exact .error _
  · exact .ok _ behind.advance

/-- The lexers agree on names. -/
theorem identAt_matches (number : ¬ StartsNumber c text) (assign : ¬ StartsAssign c text)
    (colon : c ≠ ':') (ident : StartsIdent c) :
    Matches sql (wordAt unicode sql b i) (word unicode c text) := by
  have parts : At sql ((c :: text).takeWhile isIdentChar ++ (c :: text).dropWhile isIdentChar) i := by
    rwa [List.takeWhile_append_dropWhile]
  have assign' : ¬ ":=".toList.isPrefixOf (c :: text) = true := assign
  have ident' : (c.isAlpha || 128 ≤ c.toNat) = true := ident
  rw [wordAt_eq place byte number, word_ident number assign colon ident, if_neg assign', if_neg colon,
    if_pos ident', place.runEnd agrees_ident, parts.slice]
  exact .ok _ parts.advance

/-- The lexers agree on symbols. -/
theorem symbolAt_matches (number : ¬ StartsNumber c text) (assign : ¬ StartsAssign c text)
    (colon : c ≠ ':') (ident : ¬ StartsIdent c) :
    Matches sql (wordAt unicode sql b i) (word unicode c text) := by
  have assign' : ¬ ":=".toList.isPrefixOf (c :: text) = true := assign
  have ident' : ¬ (c.isAlpha || 128 ≤ c.toNat) = true := ident
  rw [wordAt_eq place byte number, word_symbol number assign colon ident, if_neg assign',
    if_neg colon, if_neg ident']
  cases found : symbols.find? fun s => s.toList.isPrefixOf (c :: text) with
  | none => exact .error _
  | some s =>
      have starts : s.toList.isPrefixOf (c :: text) = true := 
        List.find?_some (p := fun s : String => s.toList.isPrefixOf (c :: text)) found
      obtain ⟨rest, spelled⟩ := List.isPrefixOf_iff_prefix.mp starts
      rw [← spelled] at place
      have left : (c :: text).drop s.length = rest := by
        rw [← spelled, ← String.length_toList, List.drop_left]
      simp only [left]
      exact .ok _ place.advance

/-- The lexers agree on every token without quotes. -/
theorem wordAt_matches :
    Matches sql (wordAt unicode sql b i) (word unicode c text) := by
  by_cases number : StartsNumber c text
  · exact numberAt_matches place byte number
  by_cases assign : StartsAssign c text
  · exact assignAt_matches place byte number assign
  by_cases colon : c = ':'
  · exact bindAt_matches place byte number assign colon
  by_cases ident : StartsIdent c
  · exact identAt_matches place byte number assign colon ident
  · exact symbolAt_matches place byte number assign colon ident

end Words

/-! ## Lexemes -/

/-- A byte is no newline if and only if its character is none. -/
theorem agrees_ne_newline : Agrees (fun b => b ≠ 10) (fun c => c ≠ '\n') := by
  intro c b member
  have same := agrees_eq (d := '\n') (by decide) c b member
  have same : (b = 10) = (c = '\n') := by simpa using same
  simp only [ne_eq, same]

/-- A character of ASCII is its byte. -/
theorem byte_eq {c : Char} {b : UInt8} (ascii : c.toNat < 128) (byte : b ∈ String.utf8EncodeChar c) :
    b = .ofNat c.toNat := by
  rwa [Text.utf8EncodeChar_ascii ascii, List.mem_singleton] at byte

/-- The lexers agree on comments to the end of the line. -/
theorem lineAt_matches (place : At sql ('-' :: '-' :: text) i) :
    Matches sql (lexemeAt unicode sql 45 i) (lexeme unicode '-' ('-' :: text)) := by
  have parts : At sql (('-' :: '-' :: text).takeWhile (· ≠ '\n') ++
      ('-' :: '-' :: text).dropWhile (· ≠ '\n')) i := by
    rwa [List.takeWhile_append_dropWhile]
  rw [lexemeAt, if_neg (by decide), place.dropBytes, lexeme_line]
  have stop := place.runEnd agrees_ne_newline
  simp only [orPanic, bind, Except.bind]
  rw [if_pos (by rfl), stop]
  exact .ok _ parts.advance

/-- The lexers agree on comments in brackets. -/
theorem blockAt_matches (place : At sql ('/' :: '*' :: text) i) :
    Matches sql (lexemeAt unicode sql 47 i) (lexeme unicode '/' ('*' :: text)) := by
  have behind : At sql text (i + 2) := At.advance (x := "/*".toList) place
  rw [lexemeAt, if_neg (by decide), place.dropBytes, lexeme_block]
  simp only [orPanic, bind, Except.bind, behind.dropBytes]
  rw [if_neg (by simp), if_pos (by rfl)]
  rcases afterComment_eq text with ⟨-, ends, none⟩ | ⟨body, rest, rfl, -, ends, found⟩
  · rw [none, ends]
    exact .ok _ (At.finish sql)
  · have stop : At sql rest (i + 2 + Text.size body + 2) := At.advance (x := "*/".toList) behind.advance
    have same : i + 2 + Text.size body + 2 = i + (Text.size body + 4) := by omega
    rw [same] at stop
    rw [found, ends]
    exact .ok _ stop

/-- The lexers agree on strings. -/
theorem stringLexemeAt_matches (place : At sql ('\'' :: text) i) :
    Matches sql (lexemeAt unicode sql 39 i) (lexeme unicode '\'' text) := by
  have behind : At sql text (i + 1) := place.next
  have enough : text.length < Text.size sql := by
    obtain ⟨before, rfl, _⟩ := place
    have := Text.length_le_size text
    simp only [Text.size_append, Text.size_cons, utf8Size_ascii (c := '\'') (by decide)]
    omega
  have read := (stringAt_matches behind enough []).map fun s => some (Tok.str (String.ofList s))
  rw [lexemeAt, if_neg (by decide), place.dropBytes, lexeme_string]
  simp only [orPanic, bind, Except.bind]
  rw [if_neg (by simp), if_neg (by simp), if_pos trivial]
  cases isRead : readString text with
  | error e =>
      rw [isRead] at read
      exact read
  | ok result =>
      rw [isRead] at read
      exact read

/-- The lexers agree on quoted names. -/
theorem quotedIdentAt_matches (place : At sql ('"' :: text) i) :
    Matches sql (lexemeAt unicode sql 34 i) (lexeme unicode '"' text) := by
  have behind : At sql text (i + 1) := place.next
  rw [lexemeAt, if_neg (by decide), place.dropBytes, lexeme_quotedIdent]
  simp only [orPanic, bind, Except.bind, behind.dropBytes]
  rw [if_neg (by simp), if_neg (by simp), if_neg (by decide), if_pos trivial]
  rcases Decimal.cut_spec (p := fun c => decide (c = '"')) text with
    ⟨equal, none⟩ | ⟨name, quote, rest, rfl, isQuote, plain, equal⟩
  · rw [find_singleton_none fun c member => of_decide_eq_false (none c member), equal]
    exact .error _
  · obtain rfl := of_decide_eq_true isQuote
    rw [find_singleton_append fun c member => of_decide_eq_false (plain c member), equal]
    simp only [behind.slice]
    cases name with
    | nil => exact .error _
    | cons first name =>
        have stop : At sql rest (i + 1 + Text.size (first :: name) + 1) := behind.advance.next
        have same : i + 1 + Text.size (first :: name) + 1 = i + (Text.size (first :: name) + 2) := by
          omega
        rw [same] at stop
        rw [if_neg (by simp)]
        exact .ok _ stop

section Lexemes

variable {c : Char} {b : UInt8}

/-- The lexer over bytes finds what the lexer over characters finds. -/
theorem lexemeAt_matches (place : At sql (c :: text) i) (byte : b ∈ String.utf8EncodeChar c) :
    Matches sql (lexemeAt unicode sql b i) (lexeme unicode c text) := by
  by_cases blank : isAsciiWhitespace c = true
  · have one : c.utf8Size = 1 := utf8Size_ascii (ascii_of_isAsciiWhitespace c blank)
    have further := place.next
    rw [one] at further
    rw [lexemeAt, agrees_whitespace c b byte, if_pos blank, lexeme_blank blank]
    exact .ok _ further
  by_cases line : c = '-' ∧ text.head? = some '-'
  · obtain ⟨rfl, hyphen⟩ := line
    obtain ⟨text, rfl⟩ := List.head?_eq_some_iff.mp hyphen
    obtain rfl := byte_eq (by decide) byte
    exact lineAt_matches place
  by_cases block : c = '/' ∧ text.head? = some '*'
  · obtain ⟨rfl, star⟩ := block
    obtain ⟨text, rfl⟩ := List.head?_eq_some_iff.mp star
    obtain rfl := byte_eq (by decide) byte
    exact blockAt_matches place
  by_cases single : c = '\''
  · subst single
    obtain rfl := byte_eq (by decide) byte
    exact stringLexemeAt_matches place
  by_cases double : c = '"'
  · subst double
    obtain rfl := byte_eq (by decide) byte
    exact quotedIdentAt_matches place
  have other {d : Char} (ascii : d.toNat < 128) (differs : c ≠ d) : b ≠ .ofNat d.toNat := by
    have same := agrees_eq ascii c b byte
    simpa [differs] using same
  have notSingle : b ≠ 39 := other (d := '\'') (by decide) single
  have notDouble : b ≠ 34 := other (d := '"') (by decide) double
  have notBlank : ¬ isWhitespaceByte b = true := by rwa [agrees_whitespace c b byte]
  have noLine : ¬ "--".toList.isPrefixOf (c :: text) = true := (isPrefixOf_pair '-' '-').not.mpr line
  have noBlock : ¬ "/*".toList.isPrefixOf (c :: text) = true := (isPrefixOf_pair '/' '*').not.mpr block
  have matched : Matches sql (wordAt unicode sql b i) (word unicode c text) :=
    wordAt_matches place byte
  have read := matched.map some
  rw [lexeme_word (by simpa using blank) line block (not_or.mpr ⟨single, double⟩), lexemeAt,
    if_neg notBlank, place.dropBytes]
  simp only [orPanic, bind, Except.bind]
  rw [if_neg noLine, if_neg noBlock, if_neg notSingle, if_neg notDouble]
  exact read

end Lexemes

end Read

/-! ## Texts -/

/-- The tokens found over bytes are those found over characters. -/
theorem tokensFrom_eq {unicode : Unicode} {sql text : List Char} {i fuel fuel' : Nat}
    (place : At sql text i) (enough : text.length ≤ fuel) (enough' : text.length ≤ fuel')
    (tokens : List Token) :
    tokensFrom unicode sql fuel i tokens =
      (scanText (step unicode sql) fuel' tokens text).mapError Failure.error := by
  induction fuel generalizing text i fuel' tokens with
  | zero =>
      obtain rfl := List.length_eq_zero_iff.mp (Nat.le_zero.mp enough)
      rw [tokensFrom, place.byteAt, scanText]
      rfl
  | succ fuel ih =>
      cases text with
      | nil =>
          rw [tokensFrom, place.byteAt, scanText]
          rfl
      | cons c text =>
          obtain ⟨b, more, encoded⟩ := encode_cons c
          have first : byteAt sql i = some b := by
            rw [place.byteAt, Text.bytes_cons, encoded]
            rfl
          cases fuel' with
          | zero => simp at enough'
          | succ fuel' =>
              have read : Matches sql (lexemeAt unicode sql b i) (lexeme unicode c text) :=
                lexemeAt_matches place (encoded ▸ List.mem_cons_self)
              rw [tokensFrom, first, scanText, step]
              simp only
              generalize lexemeAt unicode sql b i = bytes at read ⊢
              generalize found : lexeme unicode c text = chars at read ⊢
              cases read with
              | error e => rfl
              | @ok tok stop rest further =>
                  have shorter := length_lexeme found
                  rw [List.length_cons] at enough enough'
                  have more (tokens : List Token) : tokensFrom unicode sql fuel stop tokens =
                      (scanText (step unicode sql) fuel' tokens rest).mapError Failure.error :=
                    ih further (by omega) (by omega) tokens
                  cases tok with
                  | none =>
                      refine Eq.trans ?_ (more tokens)
                      exact congrArg (tokensFrom unicode sql fuel stop) (List.append_nil tokens)
                  | some tok =>
                      refine (more (tokens ++ [⟨tok, i, stop⟩])).trans ?_
                      rw [place.eq_sub, further.eq_sub]
                      rfl

/-- The lexer over bytes ends, without a panic, with the tokens of the lexer over characters or its
error. -/
theorem tokenize_eq (unicode : Unicode) (sql : String) :
    tokenize unicode sql = (MockOracle.tokenize unicode sql).mapError Failure.error :=
  tokensFrom_eq (At.start _) (Text.length_le_size _) (by rw [String.length_toList]) []

end MockOracle.ByteLexer
