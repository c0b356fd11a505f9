import MockOracle.Parse.Lexing

/-!
# Texts and their tokens

What `tokenize` finds in a text is a sequence of lexemes, each at the place where the one in front
ends. The tokens of a text depend on the text alone, and its lexemes are of five kinds.
-/

namespace MockOracle.Lexer

open Semantics

variable {unicode : Unicode}

/-! ## Quoted text -/

/-- Quoted text behind its opening quote: to the closing quote, where two quotes stand for one. -/
inductive Quoted (quote : Char) : List Char → Prop
  | close : Quoted quote [quote]
  | double {x : List Char} (more : Quoted quote x) : Quoted quote (quote :: quote :: x)
  | char {x : List Char} {c : Char} (other : c ≠ quote) (more : Quoted quote x) :
      Quoted quote (c :: x)

/-- Quoted text is not empty: it has its closing quote. -/
theorem Quoted.ne_nil {quote : Char} {x : List Char} (quoted : Quoted quote x) : x ≠ [] := by
  cases quoted <;> simp

/-- Quoted text ends in its quote. -/
theorem Quoted.getLast_eq {quote : Char} {x : List Char} (quoted : Quoted quote x) :
    x.getLast? = some quote := by
  induction quoted with
  | close => rfl
  | double more ih =>
      rw [List.getLast?_cons_of_ne_nil (by simp), List.getLast?_cons_of_ne_nil (ne_nil more), ih]
  | char other more ih =>
      rw [List.getLast?_cons_of_ne_nil (ne_nil more), ih]

/-- A mapped result comes from a result. -/
theorem map_eq_ok {ε α β : Type} {f : α → β} {r : Except ε α} {b : β} (returns : r.map f = .ok b) :
    ∃ a, r = .ok a ∧ f a = b := by
  cases r with
  | error e => cases returns
  | ok a => exact ⟨a, rfl, Except.ok.inj returns⟩

/-- A string is read again in front of a text that goes on alike. -/
theorem readString_in_place {text s rest : List Char} (read : readString text = .ok (s, rest)) :
    ∃ x, text = x ++ rest ∧ Quoted '\'' x ∧
      ∀ b, Ahead rest b → readString (x ++ b) = .ok (s, b) := by
  induction text using readString.induct generalizing s with
  | case1 text ih =>
      rw [readString] at read
      obtain ⟨⟨s', rest'⟩, read', same⟩ := map_eq_ok read
      obtain ⟨rfl, rfl⟩ := Prod.mk.inj same
      obtain ⟨x, rfl, quoted, again⟩ := ih read'
      refine ⟨'\'' :: '\'' :: x, rfl, .double quoted, fun b ahead => ?_⟩
      rw [List.cons_append, List.cons_append, readString, again b ahead]
      rfl
  | case2 text single =>
      rw [readString.eq_2 text single] at read
      obtain ⟨rfl, rfl⟩ := Prod.mk.inj (Except.ok.inj read)
      refine ⟨['\''], rfl, .close, fun b ahead => ?_⟩
      refine readString.eq_2 b fun b' same => ?_
      obtain ⟨text', here, -⟩ := (same ▸ ahead).of_cons (by decide)
      exact single text' here
  | case3 c text _ other ih =>
      have plain : ∀ text, readString (c :: text) =
          (readString text).map fun read => (c :: read.1, read.2) :=
        fun text => readString.eq_3 c text (fun _ same _ => other same) other
      rw [plain] at read
      obtain ⟨⟨s', rest'⟩, read', same⟩ := map_eq_ok read
      obtain ⟨rfl, rfl⟩ := Prod.mk.inj same
      obtain ⟨x, rfl, quoted, again⟩ := ih read'
      refine ⟨c :: x, rfl, .char other quoted, fun b ahead => ?_⟩
      rw [List.cons_append, plain, again b ahead]
      rfl
  | case4 => cases read

/-- A name without quotes is quoted text with its closing quote. -/
theorem quoted_of_cut {name : List Char} (plain : ∀ c ∈ name, decide (c = '"') = false) :
    Quoted '"' (name ++ ['"']) := by
  induction name with
  | nil => exact .close
  | cons c name ih =>
      rw [List.forall_mem_cons] at plain
      exact .char (of_decide_eq_false plain.1) (ih plain.2)

/-! ## Lexemes -/

/-- What is found at the start of a text. -/
inductive Lexeme (unicode : Unicode) : Char → List Char → Option Tok → List Char → Prop
  | blank {c : Char} {rest : List Char} (here : isAsciiWhitespace c = true) :
      Lexeme unicode c rest none rest
  | line {rest : List Char} : Lexeme unicode '-' ('-' :: rest) none (rest.dropWhile (· ≠ '\n'))
  | block {rest : List Char} : Lexeme unicode '/' ('*' :: rest) none (afterComment rest)
  | quoted {c : Char} {x rest : List Char} {tok : Tok} (quote : c = '\'' ∨ c = '"')
      (isQuoted : Quoted c x) (other : tok ≠ .symbol ";")
      (again : ∀ b, Ahead rest b → lexeme unicode c (x ++ b) = .ok (some tok, b)) :
      Lexeme unicode c (x ++ rest) (some tok) rest
  | word {c : Char} {x rest : List Char} {tok : Tok}
      (solid : Text.Ascii (c :: (x ++ rest)) → Solid c x rest tok)
      (noComment : c = '/' → (x ++ rest).head? ≠ some '*')
      (again : ∀ b, Ahead rest b → lexeme unicode c (x ++ b) = .ok (some tok, b)) :
      Lexeme unicode c (x ++ rest) (some tok) rest

section Cases

variable {c : Char} {text rest : List Char}

/-- Two characters are in front of a text if they are its first two. -/
theorem isPrefixOf_pair (p q : Char) :
    [p, q].isPrefixOf (c :: text) = true ↔ c = p ∧ text.head? = some q := by
  rw [List.isPrefixOf_iff_prefix, List.cons_prefix_cons]
  cases text with
  | nil => simp
  | cons d text => simp [List.cons_prefix_cons, eq_comm]

/-- White space is no token. -/
theorem lexeme_blank (blank : isAsciiWhitespace c = true) : lexeme unicode c text = .ok (none, text) := by
  rw [lexeme]
  exact if_pos blank

/-- A comment goes to the end of its line. -/
theorem lexeme_line : lexeme unicode '-' ('-' :: text) = .ok (none, text.dropWhile (· ≠ '\n')) := rfl

/-- A comment in brackets goes to its end. -/
theorem lexeme_block : lexeme unicode '/' ('*' :: text) = .ok (none, afterComment text) := rfl

/-- A quote starts a string. -/
theorem lexeme_string :
    lexeme unicode '\'' text =
      (readString text).map fun (s, rest') => (some (.str (String.ofList s)), rest') := rfl

/-- Double quotes start a name, which must not be empty. -/
theorem lexeme_quotedIdent :
    lexeme unicode '"' text =
      match Decimal.cut (· = '"') text with
      | (_, none) => .error ⟨1740, "missing double quote in identifier"⟩
      | ([], some _) => .error ⟨1741, "illegal zero-length identifier"⟩
      | (name, some rest') => .ok (some (.quotedIdent (String.ofList name)), rest') := rfl

/-- What is neither white space nor comment nor quoted is a word. -/
theorem lexeme_word (solid : isAsciiWhitespace c = false) (line : ¬ (c = '-' ∧ text.head? = some '-'))
    (block : ¬ (c = '/' ∧ text.head? = some '*')) (quote : ¬ (c = '\'' ∨ c = '"')) :
    lexeme unicode c text = (word unicode c text).map fun (tok, rest') => (some tok, rest') := by
  rw [lexeme]
  exact (if_neg (by rw [solid]; decide)).trans ((if_neg ((isPrefixOf_pair '-' '-').not.mpr line)).trans
    ((if_neg ((isPrefixOf_pair '/' '*').not.mpr block)).trans
      ((if_neg fun same => quote (Or.inl same)).trans (if_neg fun same => quote (Or.inr same)))))

/-- What the lexer finds is one of these. -/
theorem lexeme_cases {tok : Option Tok} (read : lexeme unicode c text = .ok (tok, rest)) :
    Lexeme unicode c text tok rest := by
  by_cases blank : isAsciiWhitespace c = true
  · rw [lexeme_blank blank] at read
    obtain ⟨rfl, rfl⟩ := Prod.mk.inj (Except.ok.inj read)
    exact .blank blank
  by_cases line : c = '-' ∧ text.head? = some '-'
  · obtain ⟨rfl, hyphen⟩ := line
    obtain ⟨more, rfl⟩ := List.head?_eq_some_iff.mp hyphen
    obtain ⟨rfl, rfl⟩ := Prod.mk.inj (Except.ok.inj read)
    exact .line
  by_cases block : c = '/' ∧ text.head? = some '*'
  · obtain ⟨rfl, star⟩ := block
    obtain ⟨more, rfl⟩ := List.head?_eq_some_iff.mp star
    obtain ⟨rfl, rfl⟩ := Prod.mk.inj (Except.ok.inj read)
    exact .block
  by_cases quote : c = '\'' ∨ c = '"'
  · rcases quote with rfl | rfl
    · rw [lexeme_string] at read
      obtain ⟨⟨s, rest'⟩, read', same⟩ := map_eq_ok read
      obtain ⟨rfl, rfl⟩ := Prod.mk.inj same
      obtain ⟨x, rfl, quoted, again⟩ := readString_in_place read'
      refine .quoted (Or.inl rfl) quoted (by simp) fun b ahead => ?_
      rw [lexeme_string, again b ahead]
      rfl
    · rw [lexeme_quotedIdent] at read
      rcases Decimal.cut_spec (p := fun c => decide (c = '"')) text with
        ⟨equal, -⟩ | ⟨name, d, rest', rfl, isQuote, plain, equal⟩
      · rw [equal] at read
        cases read
      · rw [equal] at read
        cases name with
        | nil => cases read
        | cons first name =>
            obtain ⟨rfl, rfl⟩ := Prod.mk.inj (Except.ok.inj read)
            obtain rfl := of_decide_eq_true isQuote
            rw [List.append_cons]
            refine .quoted (Or.inr rfl) (quoted_of_cut plain) (by simp) fun b _ => ?_
            rw [lexeme_quotedIdent, ← List.append_cons, Decimal.cut_append plain (by decide)]
  · rw [Bool.not_eq_true] at blank
    rw [lexeme_word blank line block quote] at read
    obtain ⟨⟨tok, rest'⟩, read', same⟩ := map_eq_ok read
    obtain ⟨rfl, rfl⟩ := Prod.mk.inj same
    obtain ⟨x, rfl, solid, again⟩ := word_in_place line read'
    refine .word solid (fun slash star => block ⟨slash, star⟩) fun b ahead => ?_
    have onward := ahead.append x
    rw [lexeme_word blank (fun comment => line ⟨comment.1, onward.of_head comment.2 (by decide)⟩)
      (fun comment => block ⟨comment.1, onward.of_head comment.2 (by decide)⟩) quote, again b ahead]
    rfl

/-- A comment is not longer than the text. -/
theorem length_afterComment (text : List Char) : (afterComment text).length ≤ text.length := by
  induction text using afterComment.induct with
  | case1 rest =>
      rw [afterComment, List.length_cons, List.length_cons]
      omega
  | case2 c rest other ih =>
      rw [afterComment.eq_2 c rest other, List.length_cons]
      exact ih.trans (Nat.le_succ _)
  | case3 => exact Nat.le_refl _

/-- What is found is not longer than the text. -/
theorem length_lexeme {tok : Option Tok} (read : lexeme unicode c text = .ok (tok, rest)) :
    rest.length ≤ text.length := by
  cases lexeme_cases read with
  | blank _ => exact Nat.le_refl _
  | line =>
      rw [List.length_cons]
      exact (List.dropWhile_suffix _).length_le.trans (Nat.le_succ _)
  | block =>
      rw [List.length_cons]
      exact (length_afterComment _).trans (Nat.le_succ _)
  | quoted _ _ _ _ => simp
  | word _ _ _ => simp

end Cases

/-! ## Texts -/

/-- The text holds these tokens. -/
inductive Lexes (unicode : Unicode) : List Char → List Tok → Prop
  | done : Lexes unicode [] []
  | blank {c : Char} {text rest : List Char} {toks : List Tok}
      (read : lexeme unicode c text = .ok (none, rest)) (further : Lexes unicode rest toks) :
      Lexes unicode (c :: text) toks
  | token {c : Char} {text rest : List Char} {tok : Tok} {toks : List Tok}
      (read : lexeme unicode c text = .ok (some tok, rest)) (further : Lexes unicode rest toks) :
      Lexes unicode (c :: text) (tok :: toks)

/-- Each step shortens what is left to read. -/
theorem shortens_step (sql : List Char) : Shortens (step unicode sql) := by
  intro tokens c text tokens' rest read
  obtain ⟨⟨tok, rest'⟩, found, same⟩ := sequential_except _ read
  have left : rest = rest' := by
    cases tok <;> exact (Prod.mk.inj (Except.ok.inj same)).2.symm
  rw [left]
  exact length_lexeme found

/-- What the lexer scans is what the text holds. -/
theorem lexes_of_scans {sql text : List Char} {tokens final : List Token}
    (run : Scans (step unicode sql) tokens text final) :
    ∃ toks, final.map Token.tok = tokens.map Token.tok ++ toks ∧ Lexes unicode text toks := by
  induction run with
  | done tokens => exact ⟨[], (List.append_nil _).symm, .done⟩
  | step read _ ih =>
      obtain ⟨toks, total, lexes⟩ := ih
      obtain ⟨⟨tok, rest'⟩, found, same⟩ := sequential_except _ read
      cases tok with
      | none =>
          obtain ⟨rfl, rfl⟩ := Prod.mk.inj (Except.ok.inj same)
          exact ⟨toks, total, .blank found lexes⟩
      | some tok =>
          obtain ⟨rfl, rfl⟩ := Prod.mk.inj (Except.ok.inj same)
          refine ⟨tok :: toks, ?_, .token found lexes⟩
          rw [total, List.map_append, List.append_assoc]
          rfl

/-- What a text holds is what the lexer scans. -/
theorem scans_of_lexes {text : List Char} {toks : List Tok} (lexes : Lexes unicode text toks)
    (sql : List Char) (tokens : List Token) :
    ∃ final, Scans (step unicode sql) tokens text final ∧
      final.map Token.tok = tokens.map Token.tok ++ toks := by
  induction lexes generalizing tokens with
  | done => exact ⟨tokens, .done tokens, (List.append_nil _).symm⟩
  | blank read _ ih =>
      obtain ⟨final, run, total⟩ := ih tokens
      refine ⟨final, .step ?_ run, total⟩
      rw [step, read]
      rfl
  | @token c text rest tok toks read _ ih =>
      obtain ⟨final, run, total⟩ := ih (tokens ++ [⟨tok, Text.size sql - Text.size (c :: text),
        Text.size sql - Text.size rest⟩])
      refine ⟨final, .step ?_ run, ?_⟩
      · rw [step, read]
        rfl
      · rw [total, List.map_append, List.append_assoc]
        rfl

/-- The tokens of a text are those it is scanned to. -/
theorem tokenize_eq_ok_iff {sql : String} {tokens : List Token} :
    tokenize unicode sql = .ok tokens ↔ Scans (step unicode sql.toList) [] sql.toList tokens :=
  scanText_eq_pure_iff (sequential_except _) (fun _ _ same => Except.ok.inj same)
    (shortens_step sql.toList) (by rw [String.length_toList])

/-- The tokens of a text are found by its lexemes alone. -/
theorem tokenize_iff {sql : String} {toks : List Tok} :
    (tokenize unicode sql).map (List.map Token.tok) = .ok toks ↔ Lexes unicode sql.toList toks := by
  constructor
  · intro found
    obtain ⟨final, tokenized, rfl⟩ := map_eq_ok found
    obtain ⟨toks, total, lexes⟩ := lexes_of_scans (tokenize_eq_ok_iff.mp tokenized)
    rw [total]
    exact lexes
  · intro lexes
    obtain ⟨final, run, total⟩ := scans_of_lexes lexes sql.toList []
    rw [tokenize_eq_ok_iff.mpr run, ← List.nil_append toks]
    exact congrArg Except.ok total

end MockOracle.Lexer
