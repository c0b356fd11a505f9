import MockOracle.Parse.Splitting

/-!
# Scripts and their tokens

`split_script` and `tokenize` agree on where strings, quoted identifiers and comments begin and end:
the statements of a script hold the tokens of the script, cut at its semicolons.
-/

namespace MockOracle.Script

open Semantics Lexer

variable {unicode : Unicode}

/-! ## The text collected so far -/

/-- In front of whatever goes on as `ahead` does, `core` is a text of tokens; behind it white space was
collected. -/
structure Core (unicode : Unicode) (core trail ahead : List Char) (toks : List Tok) : Prop where
  blank : ∀ c ∈ trail, isAsciiWhitespace c = true
  some_iff : core = [] ↔ toks = []
  last : ∀ c ∈ core.getLast?, isWhitespace c = false
  lexes : ∀ b more, Ahead ahead b → Lexes unicode b more → Lexes unicode (core ++ b) (toks ++ more)

/-- The collected text holds the tokens in front of the text that is left. -/
def Collected (unicode : Unicode) (current : List Char) (toks : List Tok) (text : List Char) : Prop :=
  ∃ core trail ahead, current = core ++ trail ∧ Core unicode core trail ahead toks ∧
    (trail = [] → ahead = text) ∧ (trail ≠ [] → Stop ahead)

namespace Collected

variable {current : List Char} {toks : List Tok} {text : List Char}

/-- The text before any statement collects nothing. -/
theorem empty (text : List Char) : Collected unicode [] [] text :=
  ⟨[], [], text, rfl, ⟨by simp, by simp, by simp, fun b more _ lexes => lexes⟩, fun _ => rfl,
    fun some_ => absurd rfl some_⟩

/-- White space and comments separate the tokens. -/
theorem blank {c : Char} (collected : Collected unicode current toks text) (stops : Stop text)
    (blank : isAsciiWhitespace c = true) (rest : List Char) :
    Collected unicode (current ++ [c]) toks rest := by
  obtain ⟨core, trail, ahead, rfl, isCore, here, apart⟩ := collected
  refine ⟨core, trail ++ [c], ahead, List.append_assoc _ _ _, ⟨?_, isCore.some_iff, isCore.last,
    isCore.lexes⟩, fun none => by simp at none, fun _ => ?_⟩
  · intro d member
    rcases List.mem_append.mp member with before | last
    · exact isCore.blank d before
    · rwa [List.mem_singleton.mp last]
  · by_cases none : trail = []
    · rwa [here none]
    · exact apart none

/-- From one stop to another. -/
theorem skip {rest : List Char} (collected : Collected unicode current toks text) (stops : Stop text)
    (blank : ∀ b, Ahead rest b → Blank b) : Collected unicode current toks rest := by
  obtain ⟨core, trail, ahead, rfl, isCore, here, apart⟩ := collected
  by_cases none : trail = []
  · refine ⟨core, trail, rest, rfl, ⟨isCore.blank, isCore.some_iff, isCore.last,
      fun b more goesOn lexes => isCore.lexes b more ?_ lexes⟩, fun _ => rfl, absurd none⟩
    rw [here none]
    exact .stop stops (blank b goesOn)
  · exact ⟨core, trail, ahead, rfl, isCore, fun same => absurd same none, apart⟩

/-- Blanks before a text do not change its tokens. -/
theorem lexes_blanks {trail b : List Char} (blank : ∀ c ∈ trail, isAsciiWhitespace c = true)
    (lexes : Lexes unicode b toks) : Lexes unicode (trail ++ b) toks := by
  induction trail with
  | nil => exact lexes
  | cons c trail ih =>
      rw [List.forall_mem_cons] at blank
      exact .blank (lexeme_blank blank.1) (ih blank.2)

/-- A token comes after those collected. -/
theorem token {c : Char} {x rest : List Char} {tok : Tok}
    (collected : Collected unicode current toks (c :: (x ++ rest)))
    (last : ∀ d ∈ (c :: x).getLast?, isWhitespace d = false)
    (again : ∀ b, Ahead rest b → lexeme unicode c (x ++ b) = .ok (some tok, b)) :
    Collected unicode (current ++ c :: x) (toks ++ [tok]) rest := by
  obtain ⟨core, trail, ahead, rfl, isCore, here, apart⟩ := collected
  refine ⟨core ++ trail ++ c :: x, [], rest, by simp, ⟨by simp, by simp, ?_, ?_⟩, fun _ => rfl,
    fun some_ => absurd rfl some_⟩
  · rw [List.getLast?_append_of_ne_nil _ (by simp)]
    exact last
  · intro b more goesOn lexes
    have token : Lexes unicode (c :: (x ++ b)) (tok :: more) := .token (again b goesOn) lexes
    have further : Ahead ahead (trail ++ c :: (x ++ b)) := by
      cases trail with
      | nil =>
          rw [here rfl]
          exact goesOn.append (c :: x)
      | cons w trail =>
          refine .stop (apart (by simp)) ?_
          rintro d ⟨⟩
          exact isCore.blank _ List.mem_cons_self
    have whole := isCore.lexes _ _ further (lexes_blanks isCore.blank token)
    simpa using whole

end Collected

/-! ## The end of a statement -/

/-- The blanks of ASCII are whitespace. -/
theorem isWhitespace_of_isAscii {c : Char} (blank : isAsciiWhitespace c = true) :
    isWhitespace c = true := by
  simp only [isAsciiWhitespace, Bool.or_eq_true, decide_eq_true_eq] at blank
  rcases blank with (((rfl | rfl) | rfl) | rfl) | rfl <;> decide

/-- A text with tokens has no other white space than the lexer's in front of them. -/
theorem isAsciiWhitespace_of_lexes {c : Char} {text : List Char} {toks : List Tok}
    (ascii : Text.Ascii (c :: text)) (space : isWhitespace c = true)
    (lexes : Lexes unicode (c :: text) toks) : isAsciiWhitespace c = true := by
  obtain ⟨tok, rest, read⟩ : ∃ tok rest, lexeme unicode c text = .ok (tok, rest) := by
    cases lexes with
    | blank read _ => exact ⟨_, _, read⟩
    | token read _ => exact ⟨_, _, read⟩
  cases lexeme_cases read with
  | blank here => exact here
  | line => exact absurd space (by decide)
  | block => exact absurd space (by decide)
  | quoted quote _ _ _ => rcases quote with rfl | rfl <;> exact absurd space (by decide)
  | word solid _ _ =>
      rcases solid ascii with ⟨rfl, -, -⟩ | ⟨⟨rfl, -⟩ | ⟨plain | ⟨rfl, -⟩, -⟩, -⟩
      · exact absurd space (by decide)
      · exact absurd space (by decide)
      · simp [isPlain, space] at plain
      · exact absurd space (by decide)

/-- Leading whitespace does not change the tokens of an ASCII text. -/
theorem lexes_dropWhile {text : List Char} {toks : List Tok} (ascii : Text.Ascii text)
    (lexes : Lexes unicode text toks) : Lexes unicode (text.dropWhile isWhitespace) toks := by
  induction text generalizing toks with
  | nil => exact lexes
  | cons c text ih =>
      by_cases space : isWhitespace c = true
      · rw [List.dropWhile_cons_of_pos space]
        refine ih (fun d member => ascii d (List.mem_cons_of_mem _ member)) ?_
        have blank : lexeme unicode c text = .ok (none, text) :=
          lexeme_blank (isAsciiWhitespace_of_lexes ascii space lexes)
        cases lexes with
        | blank read further =>
            rw [blank] at read
            rwa [(Prod.mk.inj (Except.ok.inj read)).2]
        | token read _ =>
            rw [blank] at read
            cases (Prod.mk.inj (Except.ok.inj read)).1
      · rw [List.dropWhile_cons_of_neg space]
        exact lexes

/-- The text is trimmed to its tokens. -/
theorem trim_collected {core trail : List Char} (blank : ∀ c ∈ trail, isWhitespace c = true)
    (last : ∀ c ∈ core.getLast?, isWhitespace c = false) :
    trim (String.ofList (core ++ trail)) = String.ofList (core.dropWhile isWhitespace) := by
  have drops {text : List Char} (blank : ∀ c ∈ text, isWhitespace c = true) (rest : List Char) :
      (text ++ rest).dropWhile isWhitespace = rest.dropWhile isWhitespace :=
    List.dropWhile_append_of_pos blank
  by_cases none : core = []
  · have nothing := drops blank []
    rw [List.append_nil] at nothing
    simp [trim, none, nothing]
  · obtain ⟨c, isLast⟩ : ∃ c, core.getLast? = some c := by
      cases isLast : core.getLast? with
      | none => exact absurd (List.getLast?_eq_none_iff.mp isLast) none
      | some c => exact ⟨c, rfl⟩
    have solid := last c isLast
    obtain ⟨front, rfl⟩ := List.getLast?_eq_some_iff.mp isLast
    obtain ⟨front', kept⟩ : ∃ front', (front ++ [c]).dropWhile isWhitespace = front' ++ [c] := by
      rw [List.dropWhile_append]
      split
      · exact ⟨[], by simp [solid]⟩
      · exact ⟨_, rfl⟩
    have start : (front ++ [c] ++ trail).dropWhile isWhitespace = front' ++ [c] ++ trail := by
      rw [List.dropWhile_append, kept]
      simp
    have behind : (c :: front'.reverse).dropWhile isWhitespace = c :: front'.reverse :=
      List.dropWhile_cons_of_neg (by rw [solid]; decide)
    simp only [trim, String.toList_ofList, start, kept, List.reverse_append, List.reverse_cons,
      List.reverse_nil, List.nil_append, List.singleton_append]
    rw [drops fun d member => blank d (List.mem_reverse.mp member), behind]
    simp

/-- Where the statement ends its tokens are those collected; a text without tokens is dropped. -/
theorem flush_collected {s : Splitter} {toks : List Tok} {text : List Char}
    (collected : Collected unicode s.current toks text) (stops : Stop text)
    (ascii : Text.Ascii s.current) :
    ∃ pieces, s.flush.out = s.out ++ pieces ∧
      List.Forall₂ (fun (piece : String) toks => Lexes unicode piece.toList toks) pieces
        ([toks].filter (· ≠ [])) := by
  obtain ⟨core, trail, ahead, form, isCore, here, apart⟩ := collected
  have trimmed : trim (String.ofList s.current) = String.ofList (core.dropWhile isWhitespace) := by
    rw [form]
    exact trim_collected (fun c member => isWhitespace_of_isAscii (isCore.blank c member)) isCore.last
  have atEnd : Ahead ahead [] := by
    refine .stop ?_ (by simp [Blank])
    by_cases none : trail = []
    · rwa [here none]
    · exact apart none
  have lexes := isCore.lexes [] [] atEnd .done
  rw [List.append_nil, List.append_nil] at lexes
  have asciiCore : Text.Ascii core := fun c member =>
    ascii c (by rw [form]; exact List.mem_append_left _ member)
  simp only [Splitter.flush, trimmed]
  by_cases none : toks = []
  · rw [isCore.some_iff.mpr none, none]
    exact ⟨[], by simp, by simp⟩
  · have some_ : core.dropWhile isWhitespace ≠ [] := by
      intro blank
      have all := List.dropWhile_eq_nil_iff.mp blank
      cases isLast : core.getLast? with
      | none => exact none (isCore.some_iff.mp (List.getLast?_eq_none_iff.mp isLast))
      | some c =>
          have solid := isCore.last c isLast
          rw [all c (List.mem_of_getLast? isLast)] at solid
          cases solid
    refine ⟨[String.ofList (core.dropWhile isWhitespace)], ?_, ?_⟩
    · rw [if_neg]
      intro same
      exact some_ (by simpa using congrArg String.toList same)
    · rw [List.filter_cons_of_pos (by simpa using none), List.filter_nil]
      refine .cons ?_ .nil
      rw [String.toList_ofList]
      exact lexes_dropWhile asciiCore lexes

/-! ## Lines -/

/-- At the start of a line there is only white space behind the last line's end. -/
def LineStart (atLineStart : Bool) (before : List Char) : Prop :=
  atLineStart = true → ∃ front blank, before = front ++ blank ∧
    (front = [] ∨ front.getLast? = some '\n') ∧ ∀ c ∈ blank, isWhitespace c = true ∧ c ≠ '\n'

/-- No line holds a slash and nothing else but white space. -/
def NoSlashLine (script : List Char) : Prop :=
  ∀ line ∈ script.splitOn '\n', line.filter (fun c => !isWhitespace c) ≠ ['/']

instance (script : List Char) : Decidable (NoSlashLine script) :=
  inferInstanceAs (Decidable (∀ line ∈ script.splitOn '\n', _))

/-- Inside a line nothing is asked of what comes before. -/
theorem LineStart.inside (before : List Char) : LineStart false before := fun start => by cases start

/-- A blank keeps the start of a line, and a newline begins one. -/
theorem LineStart.blank {start : Bool} {before : List Char} {c : Char} (line : LineStart start before)
    (space : isWhitespace c = true) : LineStart (c = '\n' || start) (before ++ [c]) := by
  intro here
  by_cases newline : c = '\n'
  · exact ⟨before ++ [c], [], (List.append_nil _).symm, Or.inr (by simp [newline]),
      List.forall_mem_nil _⟩
  · rw [decide_eq_false newline, Bool.false_or] at here
    obtain ⟨front, blank, rfl, isStart, spaces⟩ := line here
    refine ⟨front, blank ++ [c], List.append_assoc _ _ _, isStart, fun d member => ?_⟩
    rcases List.mem_append.mp member with before | last
    · exact spaces d before
    · rw [List.mem_singleton.mp last]
      exact ⟨space, newline⟩

/-- Splitting at a separator splits both sides of it. -/
theorem splitOn_append_separator {α : Type} [DecidableEq α] (left right : List α) (a : α) :
    (left ++ a :: right).splitOn a = left.splitOn a ++ right.splitOn a := by
  rw [List.splitOn_eq_splitOnP, List.splitOn_eq_splitOnP, List.splitOn_eq_splitOnP]
  exact List.splitOnP_append_cons left right (beq_self_eq_true a)

/-- A text between two line ends is a line. -/
theorem mem_lines {front line after : List Char} (isStart : front = [] ∨ front.getLast? = some '\n')
    (single : '\n' ∉ line) (ends : after = [] ∨ after.head? = some '\n') :
    line ∈ (front ++ (line ++ after)).splitOn '\n' := by
  have first : line ∈ (line ++ after).splitOn '\n' := by
    rcases ends with rfl | newline
    · rw [List.append_nil, List.splitOn_eq_singleton single]
      exact List.mem_singleton_self line
    · obtain ⟨more, rfl⟩ := List.head?_eq_some_iff.mp newline
      rw [splitOn_append_separator, List.splitOn_eq_singleton single]
      exact List.mem_cons_self
  rcases isStart with rfl | newline
  · exact first
  · obtain ⟨front, rfl⟩ := List.getLast?_eq_some_iff.mp newline
    rw [List.append_assoc, List.singleton_append, splitOn_append_separator]
    exact List.mem_append_right _ first

/-- A line ends at a newline or at the end of the text. -/
theorem head_dropWhile_line (text : List Char) :
    text.dropWhile (· ≠ '\n') = [] ∨ (text.dropWhile (· ≠ '\n')).head? = some '\n' := by
  have head := List.head?_dropWhile_not (· ≠ '\n') text
  cases left : text.dropWhile (· ≠ '\n') with
  | nil => exact Or.inl rfl
  | cons c more =>
      rw [left, List.head?_cons] at head
      exact Or.inr (by simpa using head)

/-- A slash at the start of a line is not alone there. -/
theorem NoSlashLine.not_alone {before rest : List Char} {start : Bool}
    (noSlash : NoSlashLine (before ++ '/' :: rest)) (line : LineStart start before)
    (here : start = true) : (rest.takeWhile (· ≠ '\n')).all isWhitespace = false := by
  rw [Bool.eq_false_iff]
  intro spaces
  rw [List.all_eq_true] at spaces
  obtain ⟨front, blank, rfl, isStart, blanks⟩ := line here
  have form : front ++ blank ++ '/' :: rest =
      front ++ (blank ++ '/' :: rest.takeWhile (· ≠ '\n') ++ rest.dropWhile (· ≠ '\n')) := by
    simp [List.takeWhile_append_dropWhile]
  rw [form] at noSlash
  refine noSlash _ (mem_lines isStart ?_ (head_dropWhile_line rest)) ?_
  · intro newline
    rcases List.mem_append.mp newline with inBlank | inRest
    · exact (blanks _ inBlank).2 rfl
    · rcases List.mem_cons.mp inRest with same | inRest
      · cases same
      · have other := List.mem_takeWhile_imp inRest
        simp at other
  · rw [List.filter_append, List.filter_cons_of_pos (by decide)]
    have none {text : List Char} (all : ∀ c ∈ text, isWhitespace c = true) :
        text.filter (fun c => !isWhitespace c) = [] :=
      List.filter_eq_nil_iff.mpr fun c member => by simp [all c member]
    rw [none fun c member => (blanks c member).1, none spaces]
    rfl

/-! ## Scripts -/

/-- The splitter between two lexemes of a script: what is behind it, what is left, and the tokens of
the text it has collected. -/
structure Between (unicode : Unicode) (script before text : List Char) (s : Splitter)
    (toks : List Tok) : Prop where
  whole : script = before ++ text
  ascii : Text.Ascii s.current
  line : text ≠ [] → LineStart s.atLineStart before
  collected : Collected unicode s.current toks text
  uncut : Tok.symbol ";" ∉ toks

/-- What follows a comment is an end of the text. -/
theorem afterComment_suffix (text : List Char) : afterComment text <:+ text := by
  induction text using afterComment.induct with
  | case1 rest => exact ⟨['*', '/'], rfl⟩
  | case2 c rest other ih =>
      rw [afterComment.eq_2 c rest other]
      exact ih.trans (List.suffix_cons c rest)
  | case3 => exact List.suffix_rfl

section Between

variable {script before rest : List Char} {s s' : Splitter} {toks : List Tok} {c : Char}

/-- Between two statements the rest of an ASCII script is ASCII. -/
theorem Between.ascii_text (asciiScript : Text.Ascii script)
    (between : Between unicode script before rest s toks) : Text.Ascii rest := by
  intro d member
  refine asciiScript d ?_
  rw [between.whole]
  exact List.mem_append_right _ member

/-- Collecting ASCII text keeps the current statement ASCII. -/
theorem ascii_collect (ascii : Text.Ascii s.current) {text : List Char} (more : Text.Ascii text) :
    Text.Ascii (s.collect text).current := by
  intro c member
  rcases List.mem_append.mp member with before | here
  · exact ascii c before
  · exact more c here

/-- A token is collected. -/
theorem Between.token {x : List Char} {tok : Tok} (asciiScript : Text.Ascii script)
    (between : Between unicode script before (c :: (x ++ rest)) s toks)
    (last : ∀ d ∈ (c :: x).getLast?, isWhitespace d = false) (other : tok ≠ .symbol ";")
    (again : ∀ b, Ahead rest b → lexeme unicode c (x ++ b) = .ok (some tok, b)) :
    Between unicode script (before ++ c :: x) rest (s.collect (c :: x)) (toks ++ [tok]) where
  whole := by rw [between.whole, List.append_assoc, List.cons_append]
  ascii := ascii_collect between.ascii fun d member =>
    between.ascii_text asciiScript d (by rw [← List.cons_append]; exact List.mem_append_left _ member)
  line _ := .inside _
  collected := between.collected.token last again
  uncut := by
    intro member
    rcases List.mem_append.mp member with before | last
    · exact between.uncut before
    · exact other (List.mem_singleton.mp last).symm

/-- White space is collected. -/
theorem Between.blank (between : Between unicode script before (c :: rest) s toks)
    (blank : isAsciiWhitespace c = true) :
    Between unicode script (before ++ [c]) rest
      { s.push [c] with atLineStart := c = '\n' || s.atLineStart } toks where
  whole := by rw [between.whole, List.append_assoc, List.singleton_append]
  ascii := ascii_collect between.ascii fun d member => by
    rw [List.mem_singleton.mp member]
    simp only [isAsciiWhitespace, Bool.or_eq_true, decide_eq_true_eq] at blank
    rcases blank with (((rfl | rfl) | rfl) | rfl) | rfl <;> decide
  line _ := (between.line (List.cons_ne_nil c rest)).blank (isWhitespace_of_isAscii blank)
  collected := between.collected.blank (Or.inl blank) blank rest
  uncut := between.uncut

/-- Nothing is collected of a comment to the end of its line. -/
theorem Between.comment_line (between : Between unicode script before ('-' :: '-' :: rest) s toks)
    (current : s'.current = s.current)
    (start : rest.dropWhile (· ≠ '\n') ≠ [] → s'.atLineStart = false) :
    Between unicode script (before ++ '-' :: '-' :: rest.takeWhile (· ≠ '\n'))
      (rest.dropWhile (· ≠ '\n')) s' toks where
  whole := by
    rw [between.whole, List.append_assoc, List.cons_append, List.cons_append,
      List.takeWhile_append_dropWhile]
  ascii := by
    rw [current]
    exact between.ascii
  line more := by
    rw [start more]
    exact .inside _
  collected := by
    rw [current]
    refine between.collected.skip (Or.inr (Or.inr (Or.inl ⟨rfl, rfl⟩))) fun b ahead => ?_
    have head := head_dropWhile_line rest
    generalize rest.dropWhile (· ≠ '\n') = left at ahead head
    cases ahead with
    | stop _ blank => exact blank
    | same d _ =>
        rintro e ⟨⟩
        rcases head with none | newline
        · cases none
        · cases newline
          rfl
  uncut := between.uncut

/-- A comment is collected as a blank. -/
theorem Between.comment_block (between : Between unicode script before ('/' :: '*' :: rest) s toks) :
    ∃ comment, Between unicode script (before ++ comment) (afterComment rest) (s.collect [' ']) toks := by
  obtain ⟨comment, ends⟩ := afterComment_suffix rest
  refine ⟨'/' :: '*' :: comment, ?_, ?_, fun _ => .inside _, ?_, between.uncut⟩
  · rw [between.whole, List.append_assoc, List.cons_append, List.cons_append, ends]
  · refine ascii_collect between.ascii fun d member => ?_
    rw [List.mem_singleton.mp member]
    decide
  · exact between.collected.blank (Or.inr (Or.inr (Or.inr ⟨rfl, rfl⟩))) (by decide) _

/-- Where the statement ends, its text is one of the pieces. -/
theorem Between.flush {text : List Char} (between : Between unicode script before text s toks)
    (stops : Stop text) :
    ∃ pieces, s.flush.out = s.out ++ pieces ∧
      List.Forall₂ (fun (piece : String) toks => Lexes unicode piece.toList toks) pieces
        ([toks].filter (· ≠ [])) :=
  flush_collected between.collected stops between.ascii

end Between

/-- From any place between two lexemes the statements hold the tokens, cut at the semicolons. -/
theorem run_lexes {script text : List Char} {toks : List Tok} (asciiScript : Text.Ascii script)
    (noSlash : NoSlashLine script) (lexes : Lexes unicode text toks) :
    ∀ {before : List Char} {s final : Splitter} {toks₀ : List Tok},
      Between unicode script before text s toks₀ → Runs unicode s text final →
      (∀ u ∈ final.atSemicolons, isPlsqlUnit unicode u = false) →
      ∃ pieces, final.flush.out = s.out ++ pieces ∧
        List.Forall₂ (fun (piece : String) toks => Lexes unicode piece.toList toks) pieces
          (((toks₀ ++ toks).splitOn (.symbol ";")).filter (· ≠ [])) := by
  induction lexes with
  | done =>
      intro before s final toks₀ between runs noUnit
      rw [runs_nil] at runs
      rw [runs, List.append_nil, List.splitOn_eq_singleton between.uncut]
      exact between.flush trivial
  | @blank c text rest toks read further ih =>
      intro before s final toks₀ between runs noUnit
      cases lexeme_cases read with
      | blank here =>
          have pieces := ih (between.blank here) (runs_blank here runs) noUnit
          exact pieces
      | line =>
          obtain ⟨s', out, current, start, runs'⟩ := runs_line runs
          rw [← out]
          exact ih (between.comment_line current start) runs' noUnit
      | block =>
          obtain ⟨comment, between'⟩ := between.comment_block
          have pieces := ih between' (runs_block runs) noUnit
          exact pieces
  | @token c text rest tok toks read further ih =>
      intro before s final toks₀ between runs noUnit
      cases lexeme_cases read with
      | @quoted _ x _ _ quote isQuoted other again =>
          have last : ∀ d ∈ (c :: x).getLast?, isWhitespace d = false := by
            rw [List.getLast?_cons_of_ne_nil isQuoted.ne_nil, isQuoted.getLast_eq]
            rintro d ⟨⟩
            rcases quote with rfl | rfl <;> decide
          have pieces := ih (between.token asciiScript last other again)
            (runs_quoted quote isQuoted runs) noUnit
          rwa [List.append_assoc, List.singleton_append] at pieces
      | @word _ x _ _ solid noComment again =>
          rcases solid (between.ascii_text asciiScript) with
            ⟨rfl, rfl, rfl⟩ | ⟨⟨rfl, rfl⟩ | plain, other⟩
          · obtain ⟨asked, further'⟩ := runs_semicolon runs
            obtain ⟨s', out, current, start, runs'⟩ := further' (noUnit _ asked)
            obtain ⟨pieces, flushed, lexed⟩ := between.flush (Or.inr (Or.inl rfl))
            have between' : Between unicode script (before ++ [';']) rest s' [] := by
              refine ⟨by rw [between.whole]; simp, ?_, fun _ => ?_, ?_, by simp⟩
              · rw [current]
                exact List.forall_mem_nil _
              · rw [start]
                exact .inside _
              · rw [current]
                exact .empty rest
            obtain ⟨pieces', flushed', lexed'⟩ := ih between' runs' noUnit
            refine ⟨pieces ++ pieces', ?_, ?_⟩
            · rw [flushed', out, flushed, List.append_assoc]
            · rw [splitOn_append_separator, List.splitOn_eq_singleton between.uncut,
                List.filter_append]
              exact List.rel_append lexed lexed'
          · have more (here : s.atLineStart = true) :
                (rest.takeWhile (· ≠ '\n')).all isWhitespace = false := by
              rw [between.whole] at noSlash
              exact noSlash.not_alone (between.line (List.cons_ne_nil _ _)) here
            have pieces := ih (between.token asciiScript (by rintro d ⟨⟩; decide) other again)
              (runs_slash (noComment rfl) more runs) noUnit
            rwa [List.append_assoc, List.singleton_append] at pieces
          · have pieces := ih (between.token asciiScript plain.last other again)
              (runs_plain plain (List.cons_ne_nil c x) runs) noUnit
            rwa [List.append_assoc, List.singleton_append] at pieces

end MockOracle.Script

namespace MockOracle

open Semantics Lexer

variable {unicode : Unicode} {script : String}

/-- The statements of a script hold the tokens of the script, cut at its semicolons; cuts without
tokens are no statements. -/
theorem split_script_tokens {tokens : List Token} (ascii : Text.Ascii script.toList)
    (accepted : tokenize unicode script = .ok tokens) (noSlash : Script.NoSlashLine script.toList)
    (noUnit : ∀ text ∈ (Script.run unicode script).atSemicolons, isPlsqlUnit unicode text = false) :
    (splitScript unicode script).map (fun stmt => (tokenize unicode stmt).map (List.map Token.tok)) =
      (((tokens.map Token.tok).splitOn (.symbol ";")).filter (· ≠ [])).map Except.ok := by
  have lexes : Lexes unicode script.toList (tokens.map Token.tok) :=
    tokenize_iff.mp (by rw [accepted]; rfl)
  have start : Script.Between unicode script.toList [] script.toList {} [] :=
    ⟨rfl, List.forall_mem_nil _, fun _ _ => ⟨[], [], rfl, Or.inl rfl, List.forall_mem_nil _⟩,
      .empty _, List.not_mem_nil⟩
  obtain ⟨pieces, out, lexed⟩ :=
    Script.run_lexes ascii noSlash lexes start (Script.runs_run script) noUnit
  have tokenized : ∀ {pieces : List String} {cuts : List (List Tok)},
      List.Forall₂ (fun piece toks => Lexes unicode piece.toList toks) pieces cuts →
      pieces.map (fun stmt => (tokenize unicode stmt).map (List.map Token.tok)) =
        cuts.map Except.ok := by
    intro pieces cuts lexed
    induction lexed with
    | nil => rfl
    | cons lexes _ ih => rw [List.map_cons, List.map_cons, ih, tokenize_iff.mpr lexes]
  rw [splitScript, out]
  exact tokenized lexed

/-- Quotes and comments that hold semicolons do not split a script. -/
theorem split_script_tokens_quotes :
    ∃ tokens, tokenize Unicode.sample "a ';''' -- ;\n\";\" ;/*;*/; b/2" = .ok tokens ∧
      (splitScript Unicode.sample "a ';''' -- ;\n\";\" ;/*;*/; b/2").map
          (fun stmt => (tokenize Unicode.sample stmt).map (List.map Token.tok)) =
        (((tokens.map Token.tok).splitOn (.symbol ";")).filter (· ≠ [])).map Except.ok :=
  ⟨_, rfl, split_script_tokens (by decide) rfl (by decide) (by decide)⟩

end MockOracle
