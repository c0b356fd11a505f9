import MockOracle.Parse.Lexemes
import MockOracle.Parse.Script

/-!
# Runs of the splitter

What `split_script` does with the characters of one lexeme: it collects the characters of a token and
a blank for a comment. Only a `;` ends the statement, or a line with a `/` alone.
-/

namespace MockOracle.Script

open Semantics Lexer

variable {unicode : Unicode}

/-- A run of the splitter over a text. -/
def Runs (unicode : Unicode) (s : Splitter) (text : List Char) (final : Splitter) : Prop :=
  Scans (m := Id) (step unicode) s text final

namespace Splitter

/-- Collects a text that does not end with white space. -/
def collect (s : Splitter) (text : List Char) : Splitter :=
  { s with current := s.current ++ text, atLineStart := false }

/-- A text without blanks goes to the current statement, and a line has begun. -/
theorem push_after {s : Splitter} {text : List Char} {c : Char} (solid : isWhitespace c = false) :
    (s.push text).after c = s.collect text := by
  have other : c ≠ '\n' := by
    rintro rfl
    revert solid
    decide
  rw [after, if_neg other, solid]
  rfl

/-- Collecting two texts collects them together. -/
theorem collect_collect (s : Splitter) (left right : List Char) :
    (s.collect left).collect right = s.collect (left ++ right) := by
  simp [collect]

end Splitter

section Steps

variable {s final : Splitter} {c : Char} {rest : List Char}

/-- At the end of the script the splitter is final. -/
theorem runs_nil : Runs unicode s [] final ↔ final = s := by
  constructor
  · rintro ⟨⟩
    rfl
  · rintro rfl
    exact .done _

/-- The splitter takes a step at the first character. -/
theorem runs_cons :
    Runs unicode s (c :: rest) final ↔
      Runs unicode (step unicode s c rest).1 (step unicode s c rest).2 final := by
  constructor
  · rintro (_ | ⟨read, further⟩)
    have same : step unicode s c rest = (_, _) := read
    rw [same]
    exact further
  · exact fun further => .step rfl further

/-- The text after a quoted one is no longer. -/
theorem length_takeQuoted (quote : Char) (text : List Char) :
    (takeQuoted quote text).2.length ≤ text.length := by
  induction text with
  | nil => exact Nat.le_refl _
  | cons d rest ih =>
      rw [takeQuoted]
      split
      · exact Nat.le_succ _
      · exact ih.trans (Nat.le_succ _)

/-- Neither is the text after a comment. -/
theorem length_skipComment (prev : Char) (text : List Char) :
    (skipComment prev text).length ≤ text.length := by
  induction text generalizing prev with
  | nil => exact Nat.le_refl _
  | cons d rest ih =>
      rw [skipComment]
      split
      · exact Nat.le_succ _
      · exact (ih d).trans (Nat.le_succ _)

/-- Each step shortens the text. -/
theorem shortens_step : Shortens (m := Id) (step unicode) := by
  intro s c rest s' rest' read
  have left : (step unicode s c rest).2 = rest' := congrArg Prod.snd read
  rw [← left]
  unfold step
  split
  · exact length_takeQuoted c rest
  split
  · have shorter := (List.dropWhile_suffix (l := rest) (· ≠ '\n')).length_le
    split
    · next more same =>
        rw [same] at shorter
        exact (Nat.le_succ _).trans shorter
    · exact Nat.zero_le _
  split
  · exact (length_skipComment _ _).trans (by rw [List.length_drop]; exact Nat.sub_le _ _)
  split
  · exact Nat.le_refl _
  split
  · exact (List.dropWhile_suffix _).length_le
  · exact Nat.le_refl _

/-- The splitter runs over the whole script. -/
theorem runs_run (script : String) : Runs unicode {} script.toList (run unicode script) := by
  have bounded : script.toList.length ≤ script.length := by rw [String.length_toList]
  exact (scanText_eq_pure_iff sequential_id (fun _ _ same => same) shortens_step bounded).mp rfl

/-- The texts collected at a `;` stay on record. -/
theorem atSemicolons_step {text : List Char} (before : text ∈ s.atSemicolons) :
    text ∈ (step unicode s c rest).1.atSemicolons := by
  unfold step
  split
  · exact before
  split
  · split <;> exact before
  split
  · exact before
  split
  · simp only
    split <;> exact List.mem_append_left _ before
  split <;> exact before

/-- A statement that was split off stays among the statements. -/
theorem atSemicolons_runs {text rest : List Char} (runs : Runs unicode s rest final)
    (before : text ∈ s.atSemicolons) : text ∈ final.atSemicolons := by
  unfold Runs at runs
  induction runs with
  | done _ => exact before
  | @step s s' final c rest rest' read _ ih =>
      have kept : text ∈ (step unicode s c rest).1.atSemicolons := atSemicolons_step before
      have same : step unicode s c rest = (s', rest') := read
      rw [same] at kept
      exact ih kept

end Steps

/-! ## Lexemes -/

section Lexemes

variable {s final : Splitter} {c : Char} {x rest : List Char}

/-- A character that begins nothing else is collected as it is. -/
theorem not_special_of_solid (solid : ¬ (c = '\'' ∨ c = '"')) (semicolon : c ≠ ';')
    (line : ¬ (c = '-' ∧ rest.head? = some '-')) (block : ¬ (c = '/' ∧ rest.head? = some '*'))
    (alone : ¬ (c = '/' ∧ s.atLineStart = true ∧
      (rest.takeWhile (· ≠ '\n')).all isWhitespace = true)) :
    step unicode s c rest = ((s.push [c]).after c, rest) := by
  rw [step, if_neg (by simpa using solid), if_neg (by simpa using line), if_neg (by simpa using block),
    if_neg semicolon, if_neg (by simpa using alone)]

/-- White space is collected. -/
theorem runs_blank (blank : isAsciiWhitespace c = true) (runs : Runs unicode s (c :: rest) final) :
    Runs unicode { s.push [c] with atLineStart := c = '\n' || s.atLineStart } rest final := by
  have marks : ¬ (c = '\'' ∨ c = '"') ∧ c ≠ ';' ∧ c ≠ '-' ∧ c ≠ '/' ∧ isWhitespace c = true := by
    simp only [isAsciiWhitespace, Bool.or_eq_true, decide_eq_true_eq] at blank
    rcases blank with (((rfl | rfl) | rfl) | rfl) | rfl <;> decide
  obtain ⟨quote, semicolon, hyphen, slash, space⟩ := marks
  rw [runs_cons, not_special_of_solid quote semicolon (fun line => hyphen line.1)
    (fun block => slash block.1) (fun alone => slash alone.1)] at runs
  have state : (s.push [c]).after c =
      { s.push [c] with atLineStart := c = '\n' || s.atLineStart } := by
    by_cases newline : c = '\n' <;> simp [Splitter.after, space, newline, Splitter.push]
  rwa [state] at runs

/-- A plain character is collected. -/
theorem runs_solid (solid : isPlain c = true ∨ c = '-' ∧ rest.head? ≠ some '-')
    (runs : Runs unicode s (c :: rest) final) : Runs unicode (s.collect [c]) rest final := by
  have marks : isWhitespace c = false ∧ ¬ (c = '\'' ∨ c = '"') ∧ c ≠ ';' ∧ c ≠ '/' ∧
      ¬ (c = '-' ∧ rest.head? = some '-') := by
    rcases solid with plain | ⟨rfl, single⟩
    · simp only [isPlain, Bool.and_eq_true, Bool.not_eq_true', Bool.or_eq_false_iff,
        decide_eq_false_iff_not] at plain
      tauto
    · refine ⟨by decide, by decide, by decide, by decide, fun line => single line.2⟩
  obtain ⟨space, quote, semicolon, slash, line⟩ := marks
  rw [runs_cons, not_special_of_solid quote semicolon line (fun block => slash block.1)
    (fun alone => slash alone.1), Splitter.push_after space] at runs
  exact runs

/-- The characters of a token without quotes are collected. -/
theorem runs_plain (plain : Plain x rest) (nonempty : x ≠ [])
    (runs : Runs unicode s (x ++ rest) final) : Runs unicode (s.collect x) rest final := by
  induction x generalizing s with
  | nil => exact absurd rfl nonempty
  | cons c x ih =>
      have further := runs_solid plain.1 runs
      cases x with
      | nil => exact further
      | cons d x =>
          have whole := ih plain.2 (by simp) further
          rwa [Splitter.collect_collect] at whole

/-- A slash that divides is collected. -/
theorem runs_slash (noComment : rest.head? ≠ some '*')
    (more : s.atLineStart = true → (rest.takeWhile (· ≠ '\n')).all isWhitespace = false)
    (runs : Runs unicode s ('/' :: rest) final) : Runs unicode (s.collect ['/']) rest final := by
  rw [runs_cons, not_special_of_solid (by decide) (by decide) (fun line => by cases line.1)
    (fun block => noComment block.2) (fun alone => by
      rw [more alone.2.1] at alone
      exact absurd alone.2.2 (by decide)), Splitter.push_after (by decide)] at runs
  exact runs

/-- Quoted text is collected as the lexer reads it, a doubled quote as the end of one text and the
start of another. -/
theorem runs_quoted (quote : c = '\'' ∨ c = '"') (quoted : Quoted c x)
    (runs : Runs unicode s (c :: (x ++ rest)) final) : Runs unicode (s.collect (c :: x)) rest final := by
  have solid : isWhitespace c = false := by rcases quote with rfl | rfl <;> decide
  have start : ∀ (s : Splitter) (text : List Char), step unicode s c text =
      (s.collect (c :: (takeQuoted c text).1), (takeQuoted c text).2) := by
    intro s text
    rw [step, if_pos (by simpa using quote)]
    simp only [Splitter.push_after solid]
  rw [runs_cons, start] at runs
  suffices general : ∀ front, Runs unicode (s.collect (front ++ (takeQuoted c (x ++ rest)).1))
      (takeQuoted c (x ++ rest)).2 final → Runs unicode (s.collect (front ++ x)) rest final from
    general [c] runs
  clear runs
  induction quoted with
  | close =>
      intro front runs
      simpa [takeQuoted] using runs
  | @double x _ ih =>
      intro front runs
      simp only [List.cons_append, takeQuoted, if_pos] at runs
      rw [runs_cons, start, Splitter.collect_collect] at runs
      have whole := ih (front ++ [c, c]) (by simpa using runs)
      simpa using whole
  | @char x d other _ ih =>
      intro front runs
      simp only [List.cons_append, takeQuoted, if_neg other] at runs
      have whole := ih (front ++ [d]) (by simpa using runs)
      simpa using whole

/-- A comment that has begun ends at its mark or further on. -/
theorem skipComment_eq (prev : Char) (text : List Char) :
    skipComment prev text =
      if prev = '*' ∧ text.head? = some '/' then text.tail else afterComment text := by
  induction text generalizing prev with
  | nil => simp [skipComment, afterComment]
  | cons d rest ih =>
      by_cases ends : prev = '*' ∧ d = '/'
      · simp [skipComment, ends]
      · have right : ¬ (prev = '*' ∧ (d :: rest).head? = some '/') := by simpa using ends
        rw [skipComment, if_neg (by simpa using ends), ih d, if_neg right]
        cases rest with
        | nil => simp [afterComment]
        | cons e rest =>
            by_cases star : d = '*' ∧ e = '/'
            · obtain ⟨rfl, rfl⟩ := star
              rfl
            · rw [if_neg (by simpa using star)]
              refine (afterComment.eq_2 d (e :: rest) fun rest' isStar same => ?_).symm
              exact star ⟨isStar, (List.cons.inj same).1⟩

/-- A comment is collected as a blank. -/
theorem runs_block (runs : Runs unicode s ('/' :: '*' :: rest) final) :
    Runs unicode (s.collect [' ']) (afterComment rest) final := by
  have same : step unicode s '/' ('*' :: rest) = (s.collect [' '], skipComment ' ' rest) := rfl
  rwa [runs_cons, same, skipComment_eq, if_neg (fun star => by cases star.1)] at runs

/-- A line comment is replaced by the newline after it. -/
theorem step_line : step unicode s '-' ('-' :: rest) =
    match rest.dropWhile (· ≠ '\n') with
    | newline :: rest' => ({ s.push [newline] with atLineStart := true }, rest')
    | [] => ({ s with atLineStart := true }, []) :=
  rfl

/-- A comment to the end of a line leaves the scanner where the line ends. -/
theorem runs_line (runs : Runs unicode s ('-' :: '-' :: rest) final) :
    ∃ s' : Splitter, s'.out = s.out ∧ s'.current = s.current ∧
      (rest.dropWhile (· ≠ '\n') ≠ [] → s'.atLineStart = false) ∧
      Runs unicode s' (rest.dropWhile (· ≠ '\n')) final := by
  rw [runs_cons] at runs
  rw [step_line] at runs
  cases left : rest.dropWhile (· ≠ '\n') with
  | nil =>
      rw [left] at runs
      exact ⟨{ s with atLineStart := true }, rfl, rfl, fun more => absurd rfl more, runs⟩
  | cons newline more =>
      have isNewline : newline = '\n' := by
        have head := List.head?_dropWhile_not (· ≠ '\n') rest
        rw [left, List.head?_cons] at head
        simpa using head
      rw [left, isNewline] at runs
      refine ⟨{ s with atLineStart := false }, rfl, rfl, fun _ => rfl, ?_⟩
      rw [isNewline, runs_cons]
      exact runs

/-- Where no PL/SQL unit has been collected a semicolon ends the statement. -/
theorem runs_semicolon (runs : Runs unicode s (';' :: rest) final) :
    s.current ∈ final.atSemicolons ∧ (isPlsqlUnit unicode s.current = false →
      ∃ s', s'.out = s.flush.out ∧ s'.current = [] ∧ s'.atLineStart = false ∧
        Runs unicode s' rest final) := by
  have same : step unicode s ';' rest =
      ((if isPlsqlUnit unicode s.current then
          Splitter.push { s with atSemicolons := s.atSemicolons ++ [s.current] } [';']
        else Splitter.flush { s with atSemicolons := s.atSemicolons ++ [s.current] }).after ';',
        rest) := rfl
  rw [runs_cons, same] at runs
  constructor
  · refine atSemicolons_runs runs ?_
    simp only
    split <;> exact List.mem_append_right _ List.mem_cons_self
  · intro unit
    rw [unit, if_neg Bool.false_ne_true] at runs
    refine ⟨_, ?_, ?_, ?_, runs⟩
    · simp only [Splitter.after, Splitter.flush]
    · simp only [Splitter.after, Splitter.flush]
    · simp [Splitter.after, isWhitespace]

end Lexemes

end MockOracle.Script
