import MockOracle.Eval.Operators

/-!
# The meaning of LIKE

A pattern is read from left to right into parts, and a text matches the parts if it can be split
into one piece for each. `likeMatch` decides this with one loop that goes back to the last `%`
only. That is enough: a part between two `%` takes as many characters wherever it is tried, so what
an earlier `%` could still give the later one can give as well.
-/

namespace MockOracle

/-! ## Patterns -/

section Pattern

variable (escape : Option Char)

/-- An escape character that is followed by the end or by a character that may not be escaped. -/
inductive BadEscape : List Char → Prop where
  | last {c : Char} (escapes : some c = escape) : BadEscape [c]
  | illegal {c next : Char} {rest : List Char} (escapes : some c = escape)
      (plain : ¬ (next = '%' ∨ next = '_' ∨ some next = escape)) : BadEscape (c :: next :: rest)
  | escaped {c next : Char} {rest : List Char} (escapes : some c = escape)
      (special : next = '%' ∨ next = '_' ∨ some next = escape) (later : BadEscape rest) :
      BadEscape (c :: next :: rest)
  | plain {c : Char} {rest : List Char} (plain : some c ≠ escape) (later : BadEscape rest) :
      BadEscape (c :: rest)

/-- The parts a pattern stands for. -/
inductive StandsFor : List Char → List LikePart → Prop where
  | nil : StandsFor [] []
  | escaped {c next : Char} {rest : List Char} {parts : List LikePart} (escapes : some c = escape)
      (special : next = '%' ∨ next = '_' ∨ some next = escape) (later : StandsFor rest parts) :
      StandsFor (c :: next :: rest) (.lit next :: parts)
  | any {rest : List Char} {parts : List LikePart} (plain : some '%' ≠ escape)
      (later : StandsFor rest parts) : StandsFor ('%' :: rest) (.any :: parts)
  | one {rest : List Char} {parts : List LikePart} (plain : some '_' ≠ escape)
      (later : StandsFor rest parts) : StandsFor ('_' :: rest) (.one :: parts)
  | lit {c : Char} {rest : List Char} {parts : List LikePart} (plain : some c ≠ escape)
      (ordinary : c ≠ '%' ∧ c ≠ '_') (later : StandsFor rest parts) :
      StandsFor (c :: rest) (.lit c :: parts)

variable {escape} in
/-- A pattern stands for one list of parts. -/
theorem StandsFor.unique {pattern : List Char} {parts parts' : List LikePart}
    (stands : StandsFor escape pattern parts) (also : StandsFor escape pattern parts') :
    parts = parts' := by
  induction stands generalizing parts' with
  | nil =>
      cases also
      rfl
  | escaped escapes _ _ ih =>
      cases also with
      | escaped _ _ later => rw [ih later]
      | any plain _ => exact absurd escapes plain
      | one plain _ => exact absurd escapes plain
      | lit plain _ _ => exact absurd escapes plain
  | any plain _ ih =>
      cases also with
      | escaped escapes _ _ => exact absurd escapes plain
      | any _ later => rw [ih later]
      | lit _ ordinary _ => exact absurd rfl ordinary.1
  | one plain _ ih =>
      cases also with
      | escaped escapes _ _ => exact absurd escapes plain
      | one _ later => rw [ih later]
      | lit _ ordinary _ => exact absurd rfl ordinary.2
  | lit plain ordinary _ ih =>
      cases also with
      | escaped escapes _ _ => exact absurd escapes plain
      | any _ _ => exact absurd rfl ordinary.1
      | one _ _ => exact absurd rfl ordinary.2
      | lit _ _ later => rw [ih later]

/-- ORA-01424, an escape character before anything but a wildcard or itself. -/
def badEscape : OraError := ⟨1424, "missing or illegal character following the escape character"⟩

/-- Reading a pattern gives its parts, or the error for a bad escape. -/
theorem likeParts_spec (pattern : List Char) :
    (∃ parts, likeParts escape pattern = .ok parts ∧ StandsFor escape pattern parts ∧
      ¬ BadEscape escape pattern) ∨
    likeParts escape pattern = .error badEscape ∧ BadEscape escape pattern := by
  fun_induction likeParts escape pattern with
  | case1 => exact Or.inl ⟨[], rfl, .nil, nofun⟩
  | case2 c escapes next rest special ih =>
      rcases ih with ⟨parts, reads, stands, good⟩ | ⟨fails, bad⟩
      · refine Or.inl ⟨.lit next :: parts, by rw [reads]; rfl, .escaped escapes special stands, ?_⟩
        intro bad
        cases bad with
        | illegal _ plain => exact plain special
        | escaped _ _ later => exact good later
        | plain plain _ => exact plain escapes
      · exact Or.inr ⟨by rw [fails]; rfl, .escaped escapes special bad⟩
  | case3 c escapes next rest plain => exact Or.inr ⟨rfl, .illegal escapes plain⟩
  | case4 c escapes => exact Or.inr ⟨rfl, .last escapes⟩
  | case5 c rest plain part ih =>
      rcases ih with ⟨parts, reads, stands, good⟩ | ⟨fails, bad⟩
      · refine Or.inl ⟨part :: parts, by rw [reads]; rfl, ?_, ?_⟩
        · by_cases any : c = '%'
          · subst any
            exact .any plain stands
          · by_cases one : c = '_'
            · subst one
              exact .one plain stands
            · have ordinary : part = .lit c := by simp only [part, if_neg any, if_neg one]
              rw [ordinary]
              exact .lit plain ⟨any, one⟩ stands
        · intro bad
          cases bad with
          | last escapes => exact plain escapes
          | illegal escapes _ => exact plain escapes
          | escaped escapes _ _ => exact plain escapes
          | plain _ later => exact good later
      · exact Or.inr ⟨by rw [fails]; rfl, .plain plain bad⟩

end Pattern

/-! ## Matching -/

namespace LikePart

/-- The texts that a part of a pattern takes. -/
def Takes : LikePart → List Char → Prop
  | any, _ => True
  | one, piece => piece.length = 1
  | lit c, piece => piece = [c]

/-- The text can be split into one piece for each part. -/
def Matches (parts : List LikePart) (text : List Char) : Prop :=
  ∃ pieces, List.Forall₂ Takes parts pieces ∧ pieces.flatten = text

variable {parts : List LikePart} {text : List Char}

/-- A pattern matches a text that starts with what its first part takes. -/
theorem matches_cons {part : LikePart} : Matches (part :: parts) text ↔
    ∃ piece rest, part.Takes piece ∧ Matches parts rest ∧ piece ++ rest = text := by
  constructor
  · rintro ⟨pieces, taken, rfl⟩
    cases taken with
    | cons head tail => exact ⟨_, _, head, ⟨_, tail, rfl⟩, List.flatten_cons.symm⟩
  · rintro ⟨piece, rest, head, ⟨pieces, tail, rfl⟩, rfl⟩
    exact ⟨piece :: pieces, .cons head tail, List.flatten_cons⟩

/-- The empty pattern matches the empty text only. -/
@[simp] theorem matches_nil : Matches [] text ↔ text = [] := by
  constructor
  · rintro ⟨pieces, taken, rfl⟩
    cases taken
    rfl
  · rintro rfl
    exact ⟨[], .nil, rfl⟩

/-- An underscore takes any character. -/
@[simp] theorem matches_one {c : Char} : Matches (.one :: parts) (c :: text) ↔ Matches parts text := by
  rw [matches_cons]
  constructor
  · rintro ⟨piece, rest, taken, holds, equal⟩
    obtain ⟨d, rfl⟩ := List.length_eq_one_iff.mp taken
    cases equal
    exact holds
  · exact fun holds => ⟨[c], text, rfl, holds, rfl⟩

/-- A literal takes its own character. -/
@[simp] theorem matches_lit {l c : Char} :
    Matches (.lit l :: parts) (c :: text) ↔ l = c ∧ Matches parts text := by
  rw [matches_cons]
  constructor
  · rintro ⟨piece, rest, rfl, holds, equal⟩
    cases equal
    exact ⟨rfl, holds⟩
  · rintro ⟨rfl, holds⟩
    exact ⟨[l], text, rfl, holds, rfl⟩

/-- `%` leaves any end of the text. -/
theorem matches_any : Matches (.any :: parts) text ↔ ∃ k, Matches parts (text.drop k) := by
  rw [matches_cons]
  constructor
  · rintro ⟨piece, rest, -, holds, rfl⟩
    exact ⟨piece.length, by simpa using holds⟩
  · rintro ⟨k, holds⟩
    exact ⟨text.take k, text.drop k, trivial, holds, List.take_append_drop k text⟩

/-- The empty text is matched by percent signs only. -/
theorem matches_empty : Matches parts [] ↔ ∀ part ∈ parts, part = .any := by
  induction parts with
  | nil => simp
  | cons part parts ih =>
      rw [matches_cons, List.forall_mem_cons, ← ih]
      constructor
      · rintro ⟨piece, rest, taken, holds, equal⟩
        obtain ⟨rfl, rfl⟩ := List.append_eq_nil_iff.mp equal
        refine ⟨?_, holds⟩
        cases part with
        | any => rfl
        | one => cases taken
        | lit c => cases taken
      · rintro ⟨rfl, holds⟩
        exact ⟨[], [], trivial, holds, rfl⟩

/-- Parts without a `%` take one character each. -/
theorem matches_fixed {fixed : List LikePart} (fixed_ : .any ∉ fixed)
    (holds : Matches (fixed ++ parts) text) :
    fixed.length ≤ text.length ∧ Matches parts (text.drop fixed.length) := by
  induction fixed generalizing text with
  | nil => exact ⟨Nat.zero_le _, holds⟩
  | cons part fixed ih =>
      rw [List.mem_cons, not_or] at fixed_
      obtain ⟨piece, rest, taken, later, rfl⟩ := matches_cons.mp holds
      have single : piece.length = 1 := by
        cases part with
        | any => exact absurd rfl fixed_.1
        | one => exact taken
        | lit c =>
            rw [show piece = [c] from taken]
            rfl
      obtain ⟨le, holds⟩ := ih fixed_.2 later
      refine ⟨by simp only [List.length_cons, List.length_append]; omega, ?_⟩
      rw [List.length_cons, Nat.add_comm, ← single, List.drop_length_add_append]
      exact holds

end LikePart

open LikePart

/-- The last `%` and the state of the loop: the parts between them take one character each. -/
def Since (star : Option (List LikePart × List Char)) (text : List Char) (parts : List LikePart) :
    Prop :=
  ∀ after tried, star = some (after, tried) → ∃ fixed, .any ∉ fixed ∧ after = fixed ++ parts ∧
    tried.length = fixed.length + text.length ∧ text = tried.drop fixed.length

/-- What the last `%` can still give: it takes at least one character more. -/
def Retries (star : Option (List LikePart × List Char)) : Prop :=
  ∃ after tried, star = some (after, tried) ∧ ∃ k, k < tried.length ∧
    Matches after (tried.drop (k + 1))

namespace Since

variable {after parts : List LikePart} {tried text : List Char}
  {star : Option (List LikePart × List Char)}

/-- At the start nothing has been passed over. -/
theorem start (parts : List LikePart) (text : List Char) : Since none text parts := nofun

/-- At a percent sign the place to return to is the current one. -/
theorem fresh (parts : List LikePart) (text : List Char) : Since (some (parts, text)) text parts := by
  rintro _ _ ⟨⟩
  exact ⟨[], by simp, rfl, by simp, rfl⟩

/-- One more part has taken one more character. -/
theorem next {part : LikePart} {c : Char} (since : Since star (c :: text) (part :: parts))
    (fixed_ : part ≠ .any) : Since star text parts := by
  intro after tried found
  obtain ⟨fixed, free, rfl, length, rest⟩ := since after tried found
  refine ⟨fixed ++ [part], ?_, by simp, ?_, ?_⟩
  · simpa [free] using fun same => fixed_ same.symm
  · simp only [List.length_append, List.length_cons, List.length_nil] at length ⊢
    omega
  · rw [List.length_append, List.length_singleton, ← List.drop_drop, ← rest]
    rfl

/-- At the end of the text the last `%` has nothing to give. -/
theorem not_retries (since : Since star [] parts) : ¬ Retries star := by
  rintro ⟨after, tried, found, k, less, holds⟩
  obtain ⟨fixed, free, rfl, length, -⟩ := since after tried found
  have enough := (matches_fixed free holds).1
  simp only [List.length_drop, List.length_nil] at enough length
  omega

/-- What the last `%` can still give, the next one can give as well. -/
theorem matches_of_retries (since : Since star text (.any :: parts)) (retries : Retries star) :
    ∃ k, Matches parts (text.drop k) := by
  obtain ⟨after, tried, found, k, less, holds⟩ := retries
  obtain ⟨fixed, free, rfl, length, rest⟩ := since after tried found
  obtain ⟨j, holds⟩ := matches_any.mp (matches_fixed free holds).2
  refine ⟨k + 1 + j, ?_⟩
  rw [rest, List.drop_drop]
  rw [List.drop_drop, List.drop_drop] at holds
  convert holds using 2
  omega

end Since

/-- Returning there matches at that place or further on. -/
theorem retries_cons {after : List LikePart} {c : Char} {rest : List Char} :
    Retries (some (after, c :: rest)) ↔ Matches after rest ∨ Retries (some (after, rest)) := by
  constructor
  · rintro ⟨_, _, ⟨⟩, k, less, holds⟩
    cases k with
    | zero => exact Or.inl holds
    | succ k => exact Or.inr ⟨_, _, rfl, k, by simpa using less, holds⟩
  · rintro (holds | ⟨_, _, ⟨⟩, k, less, holds⟩)
    · exact ⟨_, _, rfl, 0, by simp, holds⟩
    · exact ⟨_, _, rfl, k + 1, by simpa using less, holds⟩

/-- Matching now or on returning is matching at some place further on. -/
theorem matches_or_retries {after : List LikePart} {tried : List Char} :
    Matches after tried ∨ Retries (some (after, tried)) ↔ ∃ k, Matches after (tried.drop k) := by
  induction tried with
  | nil =>
      simp only [List.drop_nil, exists_const]
      refine or_iff_left ?_
      rintro ⟨_, _, ⟨⟩, k, less, -⟩
      simp at less
  | cons c rest ih =>
      rw [retries_cons, ih]
      constructor
      · rintro (holds | ⟨k, holds⟩)
        · exact ⟨0, holds⟩
        · exact ⟨k + 1, holds⟩
      · rintro ⟨k, holds⟩
        cases k with
        | zero => exact Or.inl holds
        | succ k => exact Or.inr ⟨k, holds⟩

/-- A last `%` that has no text left has nothing to give, and neither has none. -/
theorem not_retries_of_used {star : Option (List LikePart × List Char)}
    (used : ∀ after c tried, star = some (after, c :: tried) → False) : ¬ Retries star := by
  rintro ⟨after, tried, rfl, k, less, -⟩
  cases tried with
  | nil => simp at less
  | cons c tried => exact used after c tried rfl

/-- The loop finds a way to match the rest, or one that the last `%` can still give. -/
theorem likeMatch_iff {text : List Char} {parts : List LikePart}
    {star : Option (List LikePart × List Char)} (since : Since star text parts) :
    likeMatch text parts star = true ↔ Matches parts text ∨ Retries star := by
  fun_induction likeMatch text parts star with
  | case1 star parts =>
      simp only [List.all_eq_true, decide_eq_true_eq, ← matches_empty]
      exact ⟨Or.inl, fun holds => holds.resolve_right since.not_retries⟩
  | case2 c text parts star ih =>
      rw [matches_one]
      exact ih (since.next (by simp))
  | case3 star c text parts ih =>
      rw [matches_any, or_iff_left_of_imp fun retries => since.matches_of_retries retries,
        ← matches_or_retries]
      exact ih (.fresh parts (c :: text))
  | case4 text l parts star ih =>
      rw [matches_lit, and_iff_right rfl]
      exact ih (since.next (by simp))
  -- When nothing matches here only the last `%` can help.
  | case5 c text l parts other after x tried ih =>
      rw [matches_lit, retries_cons, or_iff_right fun holds => other holds.1]
      exact ih (.fresh after tried)
  | case6 c text l parts star other used =>
      rw [matches_lit, or_iff_right fun holds => other holds.1]
      exact iff_of_false Bool.false_ne_true (not_retries_of_used used)
  | case7 c text after x tried ih =>
      rw [matches_nil, retries_cons, or_iff_right (List.cons_ne_nil c text)]
      exact ih (.fresh after tried)
  | case8 star c text used =>
      rw [matches_nil, or_iff_right (List.cons_ne_nil c text)]
      exact iff_of_false Bool.false_ne_true (not_retries_of_used used)

/-- From the start of the text there is no `%` to go back to. -/
theorem likeMatch_start (text : List Char) (parts : List LikePart) :
    likeMatch text parts none = true ↔ Matches parts text := by
  rw [likeMatch_iff (.start parts text)]
  refine or_iff_left ?_
  rintro ⟨_, _, found, -⟩
  cases found

/-- LIKE fails with ORA-01424 exactly on a bad escape; otherwise it says whether the text matches
the parts of the pattern. Its loop is total: each step leaves less of the pattern or of the text. -/
theorem like_meaning (text pattern : String) (escape : Option Char) :
    (like text pattern escape = .error badEscape ↔ BadEscape escape pattern.toList) ∧
      (¬ BadEscape escape pattern.toList →
        ∃ parts, (∀ other, StandsFor escape pattern.toList other ↔ other = parts) ∧ ∃ found,
          like text pattern escape = .ok found ∧ (found = true ↔ Matches parts text.toList)) := by
  rcases likeParts_spec escape pattern.toList with ⟨parts, reads, stands, good⟩ | ⟨fails, bad⟩
  · have found : like text pattern escape = .ok (likeMatch text.toList parts none) := by
      rw [like, reads]
      rfl
    refine ⟨⟨fun failed => ?_, fun bad => absurd bad good⟩, fun _ => ⟨parts, fun other => ?_, _, found,
      likeMatch_start text.toList parts⟩⟩
    · rw [found] at failed
      cases failed
    · refine ⟨fun also => also.unique stands, ?_⟩
      rintro rfl
      exact stands
  · have failed : like text pattern escape = .error badEscape := by
      rw [like, fails]
      rfl
    exact ⟨⟨fun _ => bad, fun _ => failed⟩, fun good => absurd bad good⟩

end MockOracle
