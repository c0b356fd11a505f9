import Mathlib

/-!
# Texts that end in a separator

A list of tokens is written as the texts of the tokens, each followed by a separator. Texts
that begin with one mark may hold the separator themselves, and every text that begins with
that mark belongs to a token; no other text holds it. Such a list can be read back from what
is written unless a separator inside one token can be traded for the one after another. The
trade is described exactly.
-/

namespace MockOracle.Semantics

/-- Tokens, their texts, the separator, and the mark of the texts that may hold it. -/
structure Tokens (T A : Type) where
  text : T → List A
  separator : A
  mark : A
  /-- The token with a given text after the mark. -/
  free : List A → T
  text_free : ∀ body, text (free body) = mark :: body
  separator_not_first : ∀ t, ∃ c body, text t = c :: body ∧ c ≠ separator
  free_of_separator_mem : ∀ t, separator ∈ text t → ∃ body, text t = mark :: body

namespace Tokens

variable {T A : Type} (W : Tokens T A) {t u : T} {us vs : List T} {w r : List A}

/-- What a list of tokens is written as. -/
def join (ts : List T) : List A := ts.flatMap fun t => W.text t ++ [W.separator]

/-- The text of a token may hold separators. -/
def Free (t : T) : Prop := ∃ body, W.text t = W.mark :: body

/-- A separator inside the text of a token is followed by the text of some token. -/
def Splits (t : T) : Prop := ∃ body v, W.text t = W.mark :: body ++ W.separator :: W.text v

/-- A separator inside the text of a token is followed by the mark. -/
def SplitsFree (t : T) : Prop :=
  ∃ body rest, W.text t = W.mark :: body ++ W.separator :: W.mark :: rest

/-- A separator inside one token can be traded for the one after another: the list stays as
long as it was and is written the same, but it is another list. -/
def Trades (ts : List T) : Prop :=
  ∃ before t after, ts = before ++ t :: after ∧
    (W.SplitsFree t ∧ after ≠ [] ∨
      W.Splits t ∧ ((∃ u ∈ before, W.Free u) ∨ ∃ u ∈ after.dropLast, W.Free u))

@[simp] theorem join_nil : W.join [] = [] := rfl

theorem join_cons (t : T) (ts : List T) :
    W.join (t :: ts) = W.text t ++ W.separator :: W.join ts := by
  simp [join]

theorem join_append (us vs : List T) : W.join (us ++ vs) = W.join us ++ W.join vs := by
  simp [join]

theorem SplitsFree.splits (splits : W.SplitsFree t) : W.Splits t := by
  obtain ⟨body, rest, equal⟩ := splits
  exact ⟨body, W.free rest, by rw [equal, W.text_free]⟩

/-- Two texts before separators are equal, or the longer one holds a separator right after
the shorter one. -/
theorem append_separator_cases {p q left right : List A} {c : A}
    (equal : p ++ c :: left = q ++ c :: right) :
    (p = q ∧ left = right) ∨ (∃ more, q = p ++ c :: more ∧ left = more ++ c :: right) ∨
      ∃ more, p = q ++ c :: more ∧ more ++ c :: left = right := by
  rcases List.append_eq_append_iff.mp equal with ⟨more, rfl, rest⟩ | ⟨more, rfl, rest⟩
  · cases more with
    | nil => simp_all
    | cons d more =>
        simp only [List.cons_append, List.cons.injEq] at rest
        obtain ⟨rfl, rest⟩ := rest
        exact Or.inr (Or.inl ⟨more, rfl, rest⟩)
  · cases more with
    | nil => simp_all
    | cons d more =>
        simp only [List.cons_append, List.cons.injEq] at rest
        obtain ⟨rfl, rest⟩ := rest
        exact Or.inr (Or.inr ⟨more, rfl, rest.symm⟩)

theorem free_of_text (equal : W.text t = w ++ W.separator :: r) : W.Free t :=
  W.free_of_separator_mem t (by rw [equal]; simp)

/-- The part of a free token after one of its separators is where another list goes on: the
token splits there or at its end. -/
theorem splits_of_rest (equal : W.text t = W.mark :: w ++ W.separator :: r)
    (goesOn : r ++ W.separator :: W.join us = W.join vs) :
    W.SplitsFree t ∨ W.Splits t ∧ ∃ fewer, W.join us = W.join fewer ∧ fewer.length < vs.length := by
  induction vs generalizing w r with
  | nil => simp at goesOn
  | cons v vs ih =>
      rw [join_cons] at goesOn
      rcases append_separator_cases goesOn with ⟨rfl, same⟩ | ⟨more, longer, -⟩ | ⟨more, rfl, rest⟩
      · exact Or.inr ⟨⟨w, v, equal⟩, vs, same, by simp⟩
      · obtain ⟨c, body, text, notSeparator⟩ := W.separator_not_first v
        obtain ⟨body', marked⟩ := W.free_of_text longer
        cases r with
        | nil =>
            rw [text] at longer
            simp only [List.nil_append, List.cons.injEq] at longer
            exact absurd longer.1 notSeparator
        | cons d r =>
            rw [marked] at longer
            simp only [List.cons_append, List.cons.injEq] at longer
            exact Or.inl ⟨w, r, by rw [equal, longer.1]⟩
      · by_cases free : W.Free v
        · obtain ⟨body, marked⟩ := free
          exact Or.inl ⟨w, body ++ W.separator :: more, by rw [equal, marked]; simp⟩
        · rcases ih (w := w ++ W.separator :: W.text v) (by rw [equal]; simp) rest with
            found | ⟨splits, fewer, same, less⟩
          · exact Or.inl found
          · exact Or.inr ⟨splits, fewer, same, less.trans (by simp)⟩

/-- A list written like a longer one, or like one at least as long after some other text,
has a token that splits. -/
theorem exists_splits_of_longer :
    (∀ vs, W.join us = W.join vs → us.length < vs.length → ∃ u ∈ us, W.Splits u) ∧
      ∀ w vs, W.join us = w ++ W.separator :: W.join vs → us.length ≤ vs.length →
        ∃ u ∈ us, W.Splits u := by
  induction us with
  | nil =>
      constructor
      · intro vs same shorter
        cases vs with
        | nil => simp at shorter
        | cons v vs => simp [join_cons] at same
      · intro w vs same
        simp at same
  | cons u us ih =>
      have later : (∃ u ∈ us, W.Splits u) → ∃ t ∈ u :: us, W.Splits t := fun ⟨t, member, splits⟩ =>
        ⟨t, List.mem_cons_of_mem _ member, splits⟩
      have here : ∀ {w r : List A} {vs : List T}, W.text u = w ++ W.separator :: r →
          r ++ W.separator :: W.join us = W.join vs → ∃ t ∈ u :: us, W.Splits t := by
        intro w r vs equal goesOn
        obtain ⟨c, body, text, notSeparator⟩ := W.separator_not_first u
        obtain ⟨body', marked⟩ := W.free_of_text equal
        refine ⟨u, List.mem_cons_self, ?_⟩
        cases w with
        | nil =>
            rw [text] at equal
            simp only [List.nil_append, List.cons.injEq] at equal
            exact absurd equal.1 notSeparator
        | cons d w =>
            have first : d = W.mark := by
              rw [marked] at equal
              simp only [List.cons_append, List.cons.injEq] at equal
              exact equal.1.symm
            rw [first] at equal
            rcases W.splits_of_rest equal goesOn with free | ⟨splits, -⟩
            · exact free.splits
            · exact splits
      constructor
      · intro vs same shorter
        cases vs with
        | nil => simp at shorter
        | cons v vs =>
            simp only [List.length_cons, Nat.add_lt_add_iff_right] at shorter
            rw [join_cons, join_cons] at same
            rcases append_separator_cases same with ⟨-, rest⟩ | ⟨more, -, rest⟩ | ⟨more, equal, rest⟩
            · exact later (ih.1 vs rest shorter)
            · exact later (ih.2 more vs rest shorter.le)
            · exact here equal rest
      · intro w vs same shorter
        rw [join_cons] at same
        rcases append_separator_cases same with ⟨-, rest⟩ | ⟨more, -, rest⟩ | ⟨more, equal, rest⟩
        · exact later (ih.1 vs rest shorter)
        · exact later (ih.2 more vs rest ((Nat.le_succ _).trans shorter))
        · exact here equal rest

/-- A list written like a shorter one has a free token before its last. -/
theorem exists_free_of_shorter (same : W.join us = W.join vs) (shorter : vs.length < us.length) :
    ∃ u ∈ us.dropLast, W.Free u := by
  induction us generalizing vs with
  | nil => simp at shorter
  | cons u us ih =>
      cases vs with
      | nil => simp [join_cons] at same
      | cons v vs =>
          simp only [List.length_cons, Nat.add_lt_add_iff_right] at shorter
          have more : us ≠ [] := List.ne_nil_of_length_pos (Nat.zero_lt_of_lt shorter)
          rw [List.dropLast_cons_of_ne_nil more]
          rw [join_cons, join_cons] at same
          rcases append_separator_cases same with ⟨-, rest⟩ | ⟨more, equal, -⟩ | ⟨more, equal, -⟩
          · obtain ⟨t, member, free⟩ := ih rest shorter
            exact ⟨t, List.mem_cons_of_mem _ member, free⟩
          · -- The other token goes on past this one's end, so it begins with the mark, and so does this.
            obtain ⟨body, marked⟩ := W.free_of_text equal
            obtain ⟨c, rest, text, -⟩ := W.separator_not_first u
            refine ⟨u, List.mem_cons_self, rest, ?_⟩
            rw [marked, text] at equal
            simp only [List.cons_append, List.cons.injEq] at equal
            rw [text, equal.1]
          · exact ⟨u, List.mem_cons_self, W.free_of_text equal⟩

/-- Two lists of one length that are written the same and are not token by token of the same
text: the first has a separator to trade. -/
theorem trades_of_join_eq (same : W.join us = W.join vs) (length : us.length = vs.length)
    (differ : us.map W.text ≠ vs.map W.text) : W.Trades us := by
  induction us generalizing vs with
  | nil =>
      cases vs with
      | nil => exact absurd rfl differ
      | cons v vs => simp at length
  | cons u us ih =>
      cases vs with
      | nil => simp at length
      | cons v vs =>
          simp only [List.length_cons, Nat.add_right_cancel_iff] at length
          rw [join_cons, join_cons] at same
          rcases append_separator_cases same with
            ⟨text, rest⟩ | ⟨more, equal, rest⟩ | ⟨more, equal, rest⟩
          · obtain ⟨before, t, after, rfl, trade⟩ := ih rest length (by
              intro alike
              exact differ (by simp [text, alike]))
            refine ⟨u :: before, t, after, rfl, ?_⟩
            rcases trade with free | ⟨splits, ⟨x, member, free⟩ | late⟩
            · exact Or.inl free
            · exact Or.inr ⟨splits, Or.inl ⟨x, List.mem_cons_of_mem _ member, free⟩⟩
            · exact Or.inr ⟨splits, Or.inr late⟩
          · -- The other list's token is longer: this one is free, and a later one splits.
            obtain ⟨t, member, splits⟩ := W.exists_splits_of_longer.2 more vs rest length.le
            obtain ⟨before, after, rfl⟩ := List.append_of_mem member
            obtain ⟨body, marked⟩ := W.free_of_text equal
            obtain ⟨c, tail, text, -⟩ := W.separator_not_first u
            rw [marked, text] at equal
            simp only [List.cons_append, List.cons.injEq] at equal
            exact ⟨u :: before, t, after, rfl, Or.inr ⟨splits, Or.inl ⟨u, List.mem_cons_self, tail,
              by rw [text, equal.1]⟩⟩⟩
          · -- This token is longer: it splits, and unless it splits freely a later one is free.
            obtain ⟨c, tail, text, -⟩ := W.separator_not_first v
            obtain ⟨body, marked⟩ := W.free_of_text equal
            have more_ : us ≠ [] := by
              rintro rfl
              rw [List.length_nil, eq_comm, List.length_eq_zero_iff] at length
              subst length
              simp at rest
            rw [text] at equal
            have first : c = W.mark := by
              rw [marked] at equal
              simp only [List.cons_append, List.cons.injEq] at equal
              exact equal.1.symm
            rw [first] at equal
            refine ⟨[], u, us, rfl, ?_⟩
            rcases W.splits_of_rest equal rest with free | ⟨splits, fewer, alike, less⟩
            · exact Or.inl ⟨free, more_⟩
            · exact Or.inr ⟨splits, Or.inr (W.exists_free_of_shorter alike (length ▸ less))⟩

/-- A token that splits can be written as two. -/
theorem exists_longer (member : t ∈ us) (splits : W.Splits t) :
    ∃ v vs, W.join (v :: vs) = W.join us ∧ vs.length = us.length := by
  obtain ⟨before, after, rfl⟩ := List.append_of_mem member
  obtain ⟨body, v, equal⟩ := splits
  have joined : W.join (before ++ W.free body :: v :: after) = W.join (before ++ t :: after) := by
    simp [join_append, join_cons, W.text_free, equal]
  cases before with
  | nil => exact ⟨_, _, joined, by simp⟩
  | cons x before =>
      refine ⟨_, _, joined, ?_⟩
      simp only [List.length_append, List.length_cons, List.append_eq]
      omega

/-- A free token and the one after it can be written as one. -/
theorem exists_shorter (member : t ∈ us.dropLast) (free : W.Free t) :
    ∃ vs, W.join vs = W.join us ∧ vs.length + 1 = us.length := by
  obtain ⟨before, after, split⟩ := List.append_of_mem member
  obtain ⟨body, marked⟩ := free
  have nonempty : us ≠ [] := by
    rintro rfl
    simp at member
  obtain ⟨last, whole⟩ : ∃ last, us = before ++ t :: (after ++ [last]) :=
    ⟨us.getLast nonempty, by
      rw [← List.cons_append, ← List.append_assoc, ← split, List.dropLast_append_getLast]⟩
  obtain ⟨next, rest, follows⟩ := List.exists_cons_of_ne_nil (List.append_ne_nil_of_right_ne_nil
    after (List.cons_ne_nil last []))
  rw [follows] at whole
  refine ⟨before ++ W.free (body ++ W.separator :: W.text next) :: rest, ?_, ?_⟩
  · simp [whole, join_append, join_cons, W.text_free, marked]
  · simp [whole]
    omega

/-- Where a separator can be traded, there is another list of the same length that is
written the same. -/
theorem exists_join_eq_of_trades (trades : W.Trades us) :
    ∃ vs, vs.length = us.length ∧ W.join us = W.join vs ∧ us.map W.text ≠ vs.map W.text := by
  obtain ⟨before, t, after, rfl, ⟨⟨body, rest, equal⟩, more⟩ | ⟨splits, early | late⟩⟩ := trades
  · obtain ⟨next, tail, rfl⟩ := List.exists_cons_of_ne_nil more
    refine ⟨before ++ W.free body :: W.free (rest ++ W.separator :: W.text next) :: tail, ?_, ?_, ?_⟩
    · simp
    · simp [join_append, join_cons, W.text_free, equal]
    · intro alike
      simp [W.text_free, equal] at alike
  · obtain ⟨u, member, body, marked⟩ := early
    obtain ⟨front, back, rfl⟩ := List.append_of_mem member
    have among : t ∈ back ++ t :: after := by simp
    obtain ⟨v, vs, joined, length⟩ := W.exists_longer among splits
    refine ⟨front ++ W.free (body ++ W.separator :: W.text v) :: vs, ?_, ?_, ?_⟩
    · simp [length]
    · rw [List.append_assoc, List.cons_append, join_append, join_append, join_cons, ← joined,
        join_cons, join_cons, W.text_free, marked]
      simp
    · intro alike
      simp [W.text_free, marked] at alike
  · obtain ⟨u, member, free⟩ := late
    obtain ⟨vs, joined, length⟩ := W.exists_shorter member free
    obtain ⟨body, v, equal⟩ := splits
    refine ⟨before ++ W.free body :: v :: vs, ?_, ?_, ?_⟩
    · simp
      omega
    · simp [join_append, join_cons, W.text_free, equal, joined]
    · intro alike
      simp [W.text_free, equal] at alike

/-- A list can be told from every other list of its length by what is written exactly when
it has no separator to trade. -/
theorem join_identifies_iff :
    (∀ vs, vs.length = us.length → W.join us = W.join vs → us.map W.text = vs.map W.text) ↔
      ¬ W.Trades us := by
  constructor
  · intro identifies trades
    obtain ⟨vs, length, same, differ⟩ := W.exists_join_eq_of_trades trades
    exact differ (identifies vs length same)
  · intro none_ vs length same
    by_contra differ
    exact none_ (W.trades_of_join_eq same length.symm differ)

end Tokens

end MockOracle.Semantics
