import MockOracle.Core.BigDecimal
import MockOracle.Semantics.Separated

/-!
# What row keys identify

`keyString` separates the tagged texts of the values of a row by U+0001. The text of one
value identifies the value. The key of several values does not always identify them: strings
are written as they are, so a string that holds U+0001 can imitate the end of one value and
the start of the next.

Decimals are written by the `Display` of the decimal library. Nothing here depends on how it
writes them, only on what `Displays` says.
-/

namespace MockOracle

open Semantics

/-- The same SQL value: NULLs, numerically equal numbers, identical strings, date/times of
one instant, equal booleans. -/
def Value.Same : Value → Value → Prop
  | .null, .null => True
  | .number a, .number b => a.toRat = b.toRat
  | .varchar2 a, .varchar2 b => a = b
  | .date a, .date b => a = b
  | .date a, .timestamp b => a = b
  | .timestamp a, .date b => a = b
  | .timestamp a, .timestamp b => a = b
  | .boolean a, .boolean b => a = b
  | _, _ => False

namespace NaiveDateTime

/-- The text of an instant is its seconds and its nanoseconds, and identifies it. -/
theorem keyText_inj {d e : NaiveDateTime} : d.keyText = e.keyText ↔ d = e := by
  refine ⟨fun same => ?_, fun same => congrArg keyText same⟩
  have parts : ∀ d : NaiveDateTime, Decimal.cut Decimal.isPoint d.keyText.toList =
      ((toString d.timestamp).toList,
        some (List.replicate (9 - (toString d.nanos).length) '0' ++ Nat.toDigits 10 d.nanos)) := by
    intro d
    have pointless : ∀ c ∈ (toString d.timestamp).toList, Decimal.isPoint c = false := by
      intro c member
      simp only [Decimal.toList_toString_int, Decimal.write, Option.elim_none, List.append_nil] at member
      exact Decimal.pointless_whole _ (Decimal.allDigits_toDigits _) c member
    rw [← Decimal.cut_append pointless (c := '.') rfl]
    congr 1
    simp [keyText, BigDecimal.toList_pushn]
  have cuts := parts d
  rw [same, parts e] at cuts
  simp only [Prod.mk.injEq, Option.some.injEq] at cuts
  obtain ⟨seconds, fraction⟩ := cuts
  have nanos := congrArg (Nat.ofDigitChars 10 · 0) fraction
  simp only [Decimal.ofDigitChars_zeros_append, Nat.ofDigitChars_ten_toDigits] at nanos
  have timestamps := Decimal.toString_int_inj seconds
  cases d
  cases e
  simp_all

/-- The key text of a datetime denotes a decimal number. -/
theorem denote_keyText (d : NaiveDateTime) : (Decimal.denote d.keyText.toList).isSome := by
  have form : d.keyText.toList = Decimal.write (decide (d.timestamp < 0))
      (Nat.toDigits 10 d.timestamp.natAbs)
      (some (List.replicate (9 - (toString d.nanos).length) '0' ++ Nat.toDigits 10 d.nanos))
      none := by
    have seconds := Decimal.toList_toString_int d.timestamp
    simp only [Decimal.write, Option.elim_none, List.append_nil] at seconds
    simp only [keyText, String.toList_append, seconds, Decimal.write]
    simp [BigDecimal.toList_pushn]
  have fraction : Decimal.AllDigits ((some (List.replicate (9 - (toString d.nanos).length) '0' ++
      Nat.toDigits 10 d.nanos)).getD []) :=
    (Decimal.allDigits_replicate_zero _).append (Decimal.allDigits_toDigits _)
  rw [form, Decimal.denote, Decimal.read_write _ (Decimal.allDigits_toDigits _) fraction
    (by simp) Decimal.Marks.none_]
  rfl

end NaiveDateTime

/-- A text that denotes a number holds no separator. -/
theorem unseparated_of_denote {text : List Char} (denotes : (Decimal.denote text).isSome) :
    '\x01' ∉ text := by
  intro inside
  obtain ⟨q, denotes⟩ := Option.isSome_iff_exists.mp denotes
  obtain ⟨parts, reads, -⟩ := Option.map_eq_some_iff.mp denotes
  have impossible := Decimal.chars_of_read reads _ inside
  revert impossible
  simp [Decimal.IsDecimalChar, Decimal.isExponentMark, Decimal.isPoint]

/-- What row keys rely on of a `Display` for decimals: normalized decimals of different numbers
have different texts, and no text holds the separator. -/
structure BigDecimal.Displays (display : BigDecimal → String) : Prop where
  apart : ∀ {a b : BigDecimal}, display a.normalized = display b.normalized → a.toRat = b.toRat
  unseparated : ∀ n : BigDecimal, '\x01' ∉ (display n).toList

/-- The library's `Display` writes numerals, of which the number can be read. -/
theorem BigDecimal.displays_toText : Displays toText where
  apart := normalized_toText_eq_iff.mp
  unseparated n := unseparated_of_denote (Option.isSome_of_eq_some (denote_toText n))

/-- Normalized numbers are displayed alike if and only if they are equal. -/
theorem BigDecimal.Displays.normalized_eq_iff {display : BigDecimal → String}
    (displays : Displays display) {a b : BigDecimal} :
    display a.normalized = display b.normalized ↔ a.toRat = b.toRat :=
  ⟨displays.apart, fun same => by rw [BigDecimal.normalized_eq_iff.mpr same]⟩

section Display

variable {display : BigDecimal → String}

namespace Value

/-- The character that says of what kind a value in a key is. -/
def tag : Value → Char
  | null => '~'
  | number _ => 'n'
  | varchar2 _ => 's'
  | date _ => 'd'
  | timestamp _ => 'd'
  | boolean true => 'T'
  | boolean false => 'F'

/-- The text after the tag. -/
def untagged (display : BigDecimal → String) : Value → List Char
  | null => []
  | number n => (display n.normalized).toList
  | varchar2 s => s.toList
  | date d => d.keyText.toList
  | timestamp d => d.keyText.toList
  | boolean _ => []

/-- A key text is a tag followed by the value's own text. -/
theorem toList_keyTextWith (v : Value) :
    (v.keyTextWith display).toList = v.tag :: v.untagged display := by
  cases v with
  | boolean b => cases b <;> simp [keyTextWith, tag, untagged]
  | _ => simp [keyTextWith, tag, untagged]

/-- The text of one value identifies the value. -/
theorem keyTextWith_eq_iff (displays : BigDecimal.Displays display) {v w : Value} :
    v.keyTextWith display = w.keyTextWith display ↔ v.Same w := by
  rw [← String.toList_inj, toList_keyTextWith, toList_keyTextWith, List.cons.injEq]
  rcases v with _ | n | s | d | d | (_ | _) <;> rcases w with _ | m | t | e | e | (_ | _) <;>
    simp [tag, untagged, Same, String.toList_inj, displays.normalized_eq_iff,
      NaiveDateTime.keyText_inj]

/-- Two values share their key text if and only if they are the same value. -/
theorem keyText_eq_iff {v w : Value} : v.keyText = w.keyText ↔ v.Same w :=
  keyTextWith_eq_iff BigDecimal.displays_toText

/-- The separator is no tag. -/
theorem separator_ne_tag (v : Value) : v.tag ≠ '\x01' := by
  rcases v with _ | n | s | d | d | (_ | _) <;> simp [tag]

/-- Only strings can hold the separator. -/
theorem eq_varchar2_of_separator_mem (displays : BigDecimal.Displays display) {v : Value}
    (member : '\x01' ∈ v.untagged display) : ∃ s, v = varchar2 s := by
  cases v with
  | varchar2 s => exact ⟨s, rfl⟩
  | null => simp [untagged] at member
  | boolean b => simp [untagged] at member
  | number n => exact absurd member (displays.unseparated _)
  | date d => exact absurd member (unseparated_of_denote d.denote_keyText)
  | timestamp d => exact absurd member (unseparated_of_denote d.denote_keyText)

end Value

/-- Values in a key: the tagged texts, of which only those of strings may hold U+0001. -/
def keyTokensWith (displays : BigDecimal.Displays display) : Tokens Value Char where
  text v := (v.keyTextWith display).toList
  separator := '\x01'
  mark := 's'
  free body := .varchar2 (String.ofList body)
  text_free body := by simp [Value.keyTextWith]
  separator_not_first v := ⟨v.tag, v.untagged display, v.toList_keyTextWith, v.separator_ne_tag⟩
  free_of_separator_mem v member := by
    rw [Value.toList_keyTextWith, List.mem_cons] at member
    obtain ⟨s, rfl⟩ := Value.eq_varchar2_of_separator_mem displays
      (member.resolve_left v.separator_ne_tag.symm)
    exact ⟨s.toList, by simp [Value.keyTextWith]⟩

/-- The values in a key as the decimal library displays them. -/
abbrev keyTokens : Tokens Value Char := keyTokensWith BigDecimal.displays_toText

/-- The text of a token is the value's key text. -/
theorem text_keyTokens (v : Value) : keyTokens.text v = v.keyText.toList := rfl

/-- A key is the key texts of its values with separators between them. -/
theorem toList_keyStringWith (displays : BigDecimal.Displays display) (values : List Value) :
    (keyStringWith display values).toList = (keyTokensWith displays).join values := by
  have accumulated : ∀ (values : List Value) (key : String),
      (values.foldl (fun key v => key ++ v.keyTextWith display ++ "\x01") key).toList =
        key.toList ++ (keyTokensWith displays).join values := by
    intro values
    induction values with
    | nil => simp
    | cons v rest ih =>
        intro key
        rw [List.foldl_cons, ih, Tokens.join_cons]
        simp [keyTokensWith]
  exact accumulated values ""

/-- Keys are equal if and only if their joined tokens are. -/
theorem keyStringWith_eq_iff (displays : BigDecimal.Displays display) {xs ys : List Value} :
    keyStringWith display xs = keyStringWith display ys ↔
      (keyTokensWith displays).join xs = (keyTokensWith displays).join ys := by
  rw [← String.toList_inj, toList_keyStringWith displays, toList_keyStringWith displays]

/-- So are the keys with the crate's own display. -/
theorem keyString_eq_iff {xs ys : List Value} :
    keyString xs = keyString ys ↔ keyTokens.join xs = keyTokens.join ys :=
  keyStringWith_eq_iff BigDecimal.displays_toText

/-- The key of one value is its text. -/
theorem keyString_single_eq_iff {a b : Value} : keyString [a] = keyString [b] ↔ a.Same b := by
  rw [← Value.keyText_eq_iff, keyString_eq_iff, ← String.toList_inj]
  simp [Tokens.join_cons, text_keyTokens]

/-- Values are pairwise the same if and only if their key texts are. -/
theorem forall_sameWith_iff (displays : BigDecimal.Displays display) {xs ys : List Value} :
    List.Forall₂ Value.Same xs ys ↔
      xs.map (keyTokensWith displays).text = ys.map (keyTokensWith displays).text := by
  induction xs generalizing ys with
  | nil => cases ys <;> simp
  | cons x xs ih =>
      cases ys with
      | nil => simp
      | cons y ys =>
          rw [List.forall₂_cons, ih, List.map_cons, List.map_cons, List.cons.injEq,
            ← Value.keyTextWith_eq_iff displays, ← String.toList_inj]
          rfl

/-- So are the values with the crate's own display. -/
theorem forall_same_iff {xs ys : List Value} :
    List.Forall₂ Value.Same xs ys ↔ xs.map keyTokens.text = ys.map keyTokens.text :=
  forall_sameWith_iff BigDecimal.displays_toText

variable (display) in
/-- A string with U+0001 inside, and after it what reads as a value up to the string's end. -/
def Value.ImitatesValue (v : Value) : Prop :=
  ∃ (a : String) (w : Value), v = .varchar2 (a ++ "\x01" ++ w.keyTextWith display)

/-- A string with U+0001 inside, and after it the tag of strings. -/
def Value.ImitatesString (v : Value) : Prop := ∃ a b, v = .varchar2 (a ++ "\x01" ++ "s" ++ b)

variable (display) in
/-- The values of a row of which the key can be read in another way: one of them imitates a
string and is not the last, or one of them imitates a value and another one, which is not the
last value of the row, is a string. -/
def Ambiguous (values : List Value) : Prop :=
  ∃ before v after, values = before ++ v :: after ∧
    (v.ImitatesString ∧ after ≠ [] ∨
      v.ImitatesValue display ∧
        ((∃ s, .varchar2 s ∈ before) ∨ ∃ s, .varchar2 s ∈ after.dropLast))

/-- Only texts may hold any characters. -/
theorem Value.free_iff (displays : BigDecimal.Displays display) {v : Value} :
    (keyTokensWith displays).Free v ↔ ∃ s, v = .varchar2 s := by
  constructor
  · rintro ⟨body, marked⟩
    have tagged : v.tag = 's' := by
      have text : (v.keyTextWith display).toList = v.tag :: v.untagged display :=
        v.toList_keyTextWith
      rw [show (v.keyTextWith display).toList = 's' :: body from marked, List.cons.injEq] at text
      exact text.1.symm
    rcases v with _ | n | s | d | d | (_ | _) <;> simp [tag] at tagged ⊢
  · rintro ⟨s, rfl⟩
    exact ⟨s.toList, by simp [keyTokensWith, keyTextWith]⟩

/-- The tag of a text belongs to texts only. -/
theorem Value.varchar2_text_iff (displays : BigDecimal.Displays display) {v : Value}
    {body : List Char} :
    (v.keyTextWith display).toList = 's' :: body ↔ v = .varchar2 (String.ofList body) := by
  constructor
  · intro text
    obtain ⟨s, rfl⟩ := (Value.free_iff displays).mp ⟨body, text⟩
    have same : s.toList = body := by simpa [keyTextWith] using text
    rw [← same, String.ofList_toList]
  · rintro rfl
    simp [keyTextWith]

/-- A row is ambiguous if and only if its tokens trade. -/
theorem ambiguous_iff (displays : BigDecimal.Displays display) {values : List Value} :
    Ambiguous display values ↔ (keyTokensWith displays).Trades values := by
  have value : ∀ v : Value, v.ImitatesValue display ↔ (keyTokensWith displays).Splits v := by
    intro v
    constructor
    · rintro ⟨a, w, rfl⟩
      exact ⟨a.toList, w, by simp [keyTokensWith, Value.keyTextWith]⟩
    · rintro ⟨body, w, text⟩
      refine ⟨String.ofList body, w, ((Value.varchar2_text_iff displays).mp text).trans ?_⟩
      rw [Value.varchar2.injEq, ← String.toList_inj]
      simp [keyTokensWith]
  have string : ∀ v : Value, v.ImitatesString ↔ (keyTokensWith displays).SplitsFree v := by
    intro v
    constructor
    · rintro ⟨a, b, rfl⟩
      exact ⟨a.toList, b.toList, by simp [keyTokensWith, Value.keyTextWith]⟩
    · rintro ⟨body, rest, text⟩
      refine ⟨String.ofList body, String.ofList rest,
        ((Value.varchar2_text_iff displays).mp text).trans ?_⟩
      rw [Value.varchar2.injEq, ← String.toList_inj]
      simp [keyTokensWith]
  have free : ∀ vs : List Value,
      (∃ s, .varchar2 s ∈ vs) ↔ ∃ u ∈ vs, (keyTokensWith displays).Free u := by
    intro vs
    constructor
    · rintro ⟨s, member⟩
      exact ⟨_, member, (Value.free_iff displays).mpr ⟨s, rfl⟩⟩
    · rintro ⟨u, member, isFree⟩
      obtain ⟨s, rfl⟩ := (Value.free_iff displays).mp isFree
      exact ⟨s, member⟩
  simp only [Ambiguous, Tokens.Trades, value, string, free]

/-- The same values give the same key. -/
theorem keyStringWith_of_same (displays : BigDecimal.Displays display) {xs ys : List Value}
    (same : List.Forall₂ Value.Same xs ys) :
    keyStringWith display xs = keyStringWith display ys := by
  rw [keyStringWith_eq_iff displays]
  have texts : ∀ vs : List Value, (keyTokensWith displays).join vs =
      (vs.map (keyTokensWith displays).text).flatMap fun text => text ++ ['\x01'] := by
    intro vs
    simp [Tokens.join, List.flatMap_map, keyTokensWith]
  rw [texts, (forall_sameWith_iff displays).mp same, texts]

/-- Whatever decimals look like, the key of a row tells it from every other row of as many values
exactly when the row is not ambiguous. -/
theorem keyString_identifies_iff (displays : BigDecimal.Displays display) (xs : List Value) :
    (∀ ys : List Value, ys.length = xs.length →
      (keyStringWith display xs = keyStringWith display ys ↔ List.Forall₂ Value.Same xs ys)) ↔
        ¬ Ambiguous display xs := by
  rw [ambiguous_iff displays, ← Tokens.join_identifies_iff]
  refine forall₂_congr fun ys length => ?_
  rw [keyStringWith_eq_iff displays, forall_sameWith_iff displays]
  constructor
  · exact Iff.mp
  · intro identifies
    refine ⟨identifies, fun same => ?_⟩
    rw [← keyStringWith_eq_iff displays]
    exact keyStringWith_of_same displays ((forall_sameWith_iff displays).mpr same)

end Display

/-- A string that imitates a NULL does no harm after a number: no string stands before it that
could be longer. -/
theorem keyString_identifies_number :
    let xs : List Value := [.number ⟨1, -20⟩, .varchar2 "b\x01~"]
    ∀ ys : List Value, ys.length = xs.length →
      (keyStringWith BigDecimal.toText xs = keyStringWith BigDecimal.toText ys ↔
        List.Forall₂ Value.Same xs ys) := by
  intro xs
  refine (keyString_identifies_iff BigDecimal.displays_toText xs).mpr ?_
  rintro ⟨before, v, after, split, trades⟩
  rcases before with _ | ⟨u, _ | ⟨w, before⟩⟩
  · obtain ⟨rfl, rfl⟩ := List.cons.inj split
    simp [Value.ImitatesString, Value.ImitatesValue] at trades
  · simp only [xs, List.cons_append, List.nil_append, List.cons.injEq] at split
    obtain ⟨rfl, rfl, rfl⟩ := split
    simp at trades
  · simp [xs] at split

/-- Two rows of two strings each with one key. -/
theorem keyString_confuses_rows :
    let xs : List Value := [.varchar2 "a\x01sb", .varchar2 "c"]
    let ys : List Value := [.varchar2 "a", .varchar2 "b\x01sc"]
    keyString xs = keyString ys ∧ ¬ List.Forall₂ Value.Same xs ys := by
  refine ⟨by decide, ?_⟩
  simp [Value.Same]

end MockOracle
