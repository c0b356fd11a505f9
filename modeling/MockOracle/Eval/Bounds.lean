import MockOracle.Eval.ResultTypes

/-!
# Types that bound their values

A result column bounds its values when each is NULL, or has the variant of the column's type
and, for a text, at least one byte and no more than the type allows. Conversion to a column's type
always gives the right variant; a length is kept where the value's text is no longer than it.
-/

namespace MockOracle

open Std

/-- Whether a type bounds a value: NULL, or of the type's variant and, for a text, within its
length. There is no text without a byte, as `Value.varchar` makes it NULL. -/
def SqlType.bounds (t : SqlType) (v : Value) : Bool :=
  v.isNull || (t.hasVariant v && t.textLength.all fun n => 0 < v.textSize && v.textSize ≤ n)

/-- A value whose text in a session's formats has at most `n` bytes, and which is no text without
a byte. -/
def Value.FitsText (dates : DateFormats) (env : Env) (n : Nat) (v : Value) : Prop :=
  v ≠ .varchar2 "" ∧ ∀ text, toText dates env v = some text → text.utf8ByteSize ≤ n

/-- The values of a column without a declared type have texts that the type read off them
measures: each has at least one byte and a 32-bit length, and where there is a text, what other
values become as texts is no longer than the longest. -/
def TextsMeasured (dates : DateFormats) (env : Env) (values : List Value) : Prop :=
  (∀ v ∈ values, v.isText = true → 0 < v.textSize ∧ v.textSize < 2 ^ 32) ∧
    (maxLength values ≠ 0 → ∀ v ∈ values, v.isText = false → v.FitsText dates env (maxLength values))

section Bounds

variable {dates : DateFormats} {env : Env} {n : Nat} {t : SqlType} {v w : Value}

@[simp] theorem bounds_null : t.bounds .null = true := rfl

theorem bounds_text (textual : t.textLength = some n) (text : String) :
    t.bounds (.varchar2 text) = true ↔ 0 < text.utf8ByteSize ∧ text.utf8ByteSize ≤ n := by
  cases t with
  | varchar2 m | char m =>
      cases textual
      exact (Bool.and_eq_true _ _).to_iff.trans (and_congr decide_eq_true_iff decide_eq_true_iff)
  | number | date | timestamp => cases textual

theorem bounds_varchar {text : String} (textual : t.textLength = some n)
    (fits : text.utf8ByteSize ≤ n) : t.bounds (Value.varchar text) = true := by
  unfold Value.varchar
  split
  · rfl
  · next nonempty =>
      refine (bounds_text textual text).mpr ⟨Nat.pos_of_ne_zero fun zero => nonempty ?_, fits⟩
      rw [String.utf8ByteSize_eq_zero_iff.mp zero]
      rfl

/-- A bounded value of a text column is no longer than the column. -/
theorem fitsText_of_bounds (textual : t.textLength = some n) (bounded : t.bounds v = true) :
    v.FitsText dates env n := by
  cases v with
  | null => exact ⟨by simp, fun text shown => by cases shown⟩
  | varchar2 s =>
      obtain ⟨some_, fits⟩ := (bounds_text textual s).mp bounded
      refine ⟨?_, fun text shown => ?_⟩
      · rintro equal
        cases equal
        exact absurd some_ (by decide)
      · cases shown
        exact fits
  | number | date | timestamp | boolean =>
      cases t with
      | varchar2 | char => cases bounded
      | number | date | timestamp => cases textual

/-- Conversion gives the column's variant, and keeps a text within the column's length. -/
theorem bounds_coerceValue (coerced : coerceValue dates env t v = .ok w)
    (fits : ∀ n, t.textLength = some n → v.FitsText dates env n) : t.bounds w = true := by
  have text : ∀ {shown m}, toText dates env v = some shown → t.textLength = some m →
      t.bounds (Value.varchar shown) = true :=
    fun shown textual => bounds_varchar textual ((fits _ textual).2 _ shown)
  cases v with
  | null =>
      rw [coerceValue_null] at coerced
      cases coerced
      rfl
  | boolean => cases t <;> cases coerced
  | varchar2 s =>
      cases t with
      | varchar2 m | char m =>
          cases coerced
          obtain ⟨nonempty, short⟩ := fits m rfl
          refine (bounds_text rfl s).mpr ⟨Nat.pos_of_ne_zero fun zero => nonempty ?_, short s rfl⟩
          rw [String.utf8ByteSize_eq_zero_iff.mp zero]
      | number | date | timestamp =>
          simp only [coerceValue, bind, Except.bind] at coerced
          split at coerced
          · cases coerced
          · cases coerced
            rfl
  | number | date | timestamp =>
      cases t with
      | varchar2 m | char m =>
          cases coerced
          exact text rfl rfl
      | number | date | timestamp => cases coerced <;> rfl

/-- Conversion to a type without a length. -/
theorem bounds_of_unmeasured (free : t.textLength = none)
    (coerced : coerceValue dates env t v = .ok w) : t.bounds w = true :=
  bounds_coerceValue coerced fun n textual => by rw [free] at textual; cases textual

/-- A value that conforms to a column is bounded by its type. -/
theorem bounds_of_conforms {c : TableColumn} (conforms : v.Conforms dates c) :
    c.sqlType.bounds v = true := by
  rcases conforms with rfl | ⟨variant, accepted⟩
  · rfl
  · have stored := accepted ⟨"", "", "", 0, ⟨0, 0⟩, ⟨0, 0⟩, ∅, ⟨false, [], "", 0⟩, 0, ∅⟩ "" ""
    cases v with
    | varchar2 s =>
        have within : ∀ {padded : Bool} {max : Nat} {text : String},
            c.storeText "" "" padded max text = .ok (.varchar2 s) →
              0 < s.utf8ByteSize ∧ s.utf8ByteSize ≤ max := by
          intro padded max text stored
          obtain ⟨fits, equal⟩ := TableColumn.storeText_ok.mp stored
          generalize (if padded then text.pushn ' ' (max - text.utf8ByteSize) else text) = full at *
          unfold Value.varchar at equal
          split at equal
          · cases equal
          · next nonempty =>
              cases equal
              refine ⟨Nat.pos_of_ne_zero fun zero => nonempty ?_, Nat.le_of_not_lt fits⟩
              rw [String.utf8ByteSize_eq_zero_iff.mp zero]
              rfl
        cases type : c.sqlType with
        | varchar2 max | char max =>
            simp only [TableColumn.storeValue, type] at stored
            exact (bounds_text rfl s).mpr (within stored)
        | number | date | timestamp =>
            rw [type] at variant
            cases variant
    | null => rfl
    | number | date | timestamp | boolean =>
        cases type : c.sqlType with
        | varchar2 max | char max =>
            rw [type] at variant
            cases variant
        | number | date | timestamp =>
            rw [type] at variant
            cases variant <;> rfl

theorem Value.FitsText.mono {m : Nat} (fits : v.FitsText dates env n) (le : n ≤ m) :
    v.FitsText dates env m :=
  ⟨fits.1, fun text shown => (fits.2 text shown).trans le⟩

/-- The common type of two columns covers the texts of both. -/
theorem fitsText_unionType {a b : SqlType} (united : unionType a b = .ok t)
    (bounded : a.bounds v = true ∨ b.bounds v = true) (textual : t.textLength = some n) :
    v.FitsText dates env n := by
  have covers : ∀ {x y : Nat}, a.textLength = some x → b.textLength = some y → x ≤ n → y ≤ n →
      v.FitsText dates env n := by
    intro x y left right leftLe rightLe
    rcases bounded with first | second
    · exact (fitsText_of_bounds left first).mono leftLe
    · exact (fitsText_of_bounds right second).mono rightLe
  have blank : ∀ {u : SqlType}, u = .varchar2 0 → u.bounds v = true → v.FitsText dates env n := by
    intro u equal first
    subst equal
    exact (fitsText_of_bounds rfl first).mono (Nat.zero_le n)
  unfold unionType at united
  split at united
  · cases united
    rcases bounded with first | second
    · exact blank rfl first
    · exact fitsText_of_bounds textual second
  · cases united
    rcases bounded with first | second
    · exact fitsText_of_bounds textual first
    · exact blank rfl second
  case h_3 | h_8 | h_9 | h_10 | h_11 =>
    cases united
    cases textual
  case h_4 | h_5 | h_6 | h_7 =>
    cases united
    cases textual
    exact covers rfl rfl (Nat.le_max_left _ _) (Nat.le_max_right _ _)
  · cases united

/-! ## Types read off the data -/

theorem le_maxLength_acc (values : List Value) (acc : Nat) :
    acc ≤ values.foldl (fun length v =>
      match v with
      | .varchar2 s => max length (s.utf8ByteSize % 2 ^ 32)
      | _ => length) acc := by
  induction values generalizing acc with
  | nil => exact Nat.le_refl acc
  | cons v rest ih =>
      refine Nat.le_trans ?_ (ih _)
      cases v with
      | varchar2 s => exact Nat.le_max_left _ _
      | null | number | date | timestamp | boolean => exact Nat.le_refl acc

theorem textSize_le_maxLength {values : List Value} (member : v ∈ values)
    (short : v.textSize < 2 ^ 32) : v.textSize ≤ maxLength values := by
  have reached : ∀ (values : List Value) (acc : Nat), v ∈ values →
      v.textSize ≤ values.foldl (fun length v =>
        match v with
        | .varchar2 s => max length (s.utf8ByteSize % 2 ^ 32)
        | _ => length) acc := by
    intro values
    induction values with
    | nil => simp
    | cons first rest ih =>
        intro acc member
        rcases List.mem_cons.mp member with rfl | later
        · refine Nat.le_trans ?_ (le_maxLength_acc rest _)
          cases v with
          | varchar2 s =>
              have same : s.utf8ByteSize % 2 ^ 32 = s.utf8ByteSize := Nat.mod_eq_of_lt short
              simp only [Value.textSize, same]
              exact Nat.le_max_right _ _
          | null | number | date | timestamp | boolean => exact Nat.zero_le _
        · exact ih _ later
  exact reached values 0 member

theorem textLength_firstKind {values : List Value} (found : firstKind values = some t) :
    t.textLength = none := by
  obtain ⟨v, _, kind⟩ := List.exists_of_findSome?_eq_some found
  cases v with
  | null | varchar2 => cases kind
  | number | date | timestamp | boolean =>
      cases kind
      rfl

/-- Without a value of another kind every value is NULL or a text. -/
theorem null_of_firstKind_none {values : List Value} (none_ : firstKind values = none)
    (member : v ∈ values) : v.isNull = true ∨ v.isText = true := by
  have kind := List.findSome?_eq_none_iff.mp none_ v member
  cases v with
  | null => exact Or.inl rfl
  | varchar2 => exact Or.inr rfl
  | number | date | timestamp | boolean => cases kind

/-- A text among the values fits the length read off them. -/
theorem fitsText_of_isText {values : List Value} (measured : TextsMeasured dates env values)
    (member : v ∈ values) (text : v.isText = true) : v.FitsText dates env (maxLength values) := by
  obtain ⟨some_, short⟩ := measured.1 v member text
  have long := textSize_le_maxLength member short
  cases v with
  | varchar2 s =>
      refine ⟨?_, fun shown equal => ?_⟩
      · rintro equal
        cases equal
        exact absurd some_ (by decide)
      · cases equal
        exact long
  | null | number | date | timestamp | boolean => cases text

/-- The type read off measured values bounds what they become. -/
theorem bounds_inferType {values : List Value} (measured : TextsMeasured dates env values)
    (member : v ∈ values) (coerced : coerceValue dates env (inferType none values) v = .ok w) :
    (inferType none values).bounds w = true := by
  refine bounds_coerceValue coerced fun n textual => ?_
  have length : n = maxLength values := by
    unfold inferType at textual
    cases kind : firstKind values with
    | none =>
        simp only [kind] at textual
        exact (Option.some.inj textual).symm
    | some t =>
        simp only [kind] at textual
        split at textual
        · rw [textLength_firstKind kind] at textual
          cases textual
        · exact (Option.some.inj textual).symm
  subst length
  by_cases text : v.isText = true
  · exact fitsText_of_isText measured member text
  · by_cases zero : maxLength values = 0
    · -- Without texts and other kinds all values are NULL.
      cases kind : firstKind values with
      | some t =>
          simp only [inferType, kind, zero, if_true] at textual
          rw [textLength_firstKind kind] at textual
          cases textual
      | none =>
          have null := (null_of_firstKind_none kind member).resolve_right text
          cases v with
          | null => exact ⟨by simp, fun text shown => by cases shown⟩
          | number | varchar2 | date | timestamp | boolean => cases null
    · exact measured.2 zero v member ((Bool.not_eq_true _).mp text)

end Bounds

/-- A type promises to bound its values. Only text types have a length to keep. -/
def boundsPromise (dates : DateFormats) : TypePromise dates where
  keeps t v := t.bounds v = true
  stored := bounds_of_conforms
  stable bounded coerced :=
    bounds_coerceValue coerced fun _ textual => fitsText_of_bounds textual bounded
  union united bounded coerced :=
    bounds_coerceValue coerced fun _ textual => fitsText_unionType united bounded textual
  free t := t.textLength = none
  of_free := bounds_of_unmeasured
  data := TextsMeasured dates
  of_data := bounds_inferType

end MockOracle
