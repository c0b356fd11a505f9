import MockOracle.Eval.Bounds

/-!
# Types whose columns would store their values

A result column promises that its values could be stored in a column of its type as they are: a
text within the length, a number of the precision and scale, a DATE of whole seconds, a TIMESTAMP
of no more digits than the type has. Stored values keep it, and so do the common types of set
operations; a NUMBER without precision promises it of every number.
-/

namespace MockOracle

open Std

/-- A column of a type, with no default and no constraint. -/
def SqlType.column (t : SqlType) : TableColumn := ⟨"", t, none, false, false⟩

/-- A value of a type that a column of the type stores as it is. -/
def SqlType.stores (dates : DateFormats) (t : SqlType) (v : Value) : Prop :=
  v.Conforms dates t.column

/-- The time of a DATE has whole seconds, and the fraction of a TIMESTAMP is below a second. -/
def Value.WholeTimes : Value → Prop
  | .date d => d.nanos = 0
  | .timestamp d => d.nanos < 1000000000
  | _ => True

section Stores

variable {dates : DateFormats} {env : Env} {t : SqlType} {v w : Value}

theorem stores_null (t : SqlType) : t.stores dates .null := Or.inl rfl

theorem stores_of_conforms {c : TableColumn} (conforms : v.Conforms dates c) :
    c.sqlType.stores dates v :=
  conforms.of_type rfl

/-- A text column stores what its type bounds. -/
theorem stores_varchar2_iff {n : Nat} :
    (SqlType.varchar2 n).stores dates v ↔ (SqlType.varchar2 n).bounds v = true := by
  constructor
  · exact fun stored => bounds_of_conforms stored
  · intro bounded
    cases v with
    | null => exact stores_null _
    | varchar2 text =>
        obtain ⟨some_, fits⟩ := (bounds_text rfl text).mp bounded
        have value : Value.varchar text = .varchar2 text := by
          have nonempty : text.isEmpty = false := by
            rw [Bool.eq_false_iff, ne_eq, String.isEmpty_iff]
            rintro rfl
            exact absurd some_ (by decide)
          rw [Value.varchar, nonempty, if_neg Bool.false_ne_true]
        exact value ▸ conforms_varchar fits
    | number | date | timestamp | boolean => cases bounded

/-- Every number can be stored as a NUMBER without precision. -/
theorem stores_unconstrained {scale : Int} (n : BigDecimal) :
    (SqlType.number 0 scale).stores dates (.number n) :=
  Or.inr ⟨rfl, fun _ _ _ => rfl⟩

theorem stores_date {d : NaiveDateTime} :
    SqlType.date.stores dates (.date d) ↔ d.nanos = 0 := by
  constructor
  · rintro (null_ | ⟨-, accepted⟩)
    · cases null_
    · have stored := accepted ⟨"", "", "", 0, ⟨0, 0⟩, ⟨0, 0⟩, ∅, ⟨false, [], "", 0⟩, 0, ∅⟩ "" ""
      have same : (⟨d.timestamp, 0⟩ : NaiveDateTime) = d := Value.date.inj (Except.ok.inj stored)
      rw [← same]
  · intro whole
    refine Or.inr ⟨rfl, fun env user table => ?_⟩
    have same : (⟨d.timestamp, 0⟩ : NaiveDateTime) = d := by rw [← whole]
    show Except.ok (Value.date ⟨d.timestamp, 0⟩) = _
    rw [same]

/-- A TIMESTAMP of nine digits keeps every fraction below a second. -/
theorem stores_timestamp {d : NaiveDateTime} (below : d.nanos < 1000000000) :
    (SqlType.timestamp 9).stores dates (.timestamp d) := by
  have same : roundFraction d 9 = d := by
    simp only [roundFraction, Nat.min_self, Nat.sub_self, Nat.pow_zero, Nat.div_one, Nat.mul_one]
    exact if_neg (Nat.not_le_of_lt below)
  refine Or.inr ⟨rfl, fun env user table => ?_⟩
  show Except.ok (Value.timestamp (roundFraction d 9)) = _
  rw [same]

theorem wholeTimes_of_stores (stored : t.stores dates v) : v.WholeTimes := by
  cases v with
  | date d =>
      cases t with
      | date => exact stores_date.mp stored
      | number | varchar2 | char | timestamp =>
          rcases stored with null_ | ⟨variant, -⟩
          · cases null_
          · cases variant
  | timestamp d =>
      cases t with
      | timestamp precision =>
          rcases stored with null_ | ⟨-, accepted⟩
          · cases null_
          · have stored := accepted ⟨"", "", "", 0, ⟨0, 0⟩, ⟨0, 0⟩, ∅, ⟨false, [], "", 0⟩, 0, ∅⟩ "" ""
            have same : roundFraction d precision = d :=
              Value.timestamp.inj (Except.ok.inj stored)
            show d.nanos < 1000000000
            rw [← same]
            unfold roundFraction
            simp only
            split
            · exact Nat.zero_lt_succ _
            · next small => exact Nat.lt_of_not_le small
      | number | varchar2 | char | date =>
          rcases stored with null_ | ⟨variant, -⟩
          · cases null_
          · cases variant
  | null | number | varchar2 | boolean => trivial

/-- Conversion of a value to the type that it has changes nothing. -/
theorem coerceValue_of_variant (variant : t.hasVariant v = true) :
    coerceValue dates env t v = .ok v := by
  cases t <;> cases v <;> first | rfl | cases variant

theorem stores_coerceValue (stored : t.stores dates v)
    (coerced : coerceValue dates env t v = .ok w) : t.stores dates w := by
  rcases stored with rfl | ⟨variant, accepted⟩
  · rw [coerceValue_null] at coerced
    cases coerced
    exact stores_null t
  · cases (coerceValue_of_variant variant).symm.trans coerced
    exact Or.inr ⟨variant, accepted⟩

/-- What becomes a number can be stored as a NUMBER without precision. -/
theorem stores_coerceValue_number {scale : Int}
    (coerced : coerceValue dates env (.number 0 scale) v = .ok w) :
    (SqlType.number 0 scale).stores dates w := by
  cases v with
  | null =>
      cases coerced
      exact stores_null _
  | number n =>
      cases coerced
      exact stores_unconstrained n
  | varchar2 s =>
      simp only [coerceValue, bind, Except.bind] at coerced
      split at coerced
      · cases coerced
      · cases coerced
        exact stores_unconstrained _
  | date | timestamp | boolean => cases coerced

/-- What becomes a date/time of a fraction below a second. -/
theorem stores_coerceValue_time (times : t = .date ∨ t = .timestamp 9) (whole : v.WholeTimes)
    (other : v.isText = false) (coerced : coerceValue dates env t v = .ok w) :
    t.stores dates w := by
  cases v with
  | null =>
      rw [coerceValue_null] at coerced
      cases coerced
      exact stores_null t
  | varchar2 => cases other
  | number | boolean => rcases times with rfl | rfl <;> cases coerced
  | date d =>
      rcases times with rfl | rfl
      · cases coerced
        exact stores_date.mpr whole
      · cases coerced
        have zero : d.nanos = 0 := whole
        exact stores_timestamp (by omega)
  | timestamp d =>
      rcases times with rfl | rfl
      · cases coerced
        exact stores_date.mpr rfl
      · cases coerced
        exact stores_timestamp whole

/-- A column of length zero stores only NULL. -/
theorem eq_null_of_stores_zero (stored : (SqlType.varchar2 0).stores dates v) : v = .null := by
  have bounded := stores_varchar2_iff.mp stored
  cases v with
  | null => rfl
  | varchar2 text =>
      have := (bounds_text rfl text).mp bounded
      omega
  | number | date | timestamp | boolean => cases bounded

/-- A value without a text, as a stored DATE or TIMESTAMP has it. -/
theorem isText_of_stores (stored : t.stores dates v) (textless : t.textLength = none) :
    v.isText = false := by
  rcases stored with rfl | ⟨variant, -⟩
  · rfl
  · cases v with
    | varchar2 =>
        cases t with
        | varchar2 | char => cases textless
        | number | date | timestamp => cases variant
    | null | number | date | timestamp | boolean => rfl

/-- The common type of two columns stores what is stored under either. -/
theorem stores_unionType {a b : SqlType} (united : unionType a b = .ok t)
    (stored : a.stores dates v ∨ b.stores dates v) (coerced : coerceValue dates env t v = .ok w) :
    t.stores dates w := by
  have texts : ∀ n, t = .varchar2 n → t.stores dates w := by
    rintro n rfl
    have bounded : a.bounds v = true ∨ b.bounds v = true :=
      stored.imp (fun left => bounds_of_conforms left) fun right => bounds_of_conforms right
    exact stores_varchar2_iff.mpr ((boundsPromise dates).union united bounded coerced)
  have times : t = .date ∨ t = .timestamp 9 → a.textLength = none → b.textLength = none →
      t.stores dates w := by
    intro times left right
    refine stores_coerceValue_time times ?_ ?_ coerced
    · exact stored.elim wholeTimes_of_stores wholeTimes_of_stores
    · exact stored.elim (isText_of_stores · left) (isText_of_stores · right)
  have same : t.stores dates v ∨ v = .null → t.stores dates w := by
    rintro (stored | rfl)
    · exact stores_coerceValue stored coerced
    · exact stores_coerceValue (stores_null t) coerced
  unfold unionType at united
  split at united
  case h_1 =>
    cases united
    exact same (stored.symm.imp_right eq_null_of_stores_zero)
  case h_2 =>
    cases united
    exact same (stored.imp_right eq_null_of_stores_zero)
  case h_3 =>
    cases united
    exact stores_coerceValue_number coerced
  case h_4 | h_5 | h_6 | h_7 =>
    cases united
    exact texts _ rfl
  case h_8 =>
    cases united
    exact times (Or.inl rfl) rfl rfl
  case h_9 | h_10 | h_11 =>
    cases united
    exact times (Or.inr rfl) rfl rfl
  case h_12 => cases united

/-! ## Types read off the data -/

/-- The type read off measured values stores what they become. -/
theorem stores_inferType {values : List Value} (measured : TextsMeasured dates env values)
    (whole : ∀ v ∈ values, v.WholeTimes) (member : v ∈ values)
    (coerced : coerceValue dates env (inferType none values) v = .ok w) :
    (inferType none values).stores dates w := by
  have texts : ∀ n, inferType none values = .varchar2 n →
      (inferType none values).stores dates w := by
    intro n equal
    have bounded := bounds_inferType measured member coerced
    rw [equal] at bounded ⊢
    exact stores_varchar2_iff.mpr bounded
  cases kind : firstKind values with
  | none => exact texts (maxLength values) (by rw [inferType, kind])
  | some t =>
      by_cases zero : maxLength values = 0
      · have type : inferType none values = t := by rw [inferType, kind]; exact if_pos zero
        have other : v.isText = false := by
          rw [Bool.eq_false_iff]
          intro text
          obtain ⟨some_, short⟩ := measured.1 v member text
          have := textSize_le_maxLength member short
          omega
        rw [type] at coerced ⊢
        obtain ⟨first, _, found⟩ := List.exists_of_findSome?_eq_some kind
        cases first with
        | null | varchar2 => cases found
        | number =>
            cases found
            exact stores_coerceValue_number coerced
        | date =>
            cases found
            exact stores_coerceValue_time (Or.inl rfl) (whole v member) other coerced
        | timestamp | boolean =>
            cases found
            exact stores_coerceValue_time (Or.inr rfl) (whole v member) other coerced
      · exact texts (maxLength values) (by rw [inferType, kind]; exact if_neg zero)

end Stores

/-- A type promises that its values could be stored under it as they are. -/
def storagePromise (dates : DateFormats) : TypePromise dates where
  keeps t v := t.stores dates v
  stored := stores_of_conforms
  stable := stores_coerceValue
  union := stores_unionType
  free t := ∃ scale, t = .number 0 scale
  of_free := by
    rintro env t v w ⟨scale, rfl⟩ coerced
    exact stores_coerceValue_number coerced
  data env values := TextsMeasured dates env values ∧ ∀ v ∈ values, v.WholeTimes
  of_data measured member coerced := stores_inferType measured.1 measured.2 member coerced

end MockOracle
