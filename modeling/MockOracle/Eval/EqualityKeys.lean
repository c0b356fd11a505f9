import MockOracle.Eval.Plain
import MockOracle.Eval.Evaluate
import MockOracle.Catalog.Table
import MockOracle.Core.KeyText

/-!
# Equality in conditions and equality of keys

Conditions compare values with `compareValues`. DISTINCT, GROUP BY, unique constraints and
foreign keys compare the texts of `keyString`. The two notions agree on numbers of any scale,
on date/times and on booleans. Of two strings the comparison ignores the blanks at the end and
the key does not, so they disagree on strings that differ there only.
-/

namespace MockOracle

namespace BigDecimal

theorem toRat_eq_coefficientAt (n : BigDecimal) {scale : Int} (le : n.scale ≤ scale) :
    n.toRat = n.coefficientAt scale * 10 ^ (-scale) := by
  have same := toRat_withScale n le
  rw [← same, withScale, if_pos le]
  rfl

/-- Numbers compare as equal when they are the same number, whatever their scales. -/
theorem cmp_eq_iff {a b : BigDecimal} : a.cmp b = .eq ↔ a.toRat = b.toRat := by
  unfold cmp
  rw [compare_eq_iff_eq, toRat_eq_coefficientAt a (le_max_left a.scale b.scale),
    toRat_eq_coefficientAt b (le_max_right a.scale b.scale),
    mul_left_inj' (ten_zpow_pos _).ne', Int.cast_inj]

end BigDecimal

/-- The loop that lists the bytes of an array has those before `i` in reverse. -/
theorem byteArray_toList_loop (bytes : ByteArray) (i : Nat) (before : List UInt8) :
    ByteArray.toList.loop bytes i before = before.reverse ++ bytes.data.toList.drop i := by
  fun_induction ByteArray.toList.loop bytes i before with
  | case1 i before inside ih =>
      have within : i < bytes.data.toList.length := by
        rw [Array.length_toList]
        exact inside
      rw [ih, List.drop_eq_getElem_cons within, List.reverse_cons, List.append_assoc,
        List.singleton_append]
      congr 2
      exact getElem!_pos bytes.data i inside
  | case2 i before outside =>
      have past : bytes.data.toList.length ≤ i := by
        rw [Array.length_toList]
        exact Nat.not_lt.mp outside
      rw [List.drop_of_length_le past, List.append_nil]

theorem byteArray_toList_injective {a b : ByteArray} (same : a.toList = b.toList) : a = b := by
  ext1
  rw [ByteArray.toList, ByteArray.toList, byteArray_toList_loop, byteArray_toList_loop] at same
  exact Array.toList_inj.mp same

theorem compareBytes_eq_iff {a b : String} : compareBytes a b = .eq ↔ a = b := by
  unfold compareBytes compareOfLessAndEq
  constructor
  · intro compared
    split at compared
    · cases compared
    · split at compared
      · next same =>
          have bytes := List.map_injective_iff.mpr (fun _ _ => UInt8.toNat.inj) same
          exact String.toByteArray_inj.mp (byteArray_toList_injective bytes)
      · cases compared
  · rintro rfl
    rw [if_neg (List.lt_irrefl _), if_pos rfl]

theorem compareInstants_eq_iff {d e : NaiveDateTime} : compareInstants d e = .eq ↔ d = e := by
  cases d
  cases e
  simp [compareInstants, Ordering.then_eq_eq]

/-! ## Agreement -/

/-- Two values that are not NULL, of one variant, or a DATE and a TIMESTAMP. -/
def Value.Comparable : Value → Value → Prop
  | .number _, .number _ | .varchar2 _, .varchar2 _ | .boolean _, .boolean _ => True
  | .date _, .date _ | .date _, .timestamp _ | .timestamp _, .date _ | .timestamp _, .timestamp _ =>
      True
  | _, _ => False

/-- Two strings that differ in the blanks at their ends and nowhere else. -/
def Value.BlanksApart (a b : Value) : Prop :=
  ∃ x y, a = .varchar2 x ∧ b = .varchar2 y ∧ x ≠ y ∧ trimEnd x = trimEnd y

/-- Conditions and keys find the same values equal: `a = b` holds exactly when the values have
one key, are one row under DISTINCT, collide in a unique key, and exactly when a child row with
`a` finds a parent row with `b`. -/
structure EqualityAgrees (dates : DateFormats) (format : String) (a b : Value) : Prop where
  key : compareValues dates format a b = .ok (some .eq) ↔ keyString [a] = keyString [b]
  distinct : compareValues dates format a b = .ok (some .eq) ↔
    distinctBy keyString [[a], [b]] = [[a]]
  unique : ∀ {row row' : Row} {i : Nat}, cell row i = a → cell row' i = b →
    (compareValues dates format a b = .ok (some .eq) ↔ uniqueKey [i] row = uniqueKey [i] row')
  reference : ∀ {child parent : Row} {i j : Nat}, cell child i = a → cell parent j = b →
    (compareValues dates format a b = .ok (some .eq) ↔ foreignKey [i] child = uniqueKey [j] parent)

section Agreement

variable {dates : DateFormats} {format : String} {a b : Value}

theorem Value.Comparable.not_null (comparable : a.Comparable b) :
    a.isNull = false ∧ b.isNull = false := by
  cases a <;> cases b <;> simp [Value.Comparable, Value.isNull] at comparable ⊢

/-- What comparison finds equal: strings up to the blanks at their ends, and other values that
are the same. -/
theorem compareValues_eq_iff (comparable : a.Comparable b) :
    compareValues dates format a b = .ok (some .eq) ↔ a.Same b ∨ a.BlanksApart b := by
  cases a <;> cases b <;> simp only [Value.Comparable] at comparable
  case number.number m n =>
    simp [compareValues, Value.toNumber, convert, bind, Except.bind, pure, Except.pure, Except.map,
      Value.Same, Value.BlanksApart, BigDecimal.cmp_eq_iff]
  case varchar2.varchar2 x y =>
    simp only [compareValues, Except.ok.injEq, Option.some.injEq, compareBytes_eq_iff, Value.Same,
      Value.BlanksApart, Value.varchar2.injEq]
    constructor
    · intro same
      by_cases equal : x = y
      · exact Or.inl equal
      · exact Or.inr ⟨x, y, rfl, rfl, equal, same⟩
    · rintro (rfl | ⟨_, _, rfl, rfl, -, same⟩)
      · rfl
      · exact same
  case boolean.boolean x y =>
    simp only [compareValues, Value.Same, Value.BlanksApart]
    cases x <;> cases y <;> simp [compare, compareOfLessAndEq]
  all_goals
    simp [compareValues, Value.toDatetime, convert, bind, Except.bind, pure, Except.pure,
      Except.map, Value.Same, Value.BlanksApart, compareInstants_eq_iff]

theorem Value.BlanksApart.not_same (apart : a.BlanksApart b) : ¬ a.Same b := by
  obtain ⟨x, y, rfl, rfl, differ, -⟩ := apart
  exact differ

/-- DISTINCT keeps one of two rows exactly when they have one key. -/
theorem distinctBy_pair_iff {α : Type} {key : α → String} {x y : α} :
    distinctBy key [x, y] = [x] ↔ key x = key y := by
  by_cases same : key y = key x
  · simp [distinctBy, same]
  · simp [distinctBy, same, Ne.symm same]

theorem uniqueKey_single {row : Row} {i : Nat} (given : (cell row i).isNull = false) :
    uniqueKey [i] row = some (keyString [cell row i]) :=
  if_neg (by simp only [keyValues, List.map_cons, List.map_nil, List.all_cons, given]; decide)

theorem foreignKey_single {row : Row} {i : Nat} (given : (cell row i).isNull = false) :
    foreignKey [i] row = some (keyString [cell row i]) :=
  if_neg (by simp only [keyValues, List.map_cons, List.map_nil, List.any_cons, given]; decide)

/-- Conditions and keys agree on two values exactly when these are not strings that differ only
in the blanks at their ends. -/
theorem equality_agrees_iff (comparable : a.Comparable b) :
    EqualityAgrees dates format a b ↔ ¬ a.BlanksApart b := by
  have keyed : (compareValues dates format a b = .ok (some .eq) ↔ keyString [a] = keyString [b]) ↔
      ¬ a.BlanksApart b := by
    rw [compareValues_eq_iff comparable, keyString_single_eq_iff]
    constructor
    · intro agree apart
      exact apart.not_same (agree.mp (Or.inr apart))
    · intro together
      simp [together]
  constructor
  · intro agrees
    exact keyed.mp agrees.key
  · intro together
    have key := keyed.mpr together
    obtain ⟨left, right⟩ := comparable.not_null
    refine ⟨key, key.trans distinctBy_pair_iff.symm, ?_, ?_⟩
    · rintro row row' i rfl rfl
      rw [key, uniqueKey_single left, uniqueKey_single right, Option.some.injEq]
    · rintro child parent i j rfl rfl
      rw [key, foreignKey_single left, uniqueKey_single right, Option.some.injEq]

end Agreement

/-- `1.50` and `1.5` are equal in conditions and have one key. -/
theorem equality_agrees_scales :
    EqualityAgrees Library.plain.dates "" (.number ⟨150, 2⟩) (.number ⟨15, 1⟩) := by
  have comparable : (Value.number ⟨150, 2⟩).Comparable (.number ⟨15, 1⟩) := trivial
  refine (equality_agrees_iff comparable).mpr ?_
  rintro ⟨x, y, left, -⟩
  cases left

/-- `'a' = 'a '` is TRUE, and the two strings have different keys. -/
theorem equality_ignores_blanks :
    compareValues Library.plain.dates "" (.varchar2 "a") (.varchar2 "a ") = .ok (some .eq) ∧
      keyString [.varchar2 "a"] ≠ keyString [.varchar2 "a "] := by
  have comparable : (Value.varchar2 "a").Comparable (.varchar2 "a ") := trivial
  have apart : (Value.varchar2 "a").BlanksApart (.varchar2 "a ") :=
    ⟨"a", "a ", rfl, rfl, by decide, by decide +kernel⟩
  refine ⟨(compareValues_eq_iff comparable).mpr (Or.inr apart), ?_⟩
  rw [Ne, keyString_single_eq_iff]
  exact apart.not_same

end MockOracle
