import MockOracle.Eval.EqualityKeys
import MockOracle.Eval.Literal
import MockOracle.Eval.Select
import MockOracle.Semantics.Sorting

/-!
# ORDER BY, OFFSET and FETCH

As long as each ORDER BY key has values of one kind, besides NULLs, comparing the keys of two rows
never fails and is a total preorder, whatever the directions and the places of the NULLs are. So
the rows are sorted by it. OFFSET and FETCH cut a slice out of the sorted rows, and the pages of a
query are its rows.
-/

namespace MockOracle

open Semantics

/-- The kinds of values that can be ordered among themselves. -/
inductive Kind where
  | number
  | text
  | instant
  deriving DecidableEq, Repr

/-- The value is of the kind, or NULL. -/
def Value.HasKind : Kind → Value → Prop
  | _, .null => True
  | .number, .number _ => True
  | .text, .varchar2 _ => True
  | .instant, .date _ | .instant, .timestamp _ => True
  | _, _ => False

/-- Numbers compare as the rational numbers they stand for. -/
theorem BigDecimal.cmp_eq_compare (a b : BigDecimal) : a.cmp b = compare a.toRat b.toRat := by
  have left := toRat_eq_coefficientAt a (le_max_left a.scale b.scale)
  have right := toRat_eq_coefficientAt b (le_max_right a.scale b.scale)
  have less : ∀ {x y : Int}, x < y →
      (x : ℚ) * 10 ^ (-max a.scale b.scale) < y * 10 ^ (-max a.scale b.scale) :=
    fun less => mul_lt_mul_of_pos_right (Int.cast_lt.mpr less) (ten_zpow_pos _)
  unfold cmp
  rcases lt_trichotomy (a.coefficientAt (max a.scale b.scale)) (b.coefficientAt (max a.scale b.scale))
    with below | same | above
  · rw [compare_lt_iff_lt.mpr below, compare_lt_iff_lt.mpr]
    rw [left, right]
    exact less below
  · rw [compare_eq_iff_eq.mpr same, compare_eq_iff_eq.mpr]
    rw [left, right, same]
  · rw [compare_gt_iff_gt.mpr above, compare_gt_iff_gt.mpr]
    rw [left, right]
    exact less above

/-- Texts compare as the lists of their bytes. -/
theorem preorders_compareBytes : Preorders (fun _ : String => True) compareBytes := by
  refine .of_image (fun text : String => text.toUTF8.toList.map UInt8.toNat) ?_
  intro a b _ _
  rw [LinearOrder.compare_eq_compareOfLessAndEq, compareBytes]
  congr

theorem preorders_compareInstants : Preorders (fun _ : NaiveDateTime => True) compareInstants := by
  have seconds : Preorders (fun _ : Int => True) compare := .of_image id fun _ _ => rfl
  have nanos : Preorders (fun _ : Nat => True) compare := .of_image id fun _ _ => rfl
  exact ((seconds.pair nanos).comap fun d : NaiveDateTime => (d.timestamp, d.nanos)).mono
    fun _ _ => ⟨trivial, trivial⟩

/-! ## The comparison -/

section Compare

variable (dates : DateFormats) (format : String)

variable {dates format} {a b : Value}

/-- A value of a kind that is not NULL. -/
theorem Value.HasKind.cases {kind : Kind} {v : Value} (has : v.HasKind kind) (some_ : v.isNull = false) :
    (kind = .number ∧ ∃ n, v = .number n) ∨ (kind = .text ∧ ∃ s, v = .varchar2 s) ∨
      kind = .instant ∧ ∃ d, v = .date d ∨ v = .timestamp d := by
  cases v with
  | null => cases some_
  | number n => cases kind <;> simp_all [Value.HasKind]
  | varchar2 s => cases kind <;> simp_all [Value.HasKind]
  | date d => cases kind <;> simp_all [Value.HasKind]
  | timestamp d => cases kind <;> simp_all [Value.HasKind]
  | boolean b => cases kind <;> simp_all [Value.HasKind]

/-- The instant of a date/time. -/
def Value.instant : Value → NaiveDateTime
  | .date d | .timestamp d => d
  | _ => ⟨0, 0⟩

/-- The number that a value is. -/
def Value.toRat : Value → ℚ
  | .number n => n.toRat
  | _ => 0

/-- The text of a string, without the blanks at its end. -/
def Value.trimmed : Value → String
  | .varchar2 s => trimEnd s
  | _ => ""

/-- The comparison that goes with a kind. -/
def Kind.order : Kind → Value → Value → Ordering
  | .number, .number x, .number y => x.cmp y
  | .text, .varchar2 x, .varchar2 y => compareBytes (trimEnd x) (trimEnd y)
  | .instant, a, b => compareInstants a.instant b.instant
  | _, _, _ => .eq

theorem compareValues_of_kind {kind : Kind} (left : a.HasKind kind) (right : b.HasKind kind)
    (some_ : a.isNull = false) (some_' : b.isNull = false) :
    compareValues dates format a b = .ok (some (kind.order a b)) := by
  rcases left.cases some_ with ⟨rfl, x, rfl⟩ | ⟨rfl, x, rfl⟩ | ⟨rfl, x, rfl | rfl⟩ <;>
    rcases right.cases some_' with ⟨same, y, rfl⟩ | ⟨same, y, rfl⟩ | ⟨same, y, rfl | rfl⟩ <;>
      cases same <;> rfl

/-- Values of one kind that are not NULL are totally preordered. -/
theorem preorders_order (kind : Kind) :
    Preorders (fun v : Value => v.HasKind kind ∧ v.isNull = false) kind.order := by
  cases kind with
  | number =>
      refine .of_image Value.toRat ?_
      rintro a b ⟨left, some_⟩ ⟨right, some_'⟩
      obtain ⟨-, x, rfl⟩ | ⟨kind, -⟩ | ⟨kind, -⟩ := left.cases some_
      · obtain ⟨-, y, rfl⟩ | ⟨kind, -⟩ | ⟨kind, -⟩ := right.cases some_'
        · exact x.cmp_eq_compare y
        · cases kind
        · cases kind
      · cases kind
      · cases kind
  | text =>
      refine ((preorders_compareBytes.comap Value.trimmed).mono fun _ _ => trivial).congr ?_
      rintro a b ⟨left, some_⟩ ⟨right, some_'⟩
      obtain ⟨kind, -⟩ | ⟨-, x, rfl⟩ | ⟨kind, -⟩ := left.cases some_
      · cases kind
      · obtain ⟨kind, -⟩ | ⟨-, y, rfl⟩ | ⟨kind, -⟩ := right.cases some_'
        · cases kind
        · rfl
        · cases kind
      · cases kind
  | instant => exact (preorders_compareInstants.comap Value.instant).mono fun _ _ => trivial

variable (dates format)

/-- One ORDER BY item: NULLs stand together on one side, the other values are ordered by their
kind. -/
theorem compareKey_of_kind (item : OrderItem) (kind : Kind) :
    ∃ cmp, Preorders (Value.HasKind kind) cmp ∧ ∀ a b : Value, a.HasKind kind → b.HasKind kind →
      compareKey dates format item a b = .ok (cmp a b) := by
  obtain ⟨e, desc, nullsFirst⟩ := item
  have directed : Preorders (fun v : Value => v.HasKind kind ∧ v.isNull = false)
      fun a b => if desc then (kind.order a b).swap else kind.order a b := by
    cases desc
    · exact preorders_order kind
    · exact (preorders_order kind).reverse
  refine ⟨_, directed.apart (nullsFirst.getD desc), fun a b left right => ?_⟩
  unfold compareKey
  simp only
  cases null : a.isNull <;> cases null' : b.isNull
  · rw [compareValues_of_kind left right null null']
    rfl
  all_goals rfl

/-- The comparison of two rows by their keys. -/
def keyOrder (orderBy : List OrderItem) (a b : Row) : Ordering :=
  (compareKeys dates format orderBy a b).toOption.getD .eq

theorem compareKeys_nil (a b : Row) : compareKeys dates format [] a b = .ok .eq := by
  simp [compareKeys]

/-- Rows whose keys are of the kinds of the columns are totally preordered, and comparing them does
not fail. -/
theorem compareKeys_of_kinds (orderBy : List OrderItem) (kinds : List Kind) :
    Preorders (List.Forall₂ Value.HasKind kinds) (keyOrder dates format orderBy) ∧
      ∀ a b : Row, List.Forall₂ Value.HasKind kinds a → List.Forall₂ Value.HasKind kinds b →
        compareKeys dates format orderBy a b = .ok (keyOrder dates format orderBy a b) := by
  have equal : ∀ {S : Row → Prop} {cmp : Row → Row → Ordering}, (∀ a b, S a → S b → cmp a b = .eq) →
      Preorders S cmp := fun same => .of_image (fun _ => ()) fun left right => same _ _ left right
  induction orderBy generalizing kinds with
  | nil =>
      refine ⟨equal fun a b _ _ => ?_, fun a b _ _ => ?_⟩
      · rw [keyOrder, compareKeys_nil]
        rfl
      · rw [keyOrder, compareKeys_nil]
        rfl
  | cons item orderBy ih =>
      cases kinds with
      | nil =>
          have none : ∀ a b : Row, List.Forall₂ Value.HasKind [] a → List.Forall₂ Value.HasKind [] b →
              compareKeys dates format (item :: orderBy) a b = .ok .eq := by
            rintro _ _ ⟨⟩ ⟨⟩
            rfl
          refine ⟨equal fun a b left right => ?_, fun a b left right => ?_⟩
          · rw [keyOrder, none a b left right]
            rfl
          · rw [keyOrder, none a b left right]
            rfl
      | cons kind kinds =>
          obtain ⟨cmp, order, compared⟩ := compareKey_of_kind dates format item kind
          obtain ⟨ties, comparedTies⟩ := ih kinds
          have steps : ∀ a b : Row, List.Forall₂ Value.HasKind (kind :: kinds) a →
              List.Forall₂ Value.HasKind (kind :: kinds) b →
              compareKeys dates format (item :: orderBy) a b = .ok ((cmp (a.headD .null) (b.headD .null)).then
                (keyOrder dates format orderBy a.tail b.tail)) := by
            rintro _ _ (_ | ⟨first, rest⟩) (_ | ⟨first', rest'⟩)
            simp only [compareKeys, compared _ _ first first', List.headD_cons, List.tail_cons]
            rw [comparedTies _ _ rest rest']
            generalize cmp _ _ = first
            cases first <;> rfl
          refine ⟨?_, fun a b left right => ?_⟩
          · refine (((order.pair ties).comap fun row : Row => (row.headD .null, row.tail)).mono ?_).congr
              fun left right => ?_
            · rintro _ (_ | ⟨first, rest⟩)
              exact ⟨first, rest⟩
            · rw [keyOrder, steps _ _ left right]
              rfl
          · rw [keyOrder, steps a b left right]
            rfl

/-- A loop whose body does not fail. -/
theorem forIn_ok {α : Type} {body : α → PUnit → Except OraError (ForInStep PUnit)} {l : List α}
    (each : ∀ a ∈ l, body a ⟨⟩ = .ok (.yield ⟨⟩)) : forIn l PUnit.unit body = .ok ⟨⟩ := by
  induction l with
  | nil => rfl
  | cons a l ih =>
      rw [List.forIn_cons, each a List.mem_cons_self]
      exact ih fun b member => each b (List.mem_cons_of_mem _ member)

/-- Rows whose keys are of the kinds of the columns are sorted by their keys. -/
theorem sortRows_of_kinds (orderBy : List OrderItem) {kinds : List Kind} {rows : KeyedRows}
    (typed : ∀ row ∈ rows, List.Forall₂ Value.HasKind kinds row.2) :
    sortRows dates format orderBy rows =
      .ok (rows.mergeSort fun a b => keyOrder dates format orderBy a.2 b.2 != .gt) := by
  obtain ⟨-, compared⟩ := compareKeys_of_kinds dates format orderBy kinds
  unfold sortRows
  rw [forIn_ok]
  · rfl
  · intro a left
    rw [forIn_ok]
    · rfl
    · intro b right
      rw [compared a.2 b.2 (typed a left) (typed b right)]
      rfl

/-- The rows in the order of their keys: all of them, and those with equal keys as they were. -/
structure Sorts (orderBy : List OrderItem) (rows sorted : KeyedRows) : Prop where
  perm : sorted.Perm rows
  ordered : sorted.Pairwise fun a b => keyOrder dates format orderBy a.2 b.2 ≠ .gt
  stable : ∀ row ∈ rows, sorted.filter (fun a => keyOrder dates format orderBy a.2 row.2 == .eq) =
    rows.filter fun a => keyOrder dates format orderBy a.2 row.2 == .eq

theorem sorts_of_kinds (orderBy : List OrderItem) {kinds : List Kind} {rows : KeyedRows}
    (typed : ∀ row ∈ rows, List.Forall₂ Value.HasKind kinds row.2) :
    ∃ sorted, sortRows dates format orderBy rows = .ok sorted ∧
      Sorts dates format orderBy rows sorted := by
  obtain ⟨order, -⟩ := compareKeys_of_kinds dates format orderBy kinds
  obtain ⟨perm, ordered, stable⟩ := (order.comap fun row : Row × Row => row.2).mergeSort_spec typed
  exact ⟨_, sortRows_of_kinds dates format orderBy typed, perm, ordered,
    fun row member => stable row (typed row member)⟩

end Compare

/-! ## Queries -/

/-- The rows from `offset` on, at most `fetch` of them. -/
def slice (rows : List Row) (offset fetch : Option Nat) : List Row :=
  (fetch.elim rows fun count => rows.take (offset.getD 0 + count)).drop (offset.getD 0)

/-- A count of rows, as a statement spells it. -/
def countOf (n : Nat) : Option Expr := some (.literal (.number ⟨n, 0⟩))

section Query

variable (eng : Engine) (ex : Ex) (parent : Option Scope)

theorem limit_countOf (depth n : Nat) (st : EvalState) :
    limit (eng.levels (depth + 1)) ex parent (countOf n) st = .ok (some n) st := by
  have whole : ((BigDecimal.mk n 0).withScale 0).intVal.toNat = n := by
    simp [BigDecimal.withScale]
  show EStateM.Result.ok (some ((BigDecimal.mk n 0).withScale 0).intVal.toNat) st = _
  rw [whole]

/-- ORDER BY without a failing comparison. -/
theorem orderRows_of_kinds {orderBy : List OrderItem} {kinds : List Kind} {rows : KeyedRows}
    (typed : ∀ row ∈ rows, List.Forall₂ Value.HasKind kinds row.2) (st : EvalState) :
    ∃ sorted, orderRows eng orderBy rows st = .ok sorted st ∧
      Sorts eng.lib.dates st.env.nlsDateFormat orderBy rows sorted := by
  cases orderBy with
  | nil =>
      refine ⟨rows, rfl, .refl _, List.pairwise_of_forall fun a b => ?_, fun _ _ => rfl⟩
      rw [keyOrder, compareKeys_nil]
      decide
  | cons item orderBy =>
      obtain ⟨sorted, success, sorts⟩ :=
        sorts_of_kinds eng.lib.dates st.env.nlsDateFormat (item :: orderBy) typed
      refine ⟨sorted, ?_, sorts⟩
      show EvalM.lift (sortRows _ _ _ _) st = _
      rw [success]
      rfl

/-- A query is a slice of its sorted rows. -/
theorem queryStep_slice {self : Recur} {body : SetExpr} {orderBy : List OrderItem}
    {offset fetch : Option Expr} {cols : List RelCol} {keyed sorted : KeyedRows} {o f : Option Nat}
    {st st₁ st₂ st₃ : EvalState}
    (evaluated : queryBody eng self ex parent orderBy body st = .ok (cols, keyed) st₁)
    (ordered : orderRows eng orderBy keyed st₁ = .ok sorted st₁)
    (skips : limit self ex parent offset st₁ = .ok o st₂)
    (takes : limit self ex parent fetch st₂ = .ok f st₃) :
    queryStep eng self ex parent (.mk body orderBy offset fetch) st =
      .ok ⟨cols, slice (sorted.map Prod.fst) o f⟩ st₃ := by
  simp only [queryStep, bind, EStateM.bind, evaluated, ordered, skips, takes, pure, EStateM.pure]
  cases f with
  | none => rfl
  | some count => simp [slice, List.take_drop]

/-- ORDER BY and paging. -/
theorem order_by_and_paging (depth : Nat) (orderBy : List OrderItem) (kinds : List Kind) :
    (∀ dates format,
      Preorders (List.Forall₂ Value.HasKind kinds) (keyOrder dates format orderBy) ∧
        (∀ a b : Row, List.Forall₂ Value.HasKind kinds a → List.Forall₂ Value.HasKind kinds b →
          compareKeys dates format orderBy a b = .ok (keyOrder dates format orderBy a b)) ∧
        ∀ rows : KeyedRows, (∀ row ∈ rows, List.Forall₂ Value.HasKind kinds row.2) →
          ∃ sorted, sortRows dates format orderBy rows = .ok sorted ∧
            Sorts dates format orderBy rows sorted) ∧
      ∀ body cols keyed st st₁,
        queryBody eng (eng.levels (depth + 1)) ex parent orderBy body st = .ok (cols, keyed) st₁ →
        (∀ row ∈ keyed, List.Forall₂ Value.HasKind kinds row.2) →
        ∃ sorted, Sorts eng.lib.dates st₁.env.nlsDateFormat orderBy keyed sorted ∧
          (∀ offset fetch o f st₂ st₃,
            limit (eng.levels (depth + 1)) ex parent offset st₁ = .ok o st₂ →
            limit (eng.levels (depth + 1)) ex parent fetch st₂ = .ok f st₃ →
            queryStep eng (eng.levels (depth + 1)) ex parent (.mk body orderBy offset fetch) st =
              .ok ⟨cols, slice (sorted.map Prod.fst) o f⟩ st₃) ∧
          ∀ size, 1 ≤ size → ∃ page : Nat → List Row,
            (∀ i, queryStep eng (eng.levels (depth + 1)) ex parent
              (.mk body orderBy (countOf (i * size)) (countOf size)) st = .ok ⟨cols, page i⟩ st₁) ∧
            ∀ count, sorted.length ≤ count * size →
              (List.range count).flatMap page = sorted.map Prod.fst := by
  refine ⟨fun dates format => ?_, fun body cols keyed st st₁ evaluated typed => ?_⟩
  · obtain ⟨order, compared⟩ := compareKeys_of_kinds dates format orderBy kinds
    exact ⟨order, compared, fun rows typed => sorts_of_kinds dates format orderBy typed⟩
  · obtain ⟨sorted, ordered, sorts⟩ := orderRows_of_kinds eng typed st₁
    refine ⟨sorted, sorts, fun offset fetch o f st₂ st₃ => ?_, fun size _ => ?_⟩
    · exact queryStep_slice eng ex parent evaluated ordered
    · refine ⟨fun i => slice (sorted.map Prod.fst) (some (i * size)) (some size), fun i => ?_,
        fun count enough => ?_⟩
      · exact queryStep_slice eng ex parent evaluated ordered
          (limit_countOf eng ex parent depth _ st₁) (limit_countOf eng ex parent depth _ st₁)
      · have pages := flatMap_pages (sorted.map Prod.fst) size count
        rw [List.take_of_length_le (by simpa using enough)] at pages
        simpa [slice, List.take_drop] using pages

end Query

namespace OrderedRows

def ex : Ex := ⟨.empty, [], .empty, none⟩

def start : EvalState := ⟨∅, ∅, Literal.env "HR"⟩

/-- `SELECT n, s FROM dual`. -/
def selectDual (n s : Value) : SetExpr :=
  .select (.mk false [.expr (.literal n) "N", .expr (.literal s) "S"] [.mk (.table "DUAL" none) []]
    none [] none)

/-- Four rows, the third without a text and the second without a number. -/
def body : SetExpr :=
  .setOp .unionAll (.setOp .unionAll (.setOp .unionAll
    (selectDual (.ofInt 1) (.varchar2 "b")) (selectDual .null (.varchar2 "a")))
      (selectDual (.ofInt 1) .null)) (selectDual (.ofInt 2) (.varchar2 "c"))

/-- `ORDER BY 1 DESC NULLS LAST, 2 NULLS FIRST`. -/
def orderBy : List OrderItem :=
  [.mk (.literal (.ofInt 1)) true (some false), .mk (.literal (.ofInt 2)) false (some true)]

/-- Each row is its own key. -/
def keyed (rows : List (Value × Value)) : KeyedRows := rows.map fun r => ([r.1, r.2], [r.1, r.2])

/-- The rows of the body, in the order of the SELECTs. -/
def rows : KeyedRows :=
  keyed [(.ofInt 1, .varchar2 "b"), (.null, .varchar2 "a"), (.ofInt 1, .null),
    (.ofInt 2, .varchar2 "c")]

/-- The rows in the order of their keys. -/
def ordered : KeyedRows :=
  keyed [(.ofInt 2, .varchar2 "c"), (.ofInt 1, .null), (.ofInt 1, .varchar2 "b"),
    (.null, .varchar2 "a")]

/-- The rows and keys of a body, and the date format they are compared with. -/
def keysOf (result : EStateM.Result OraError EvalState (List RelCol × KeyedRows)) :
    Option (KeyedRows × String) :=
  match result with
  | .ok rel st => some (rel.2, st.env.nlsDateFormat)
  | .error _ _ => none

theorem of_keysOf {result : EStateM.Result OraError EvalState (List RelCol × KeyedRows)}
    {rows : KeyedRows} {format : String} (computed : keysOf result = some (rows, format)) :
    ∃ cols st, result = .ok (cols, rows) st ∧ st.env.nlsDateFormat = format := by
  cases result with
  | ok rel st =>
      cases computed
      exact ⟨rel.1, st, rfl, rfl⟩
  | error e st => cases computed

/-- The rows have no other order. -/
theorem eq_ordered {sorted : KeyedRows}
    (sorts : Sorts Engine.plain.lib.dates "DD-MON-RR" orderBy rows sorted) : sorted = ordered := by
  have least : ordered.Pairwise fun a b =>
      keyOrder Engine.plain.lib.dates "DD-MON-RR" orderBy a.2 b.2 ≠ .gt := by decide +kernel
  have strict : ∀ a ∈ rows, ∀ b ∈ rows, keyOrder Engine.plain.lib.dates "DD-MON-RR" orderBy a.2 b.2 ≠ .gt →
      keyOrder Engine.plain.lib.dates "DD-MON-RR" orderBy b.2 a.2 ≠ .gt → a = b := by decide +kernel
  have perm : ordered.Perm rows := by decide +kernel
  refine List.Perm.eq_of_pairwise (fun a b left right => ?_) sorts.ordered least
    (sorts.perm.trans perm.symm)
  exact strict a (sorts.perm.mem_iff.mp left) b (perm.mem_iff.mp right)

end OrderedRows

open OrderedRows in
/-- `ORDER BY 1 DESC NULLS LAST, 2 NULLS FIRST` of four rows, and their pages of three rows. -/
theorem order_by_and_paging_pages :
    ∃ cols st page,
      queryStep Engine.plain (Engine.plain.levels 8) ex none (.mk body orderBy none none) start =
        .ok ⟨cols, ordered.map Prod.fst⟩ st ∧
      (∀ i, queryStep Engine.plain (Engine.plain.levels 8) ex none
        (.mk body orderBy (countOf (i * 3)) (countOf 3)) start = .ok ⟨cols, page i⟩ st) ∧
      (List.range 2).flatMap page = ordered.map Prod.fst := by
  have computed : keysOf (queryBody Engine.plain (Engine.plain.levels 8) ex none orderBy body start) =
      some (rows, "DD-MON-RR") := by decide +kernel
  obtain ⟨cols, st, evaluated, format⟩ := of_keysOf computed
  have typed : ∀ row ∈ rows, List.Forall₂ Value.HasKind [.number, .text] row.2 := by
    simp only [rows, keyed, List.map_cons, List.map_nil, List.forall_mem_cons]
    simp [Value.HasKind, Value.ofInt]
  obtain ⟨sorted, sorts, sliced, paged⟩ := (order_by_and_paging Engine.plain ex none 7 orderBy
    [.number, .text]).2 body cols rows start st evaluated typed
  rw [format] at sorts
  cases eq_ordered sorts
  obtain ⟨page, each, pages⟩ := paged 3 (by decide)
  exact ⟨cols, st, page, sliced none none none none st st rfl rfl, each, pages 2 (by decide)⟩

end MockOracle
