import MockOracle.Eval.Bounds
import MockOracle.Eval.EqualityKeys
import MockOracle.Eval.Literal

/-!
# Set operations

UNION, INTERSECT and MINUS compare rows by their keys and then convert them to the common
column types. Before the conversion they obey the laws of sets. A conversion from DATE to
TIMESTAMP keeps the key of a row. The conversion of a text does not: a column of type
VARCHAR2(0) takes the type of the other side, as one that holds NULLs only may, and where it
holds a text all the same, the laws fail.
-/

namespace MockOracle

/-! ## Distinct rows -/

section Distinct

variable {α : Type} (key : α → String)

/-- Distinct rows have distinct keys, and the keys of all rows. -/
theorem distinctBy_keys (rows : List α) :
    ((distinctBy key rows).map key).Nodup ∧
      ∀ k, k ∈ (distinctBy key rows).map key ↔ k ∈ rows.map key := by
  -- The keys seen so far are those of the rows kept so far.
  have run : ∀ (rows : List α) (acc : List α × List String), (acc.1.map key).Nodup →
      (∀ k, k ∈ acc.2 ↔ k ∈ acc.1.map key) →
      let kept := (rows.foldl (fun (acc : List α × List String) row =>
        if acc.2.contains (key row) then acc else (acc.1 ++ [row], key row :: acc.2)) acc).1
      (kept.map key).Nodup ∧ ∀ k, k ∈ kept.map key ↔ k ∈ acc.1.map key ∨ k ∈ rows.map key := by
    intro rows
    induction rows with
    | nil =>
        intro acc nodup seen
        exact ⟨nodup, fun k => by simp⟩
    | cons row rest ih =>
        intro acc nodup seen
        rw [List.foldl_cons]
        by_cases old : acc.2.contains (key row) = true
        · rw [if_pos old]
          obtain ⟨distinct, keys⟩ := ih acc nodup seen
          refine ⟨distinct, fun k => (keys k).trans ?_⟩
          have known := (seen (key row)).mp (List.contains_iff_mem.mp old)
          rw [List.map_cons, List.mem_cons]
          constructor
          · rintro (before | later)
            · exact Or.inl before
            · exact Or.inr (Or.inr later)
          · rintro (before | rfl | later)
            · exact Or.inl before
            · exact Or.inl known
            · exact Or.inr later
        · rw [if_neg old]
          have new : key row ∉ acc.1.map key := fun known =>
            old (List.contains_iff_mem.mpr ((seen (key row)).mpr known))
          obtain ⟨distinct, keys⟩ := ih (acc.1 ++ [row], key row :: acc.2)
            (by
              rw [List.map_append, List.map_singleton, List.nodup_append]
              exact ⟨nodup, List.nodup_singleton _, fun a before b here => by
                rw [List.mem_singleton.mp here]
                rintro rfl
                exact new before⟩)
            (fun k => by
              rw [List.mem_cons, seen, List.map_append, List.mem_append, List.map_singleton,
                List.mem_singleton, or_comm])
          refine ⟨distinct, fun k => (keys k).trans ?_⟩
          rw [List.map_append, List.mem_append, List.map_singleton, List.mem_singleton,
            List.map_cons, List.mem_cons, or_assoc]
  obtain ⟨distinct, keys⟩ := run rows ([], []) (by simp) (by simp)
  exact ⟨distinct, fun k => (keys k).trans (by simp)⟩

/-- There are as many distinct rows as keys. -/
theorem length_distinctBy (rows : List α) :
    (distinctBy key rows).length = (rows.map key).toFinset.card := by
  obtain ⟨distinct, keys⟩ := distinctBy_keys key rows
  rw [← List.length_map key, ← List.toFinset_card_of_nodup distinct]
  congr 1
  ext k
  rw [List.mem_toFinset, List.mem_toFinset, keys]

end Distinct

/-! ## The rows before conversion -/

/-- The keys of rows. -/
def keys (rows : List Row) : List String := rows.map keyString

section Rows

variable (left right : List Row)

/-- The key of a row is in a set operation as the key is in the operands. -/
def SetOp.Takes (op : SetOp) (inLeft inRight : Prop) : Prop :=
  match op with
  | .unionAll | .union => inLeft ∨ inRight
  | .intersect => inLeft ∧ inRight
  | .minus => inLeft ∧ ¬ inRight

/-- Rows kept by their keys. -/
theorem keys_filter (p : String → Bool) :
    keys (left.filter fun row => p (keyString row)) = (keys left).filter p := by
  rw [keys, keys, List.filter_map]
  rfl

/-- The keys of a set operation are those that it takes from its operands. -/
theorem mem_keys_unionRows (op : SetOp) (k : String) :
    k ∈ keys (unionRows op left right) ↔ op.Takes (k ∈ keys left) (k ∈ keys right) := by
  have among : ∀ k, (right.map keyString).contains k = true ↔ k ∈ keys right :=
    fun k => List.contains_iff_mem
  cases op with
  | unionAll => simp [unionRows, keys, SetOp.Takes]
  | union =>
      rw [keys, unionRows, (distinctBy_keys keyString _).2]
      simp [keys, SetOp.Takes]
  | intersect =>
      rw [keys, unionRows, (distinctBy_keys keyString _).2]
      have kept := keys_filter left fun k => (right.map keyString).contains k
      rw [keys] at kept
      rw [kept, List.mem_filter, among]
      rfl
  | minus =>
      rw [keys, unionRows, (distinctBy_keys keyString _).2]
      have kept := keys_filter left fun k => !(right.map keyString).contains k
      rw [keys] at kept
      rw [kept, List.mem_filter, Bool.not_eq_true', ← Bool.not_eq_true, among]
      rfl

/-- The rows of a set operation other than UNION ALL are distinct. -/
theorem nodup_keys_unionRows {op : SetOp} (sets : op ≠ .unionAll) :
    (keys (unionRows op left right)).Nodup := by
  cases op with
  | unionAll => exact absurd rfl sets
  | union | intersect | minus => exact (distinctBy_keys keyString _).1

/-- The number of rows of a set operation is that of its keys. -/
theorem length_unionRows {op : SetOp} (sets : op ≠ .unionAll) :
    (unionRows op left right).length = (keys (unionRows op left right)).toFinset.card := by
  rw [List.toFinset_card_of_nodup (nodup_keys_unionRows left right sets), keys, List.length_map]

/-- The keys of UNION are the union of the keys. -/
theorem toFinset_keys_union :
    (keys (unionRows .union left right)).toFinset = (keys left).toFinset ∪ (keys right).toFinset := by
  ext k
  rw [List.mem_toFinset, mem_keys_unionRows, Finset.mem_union, List.mem_toFinset, List.mem_toFinset]
  rfl

/-- The keys of INTERSECT are those in common. -/
theorem toFinset_keys_intersect :
    (keys (unionRows .intersect left right)).toFinset =
      (keys left).toFinset ∩ (keys right).toFinset := by
  ext k
  rw [List.mem_toFinset, mem_keys_unionRows, Finset.mem_inter, List.mem_toFinset, List.mem_toFinset]
  rfl

/-- The keys of MINUS are the difference of the keys. -/
theorem toFinset_keys_minus :
    (keys (unionRows .minus left right)).toFinset = (keys left).toFinset \ (keys right).toFinset := by
  ext k
  rw [List.mem_toFinset, mem_keys_unionRows, Finset.mem_sdiff, List.mem_toFinset, List.mem_toFinset]
  rfl

/-- The distinct rows of the left side are in INTERSECT or in MINUS. -/
theorem length_distinct_eq :
    (distinctBy keyString left).length =
      (unionRows .intersect left right).length + (unionRows .minus left right).length := by
  rw [length_distinctBy, length_unionRows left right (by decide),
    length_unionRows left right (by decide), toFinset_keys_intersect, toFinset_keys_minus,
    Finset.card_inter_add_card_sdiff]
  rfl

/-- The rows of UNION are in one MINUS, the other or INTERSECT. -/
theorem length_union_eq :
    (unionRows .union left right).length = (unionRows .minus left right).length +
      (unionRows .minus right left).length + (unionRows .intersect left right).length := by
  rw [length_unionRows left right (by decide), length_unionRows left right (by decide),
    length_unionRows right left (by decide), length_unionRows left right (by decide),
    toFinset_keys_union, toFinset_keys_minus, toFinset_keys_minus, toFinset_keys_intersect]
  have parts := Finset.card_inter_add_card_sdiff (keys left).toFinset (keys right).toFinset
  have total := Finset.card_union_add_card_inter (keys left).toFinset (keys right).toFinset
  have other := Finset.card_inter_add_card_sdiff (keys right).toFinset (keys left).toFinset
  rw [Finset.inter_comm (keys right).toFinset] at other
  omega

end Rows

/-! ## Conversion to the common types -/

/-- A text in a column that is taken to hold NULLs only, opposite a column that holds no
texts. -/
def Misread (a b : SqlType) (v : Value) : Prop :=
  a = .varchar2 0 ∧ b.textLength = none ∧ v ≠ .null

/-- The common type of two columns does not depend on their order. -/
theorem unionType_comm (a b : SqlType) : unionType a b = unionType b a := by
  rcases a with _ | (_ | x) | x | _ | _ <;> rcases b with _ | (_ | y) | y | _ | _ <;>
    simp [unionType, Nat.max_comm]

section Values

variable {dates : DateFormats} {env : Env} {a b t : SqlType} {v w : Value}

/-- A value of the variant of its column's type keeps its key when it is converted to the common
type, unless it is misread. -/
theorem keyText_coerceValue (accepted : unionType a b = .ok t)
    (typed : v = .null ∨ a.hasVariant v = true) (read : ¬ Misread a b v)
    (coerced : coerceValue dates env t v = .ok w) : w.keyText = v.keyText := by
  rcases typed with rfl | variant
  · cases coerced
    rfl
  cases a with
  | number p s =>
      cases v <;> cases variant
      rcases b with _ | (_ | y) | y | _ | _ <;> cases accepted <;> cases coerced <;> rfl
  | varchar2 x =>
      cases v <;> cases variant
      cases b with
      | varchar2 y => rcases x with _ | x <;> rcases y with _ | y <;> cases accepted <;> cases coerced <;> rfl
      | char y => rcases x with _ | x <;> cases accepted <;> cases coerced <;> rfl
      | number | date | timestamp =>
          rcases x with _ | x
          · exact absurd ⟨rfl, rfl, by simp⟩ read
          · cases accepted
  | char x =>
      cases v <;> cases variant
      rcases b with _ | (_ | y) | y | _ | _ <;> cases accepted <;> cases coerced <;> rfl
  | date =>
      cases v <;> cases variant
      rcases b with _ | (_ | y) | y | _ | _ <;> cases accepted <;> cases coerced <;> rfl
  | timestamp x =>
      cases v <;> cases variant
      rcases b with _ | (_ | y) | y | _ | _ <;> cases accepted <;> cases coerced <;> rfl

/-- A misread value becomes one of another kind. -/
theorem tag_coerceValue (accepted : unionType a b = .ok t)
    (typed : v = .null ∨ a.hasVariant v = true) (misread : Misread a b v)
    (coerced : coerceValue dates env t v = .ok w) : w.tag ≠ v.tag := by
  obtain ⟨rfl, opposite, present⟩ := misread
  have variant := typed.resolve_left present
  cases v <;> cases variant
  rcases b with _ | (_ | y) | y | _ | _ <;> cases opposite <;> cases accepted
  all_goals
    simp only [coerceValue, bind, Except.bind, pure, Except.pure] at coerced
    split at coerced
    · cases coerced
    · cases coerced
      simp [Value.tag]

end Values

/-- A row whose values are NULL or of the variants of the columns' types. -/
def RowTyped (cols : List RelCol) (row : Row) : Prop :=
  List.Forall₂ (fun c v => v = .null ∨ c.sqlType.hasVariant v = true) cols row

/-- A row with a value that is misread opposite the other side's columns. -/
def RowMisread (cols other : List RelCol) (row : Row) : Prop :=
  ∃ entry ∈ (cols.zip other).zip row, Misread entry.1.1.sqlType entry.1.2.sqlType entry.2

/-- The common columns are found one by one. -/
theorem unionCols_cons {a b : RelCol} {left right types : List RelCol}
    (accepted : unionCols (a :: left) (b :: right) = .ok types) :
    ∃ t rest, unionType a.sqlType b.sqlType = .ok t ∧ unionCols left right = .ok rest ∧
      types = { a with sqlType := t } :: rest := by
  simp only [unionCols, bind, Except.bind, pure, Except.pure] at accepted
  split at accepted
  · cases accepted
  · next t type =>
      split at accepted
      · cases accepted
      · next rest others =>
          cases accepted
          exact ⟨t, rest, type, others, rfl⟩

/-- A row is coerced value by value. -/
theorem coerceRow_cons {dates : DateFormats} {env : Env} {c : RelCol} {cols : List RelCol}
    {v : Value} {row result : Row} (coerced : coerceRow dates env (c :: cols) (v :: row) = .ok result) :
    ∃ w rest, coerceValue dates env c.sqlType v = .ok w ∧ coerceRow dates env cols row = .ok rest ∧
      result = w :: rest := by
  simp only [coerceRow, bind, Except.bind, pure, Except.pure] at coerced
  split at coerced
  · cases coerced
  · next w first =>
      split at coerced
      · cases coerced
      · next rest others =>
          cases coerced
          exact ⟨w, rest, first, others, rfl⟩

/-- Conversion keeps the key of a row exactly when it misreads none of its values. -/
theorem keyString_coerceRow {dates : DateFormats} {env : Env} {cols other types : List RelCol}
    {row result : Row} (accepted : unionCols cols other = .ok types)
    (wide : cols.length = other.length) (typed : RowTyped cols row)
    (coerced : coerceRow dates env types row = .ok result) :
    keyString result = keyString row ↔ ¬ RowMisread cols other row := by
  induction typed generalizing other types result with
  | nil =>
      cases other with
      | cons b other => simp at wide
      | nil =>
          cases accepted
          cases coerced
          simp [RowMisread]
  | @cons c v cols row first rest ih =>
      cases other with
      | nil => simp at wide
      | cons b other =>
          obtain ⟨t, types, type, others, rfl⟩ := unionCols_cons accepted
          obtain ⟨w, result, converted, tail, rfl⟩ := coerceRow_cons coerced
          have split_ : RowMisread (c :: cols) (b :: other) (v :: row) ↔
              Misread c.sqlType b.sqlType v ∨ RowMisread cols other row := by
            simp [RowMisread]
          rw [split_, keyString_eq_iff, Semantics.Tokens.join_cons, Semantics.Tokens.join_cons]
          by_cases misread : Misread c.sqlType b.sqlType v
          · have tags := tag_coerceValue type first misread converted
            refine iff_of_false (fun same => tags ?_) (fun apart => apart (Or.inl misread))
            have texts : ∀ v, keyTokens.text v = v.tag :: v.untagged BigDecimal.toText :=
              fun _ => Value.toList_keyTextWith _
            rw [texts, texts] at same
            exact (List.cons.inj same).1
          · have text : keyTokens.text w = keyTokens.text v :=
              congrArg String.toList (keyText_coerceValue type first misread converted)
            have later := ih others (by simpa using wide) tail
            rw [keyString_eq_iff] at later
            rw [text, List.append_cancel_left_eq, List.cons.injEq, later]
            simp [misread]

/-- Conversion depends on the types of the columns only. -/
theorem coerceRow_congr {dates : DateFormats} {env : Env} {cols cols' : List RelCol}
    (types : cols.map RelCol.sqlType = cols'.map RelCol.sqlType) (row : Row) :
    coerceRow dates env cols row = coerceRow dates env cols' row := by
  induction cols generalizing cols' row with
  | nil =>
      cases cols' with
      | nil => rfl
      | cons c' cols' => simp at types
  | cons c cols ih =>
      cases cols' with
      | nil => simp at types
      | cons c' cols' =>
          rw [List.map_cons, List.map_cons, List.cons.injEq] at types
          cases row with
          | nil => rfl
          | cons v row => rw [coerceRow, coerceRow, types.1, ih types.2]

/-- The common types do not depend on the order of the sides. -/
theorem unionCols_swap {left right types : List RelCol} (accepted : unionCols left right = .ok types)
    (wide : left.length = right.length) :
    ∃ types', unionCols right left = .ok types' ∧
      types'.map RelCol.sqlType = types.map RelCol.sqlType := by
  induction left generalizing right types with
  | nil =>
      cases right with
      | cons b right => simp at wide
      | nil => exact ⟨types, accepted, rfl⟩
  | cons a left ih =>
      cases right with
      | nil => simp at wide
      | cons b right =>
          obtain ⟨t, rest, type, others, rfl⟩ := unionCols_cons accepted
          obtain ⟨rest', swapped, same⟩ := ih others (by simpa using wide)
          rw [unionType_comm] at type
          refine ⟨{ b with sqlType := t } :: rest', ?_, by simp [same]⟩
          simp only [unionCols, type, swapped, bind, Except.bind, pure, Except.pure]

/-! ## The laws -/

/-- A set operation on two relations. -/
def setOperation (eng : Engine) (op : SetOp) (l r : Relation) : EvalM Relation := do
  if l.cols.length ≠ r.cols.length then
    throw ⟨1789, "query block has incorrect number of result columns"⟩
  let cols ← EvalM.lift (unionCols l.cols r.cols)
  let rows ← forEach (fun row => do
    EvalM.lift (coerceRow eng.lib.dates (← get).env cols row)) (unionRows op l.rows r.rows)
  return ⟨cols, rows⟩

/-- A relation whose values have the variants of their column types. -/
def Relation.Typed (rel : Relation) : Prop := ∀ row ∈ rel.rows, RowTyped rel.cols row

/-- Some row of a side has a text in a VARCHAR2(0) column opposite a column that is not a text
column. -/
def Relation.Misread (rel other : Relation) : Prop :=
  ∃ row ∈ rel.rows, RowMisread rel.cols other.cols row

/-- The laws of sets, for the results of the operations on `left` and `right` and of MINUS the
other way round. Rows are told apart by their keys. -/
structure SetLaws (left right : List Row) (results : SetOp → List Row) (back : List Row) : Prop where
  distinct : ∀ op, op ≠ .unionAll → (keys (results op)).Nodup
  member : ∀ op k, k ∈ keys (results op) ↔ op.Takes (k ∈ keys left) (k ∈ keys right)
  parts : (distinctBy keyString left).length = (results .intersect).length + (results .minus).length
  total : (results .union).length =
    (results .minus).length + back.length + (results .intersect).length
  concat : keys (results .unionAll) = keys left ++ keys right

section Laws

variable {eng : Engine} {l r : Relation} {cols : List RelCol} {st : EvalState}

/-- A loop whose results are known gives them and changes no state. -/
theorem forEach_same {α β : Type} {f : α → EvalM β} {g : α → β} {as : List α}
    (known : ∀ a ∈ as, f a st = .ok (g a) st) : forEach f as st = .ok (as.map g) st := by
  induction as with
  | nil => rfl
  | cons a rest ih =>
      have later := ih fun b member => known b (List.mem_cons_of_mem _ member)
      simp only [forEach, bind, EStateM.bind, known a List.mem_cons_self, later, List.map_cons]
      rfl

/-- The rows of an operation are converted one by one. -/
theorem setOperation_ok {op : SetOp} {convert : Row → Row} (wide : l.cols.length = r.cols.length)
    (accepted : unionCols l.cols r.cols = .ok cols)
    (coerces : ∀ row ∈ unionRows op l.rows r.rows,
      coerceRow eng.lib.dates st.env cols row = .ok (convert row)) :
    setOperation eng op l r st = .ok ⟨cols, (unionRows op l.rows r.rows).map convert⟩ st := by
  have rows : forEach (fun row => do
      EvalM.lift (coerceRow eng.lib.dates (← get).env cols row)) (unionRows op l.rows r.rows) st =
        .ok ((unionRows op l.rows r.rows).map convert) st := by
    apply forEach_same
    intro row member
    simp only [bind, EStateM.bind, get, getThe, MonadStateOf.get, EStateM.get, coerces row member,
      EvalM.lift]
  have steps : setOperation eng op l r st = EStateM.bind (forEach (fun row => do
      EvalM.lift (coerceRow eng.lib.dates (← get).env cols row)) (unionRows op l.rows r.rows))
        (fun rows => pure ⟨cols, rows⟩) st := by
    unfold setOperation
    rw [if_neg (not_not.mpr wide), accepted]
    rfl
  rw [steps, EStateM.bind, rows]
  rfl

/-- A conversion that keeps the keys of a concatenation keeps that of each row. -/
theorem keys_map_of_append {convert : Row → Row} {left right : List Row}
    (same : keys ((unionRows .unionAll left right).map convert) = keys left ++ keys right) (row : Row)
    (member : row ∈ left ∨ row ∈ right) : keyString (convert row) = keyString row := by
  have together : ((left ++ right).map convert).map keyString = (left ++ right).map keyString := by
    rw [List.map_append (f := keyString)]
    exact same
  rw [List.map_map] at together
  exact List.map_inj_left.mp together row (List.mem_append.mpr member)

/-- For two relations of equal width whose values have the variants of their column types, whose
types have a common type and whose rows can be converted to it: all set operations succeed, and
their results obey the laws of sets if and only if neither side has a text in a VARCHAR2(0)
column opposite a column that is not a text column. -/
theorem set_laws_iff (wide : l.cols.length = r.cols.length) (left : l.Typed) (right : r.Typed)
    (accepted : unionCols l.cols r.cols = .ok cols)
    (coerces : ∀ row, row ∈ l.rows ∨ row ∈ r.rows →
      ∃ result, coerceRow eng.lib.dates st.env cols row = .ok result) :
    ∃ (results : SetOp → List Row) (back : List Row) (cols' : List RelCol),
      (∀ op, setOperation eng op l r st = .ok ⟨cols, results op⟩ st) ∧
      setOperation eng .minus r l st = .ok ⟨cols', back⟩ st ∧
      (SetLaws l.rows r.rows results back ↔ ¬ (l.Misread r ∨ r.Misread l)) := by
  obtain ⟨cols', swapped, types⟩ := unionCols_swap accepted wide
  -- One conversion serves all results.
  choose! convert converts using coerces
  have converts' : ∀ row, row ∈ l.rows ∨ row ∈ r.rows →
      coerceRow eng.lib.dates st.env cols' row = .ok (convert row) :=
    fun row member => (coerceRow_congr types row).trans (converts row member)
  have keyL : ∀ row ∈ l.rows,
      (keyString (convert row) = keyString row ↔ ¬ RowMisread l.cols r.cols row) :=
    fun row member => keyString_coerceRow accepted wide (left row member) (converts row (Or.inl member))
  have keyR : ∀ row ∈ r.rows,
      (keyString (convert row) = keyString row ↔ ¬ RowMisread r.cols l.cols row) :=
    fun row member => keyString_coerceRow swapped wide.symm (right row member)
      (converts' row (Or.inr member))
  refine ⟨fun op => (unionRows op l.rows r.rows).map convert,
    (unionRows .minus r.rows l.rows).map convert, cols', ?_, ?_, ?_⟩
  · intro op
    exact setOperation_ok wide accepted fun row member => converts row (mem_of_mem_unionRows member)
  · exact setOperation_ok wide.symm swapped fun row member =>
      converts' row (mem_of_mem_unionRows member).symm
  · constructor
    · rintro laws (⟨row, member, misread⟩ | ⟨row, member, misread⟩)
      · have same := keys_map_of_append laws.concat row (Or.inl member)
        exact (keyL row member).mp same misread
      · have same := keys_map_of_append laws.concat row (Or.inr member)
        exact (keyR row member).mp same misread
    · intro read
      have kept : ∀ row, row ∈ l.rows ∨ row ∈ r.rows → keyString (convert row) = keyString row := by
        rintro row (member | member)
        · exact (keyL row member).mpr fun misread => read (Or.inl ⟨row, member, misread⟩)
        · exact (keyR row member).mpr fun misread => read (Or.inr ⟨row, member, misread⟩)
      have keysOf : ∀ op, keys ((unionRows op l.rows r.rows).map convert) =
          keys (unionRows op l.rows r.rows) := by
        intro op
        rw [keys, keys, List.map_map]
        exact List.map_congr_left fun row member => kept row (mem_of_mem_unionRows member)
      refine ⟨fun op sets => ?_, fun op k => ?_, ?_, ?_, ?_⟩
      · rw [keysOf]
        exact nodup_keys_unionRows l.rows r.rows sets
      · rw [keysOf]
        exact mem_keys_unionRows l.rows r.rows op k
      · rw [List.length_map, List.length_map]
        exact length_distinct_eq l.rows r.rows
      · rw [List.length_map, List.length_map, List.length_map, List.length_map]
        exact length_union_eq l.rows r.rows
      · rw [keysOf]
        exact List.map_append

end Laws

namespace SetRun

def ex : Ex := ⟨.empty, [], .empty, none⟩

def start : EvalState := ⟨∅, ∅, Literal.env "HR"⟩

/-- `SELECT e x FROM factor`. -/
def selectFrom (e : Expr) (factor : TableFactor) : SetExpr :=
  .select (.mk false [.expr e "X"] [.mk factor []] none [] none)

/-- `SELECT NVL(x, '1') x FROM (SELECT NULL x FROM dual)`. -/
def text : SetExpr :=
  selectFrom (.function "NVL" [.column none "X", .literal (.varchar2 "1")] false)
    (.subquery (.mk (selectFrom (.literal .null) (.table "DUAL" none)) [] none none) none)

/-- `SELECT 1 x FROM dual`. -/
def number : SetExpr := selectFrom (.literal (.ofInt 1)) (.table "DUAL" none)

/-- The types and rows of a result, when it succeeds. -/
def resultOf (body : SetExpr) : Option (List SqlType × List Row) :=
  match setExpr Engine.plain (Engine.plain.levels 8) ex none body start with
  | .ok rel _ => some (rel.cols.map RelCol.sqlType, rel.rows)
  | .error _ _ => none

/-- A relation with a column X. -/
def column (type : SqlType) (rows : List Row) : Relation := ⟨[⟨none, "X", type⟩], rows⟩

/-- A DATE column and a TIMESTAMP column that share an instant. -/
def dates : Relation := column .date [[.date ⟨0, 0⟩], [.null]]

def timestamps : Relation := column (.timestamp 6) [[.timestamp ⟨0, 0⟩], [.timestamp ⟨0, 500⟩]]

end SetRun

open SetRun in
/-- Dates and timestamps obey the laws. -/
theorem set_laws_dates :
    ∃ (results : SetOp → List Row) (back : List Row),
      (∀ op, setOperation Engine.plain op dates timestamps start =
        .ok (column (.timestamp 9) (results op)) start) ∧
      SetLaws dates.rows timestamps.rows results back := by
  have left : dates.Typed := by
    intro row member
    simp only [dates, column, List.mem_cons, List.not_mem_nil, or_false] at member
    rcases member with rfl | rfl
    · exact .cons (Or.inr rfl) .nil
    · exact .cons (Or.inl rfl) .nil
  have right : timestamps.Typed := by
    intro row member
    simp only [timestamps, column, List.mem_cons, List.not_mem_nil, or_false] at member
    rcases member with rfl | rfl <;> exact .cons (Or.inr rfl) .nil
  have coerces : ∀ row, row ∈ dates.rows ∨ row ∈ timestamps.rows → ∃ result, coerceRow
      Engine.plain.lib.dates start.env (column (.timestamp 9) []).cols row = .ok result := by
    intro row member
    simp only [dates, timestamps, column, List.mem_cons, List.not_mem_nil, or_false] at member
    rcases member with (rfl | rfl) | (rfl | rfl) <;> exact ⟨_, rfl⟩
  have wide : dates.cols.length = timestamps.cols.length := rfl
  have accepted : unionCols dates.cols timestamps.cols = .ok (column (.timestamp 9) []).cols := rfl
  obtain ⟨results, back, cols', all, -, laws⟩ := set_laws_iff wide left right accepted coerces
  refine ⟨results, back, all, laws.mpr ?_⟩
  rintro (⟨row, -, entry, member, misread⟩ | ⟨row, -, entry, member, misread⟩)
  · have same := List.mem_singleton.mp (List.of_mem_zip member).1
    rw [same] at misread
    cases misread.1
  · have same := List.mem_singleton.mp (List.of_mem_zip member).1
    rw [same] at misread
    cases misread.1

open SetRun in
/-- The UNION of a text in a VARCHAR2(0) column and the same number has that number twice. -/
theorem set_laws_misread :
    resultOf text = some ([.varchar2 0], [[.varchar2 "1"]]) ∧
    resultOf number = some ([.unconstrained], [[.ofInt 1]]) ∧
    resultOf (.setOp .union text number) =
      some ([.unconstrained], [[.ofInt 1], [.ofInt 1]]) ∧
    ¬ (keys [[.ofInt 1], [.ofInt 1]]).Nodup := by
  refine ⟨by decide +kernel, by decide +kernel, by decide +kernel, ?_⟩
  simp [keys]

end MockOracle
