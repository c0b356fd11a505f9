import MockOracle.Eval.Runs

/-!
# What types promise of their values

A column's type is read as a promise about the values of the column: that a text is no longer
than the type says, or that the value could be stored under the type unchanged. Stored values keep
any promise considered here, and so do the relations that FROM makes of them: joins pad rows with
NULLs, and pass values on as they are.
-/

namespace MockOracle

open Std

/-- The values that are texts. -/
def Value.isText : Value → Bool
  | varchar2 _ => true
  | _ => false

/-- The bytes of a text. -/
def Value.textSize : Value → Nat
  | varchar2 s => s.utf8ByteSize
  | _ => 0

/-- NULL coerces to NULL. -/
@[simp] theorem coerceValue_null (dates : DateFormats) (env : Env) (t : SqlType) :
    coerceValue dates env t .null = .ok .null := by
  cases t <;> rfl

/-- What a type promises of the values of a result column. -/
structure TypePromise (dates : DateFormats) where
  keeps : SqlType → Value → Prop
  /-- A value that conforms to a column may be stored in it. -/
  stored : ∀ {c v}, v.Conforms dates c → keeps c.sqlType v
  /-- Converting a value to the type it has. -/
  stable : ∀ {env t v w}, keeps t v → coerceValue dates env t v = .ok w → keeps t w
  /-- Converting a value of either side of a set operation to the type of both. -/
  union : ∀ {env a b t v w}, unionType a b = .ok t → keeps a v ∨ keeps b v →
    coerceValue dates env t v = .ok w → keeps t w
  /-- The types that take any value that can be converted to them. -/
  free : SqlType → Prop
  of_free : ∀ {env t v w}, free t → coerceValue dates env t v = .ok w → keeps t w
  /-- The values whose type may be read off them. -/
  data : Env → List Value → Prop
  of_data : ∀ {env values v w}, data env values → v ∈ values →
    coerceValue dates env (inferType none values) v = .ok w → keeps (inferType none values) w

namespace TypePromise

variable {dates : DateFormats} (p : TypePromise dates)

/-- A value that keeps the promise once it is converted to the type. -/
def Takes (env : Env) (t : SqlType) (v : Value) : Prop :=
  ∀ w, coerceValue dates env t v = .ok w → p.keeps t w

/-- A row whose values keep what the columns promise. -/
def RowKeeps (cols : List RelCol) (row : Row) : Prop :=
  List.Forall₂ (fun c v => p.keeps c.sqlType v) cols row

/-- A relation whose rows keep what its columns promise. -/
def Keeps (rel : Relation) : Prop := ∀ row ∈ rel.rows, p.RowKeeps rel.cols row

variable {p} {cols left right : List RelCol} {row l r : Row}

/-- NULL keeps every promise. -/
theorem keeps_null (t : SqlType) : p.keeps t .null :=
  p.stored (c := ⟨"", t, none, false, false⟩) (Or.inl rfl)

/-- Rows that keep a promise keep it side by side. -/
theorem RowKeeps.append (first : p.RowKeeps left l) (second : p.RowKeeps right r) :
    p.RowKeeps (left ++ right) (l ++ r) := List.rel_append first second

/-- A row of NULLs keeps every promise. -/
theorem rowKeeps_nulls (cols : List RelCol) :
    p.RowKeeps cols (List.replicate cols.length .null) := by
  induction cols with
  | nil => exact .nil
  | cons c cols ih => exact .cons (keeps_null c.sqlType) ih

/-- The value at a column's position keeps what the column promises. -/
theorem RowKeeps.getD (kept : p.RowKeeps cols row) {i : Nat} {c : RelCol}
    (found : cols[i]? = some c) : p.keeps c.sqlType (row.getD i .null) := by
  induction kept generalizing i with
  | nil => simp at found
  | cons head tail ih =>
      cases i with
      | zero =>
          cases found
          exact head
      | succ i => exact ih found

/-- Conversion to the columns' types makes a row keep them, where each column takes its value. -/
theorem rowKeeps_coerceRow {env : Env} {result : Row}
    (coerced : coerceRow dates env cols row = .ok result)
    (takes : List.Forall₂ (fun c v => p.Takes env c.sqlType v) cols row) :
    p.RowKeeps cols result := by
  induction takes generalizing result with
  | nil =>
      cases coerced
      exact .nil
  | cons head tail ih =>
      simp only [coerceRow, bind, Except.bind, pure, Except.pure] at coerced
      split at coerced
      · cases coerced
      · next first =>
          split at coerced
          · cases coerced
          · next rest =>
              cases coerced
              exact .cons (head _ first) (ih rest)

/-! ## Sources -/

/-- The rows of a table that conforms keep the promise of its columns. -/
theorem keeps_table {t : Table} (conforms : t.Conforms dates) (qualifier : Option String) :
    p.Keeps ⟨t.columns.map fun c => ⟨qualifier, c.name, c.sqlType⟩,
      t.rows.toList.map Prod.snd⟩ := by
  intro row member
  obtain ⟨entry, among, rfl⟩ := List.mem_map.mp member
  have stored := conforms entry.1 entry.2 (ExtTreeMap.mem_toList_iff_getElem?_eq_some.mp among)
  exact List.forall₂_map_left_iff.mpr (stored.imp fun c v fits => p.stored fits)

/-- A cross join keeps what both sides promise. -/
theorem keeps_cross {a b : Relation} (first : p.Keeps a) (second : p.Keeps b) :
    p.Keeps (cross a b) := by
  intro row member
  obtain ⟨l, inLeft, paired⟩ := List.mem_flatMap.mp member
  obtain ⟨r, inRight, rfl⟩ := List.mem_map.mp paired
  exact (first l inLeft).append (second r inRight)

end TypePromise

/-- A row of a join is a pair of rows, or one padded with NULLs. -/
theorem mem_joinedRows {row : Row} {kind : JoinKind} {lw rw : Nat} {lefts rights : List Row}
    {matched : List (List (Row × Nat))} (partners : ∀ found ∈ matched, ∀ m ∈ found, m.1 ∈ rights)
    (member : row ∈ joinedRows kind lw rw lefts rights matched) :
    (∃ l ∈ lefts, row = l ++ List.replicate rw .null) ∨ (∃ l ∈ lefts, ∃ r ∈ rights, row = l ++ r) ∨
      ∃ r ∈ rights, row = List.replicate lw .null ++ r := by
  rcases List.mem_append.mp member with pair | alone
  · obtain ⟨entry, among, made⟩ := List.mem_flatMap.mp pair
    have inLeft := (List.of_mem_zip among).1
    split at made
    · exact Or.inl ⟨entry.1, inLeft, List.mem_singleton.mp made⟩
    · obtain ⟨m, found, rfl⟩ := List.mem_map.mp made
      exact Or.inr (Or.inl ⟨entry.1, inLeft, m.1,
        partners entry.2 (List.of_mem_zip among).2 m found, rfl⟩)
  · split at alone
    · obtain ⟨r, kept, rfl⟩ := List.mem_map.mp alone
      exact Or.inr (Or.inr ⟨r.1, (List.mem_zipIdx' (List.mem_filter.mp kept).1).2 ▸
        List.getElem_mem _, rfl⟩)
    · simp at alone

/-- Filtering adds no rows. -/
theorem mem_of_mem_keepWhere {α : Type} {accept : α → EvalM Bool} {as kept : List α}
    {st st' : EvalState} (success : keepWhere accept as st = .ok kept st') {a : α}
    (member : a ∈ kept) : a ∈ as := by
  induction as generalizing st st' kept with
  | nil =>
      rw [(pure_ok success).1] at member
      simp at member
  | cons first rest ih =>
      obtain ⟨accepted, _, _, later⟩ := bind_ok success
      obtain ⟨others, _, restOk, last⟩ := bind_ok later
      rw [(pure_ok last).1] at member
      split at member
      · rcases List.mem_cons.mp member with rfl | among
        · exact List.mem_cons_self
        · exact List.mem_cons_of_mem _ (ih restOk among)
      · exact List.mem_cons_of_mem _ (ih restOk member)

/-! ## FROM -/

namespace TypePromise

section From

variable {dates : DateFormats} {p : TypePromise dates} {self : Recur} {ex : Ex}
  {parent : Option Scope} {st st' : EvalState} {rel : Relation}

/-- The inline views of a list of runs return relations that keep their types. -/
def ViewsKeep (p : TypePromise dates) (self : Recur) (ex : Ex) (parent : Option Scope)
    (views : List (Query × EvalState)) : Prop :=
  ∀ view ∈ views, ∀ rel st', self.query ex view.1 parent view.2 = .ok rel st' → p.Keeps rel

/-- A join keeps what both sides promise, its padding included. -/
theorem keeps_join {kind : JoinKind} {left right : Relation} {on : Option Expr}
    (first : p.Keeps left) (second : p.Keeps right)
    (success : join self ex parent kind left right on st = .ok rel st') : p.Keeps rel := by
  obtain ⟨matched, _, found, last⟩ := bind_ok success
  rw [(pure_ok last).1]
  have partners : ∀ found ∈ matched, ∀ m ∈ found, m.1 ∈ right.rows := by
    intro some_ among m member
    obtain ⟨l, _, _, _, kept⟩ := forEach_mem found among
    have listed := mem_of_mem_keepWhere kept member
    exact (List.mem_zipIdx' listed).2 ▸ List.getElem_mem _
  intro row member
  rcases mem_joinedRows partners member with ⟨l, inLeft, rfl⟩ | ⟨l, inLeft, r, inRight, rfl⟩ |
    ⟨r, inRight, rfl⟩
  · exact (first l inLeft).append (rowKeeps_nulls _)
  · exact (first l inLeft).append (second r inRight)
  · exact (rowKeeps_nulls _).append (second r inRight)

/-- So does a join that is read from a FROM clause. -/
theorem keeps_joinOne {kind : JoinKind} {left right : Relation} {on : Option Expr}
    (first : p.Keeps left) (second : p.Keeps right)
    (success : joinOne self ex parent kind left right on st = .ok rel st') : p.Keeps rel := by
  cases kind with
  | cross =>
      rw [(pure_ok success).1]
      exact keeps_cross first second
  | inner | left | right | full => exact keeps_join first second success

variable (conforms : ex.cat.Conforms dates)

include conforms

/-- A table in FROM keeps the promise, if the views and subqueries that it runs do. -/
theorem keeps_tableFactor {factor : TableFactor}
    (views : p.ViewsKeep self ex parent (factorRuns factor st))
    (success : tableFactor self ex parent factor st = .ok rel st') : p.Keeps rel := by
  cases factor with
  | table name alias_ =>
      cases found : ex.cat.table name with
      | some t =>
          simp only [tableFactor, found] at success
          rw [(pure_ok success).1]
          exact keeps_table (conforms name t found) _
      | none =>
          simp only [tableFactor, found] at success
          split at success
          · rw [(pure_ok success).1]
            intro row member
            rw [List.mem_singleton.mp member]
            have dummy : (Value.varchar "X").Conforms dates ⟨"DUMMY", .varchar2 1, none, false, false⟩ :=
              Or.inr ⟨rfl, fun _ _ _ => rfl⟩
            exact .cons (p.stored dummy) .nil
          · cases success
  | subquery q alias_ =>
      obtain ⟨inner, _, queried, last⟩ := bind_ok success
      rw [(pure_ok last).1]
      intro row member
      exact List.forall₂_map_left_iff.mpr
        (views (q, st) (List.mem_singleton_self _) _ _ queried row member)

/-- A chain of joins keeps the promise, if the views and subqueries that it runs do. -/
theorem keeps_joinAll {joins : List Join} {left : Relation} (first : p.Keeps left)
    (views : p.ViewsKeep self ex parent (joinRuns self ex parent left joins st))
    (success : joinAll self ex parent left joins st = .ok rel st') : p.Keeps rel := by
  induction joins generalizing left st with
  | nil => exact (pure_ok success).1 ▸ first
  | cons join rest ih =>
      obtain ⟨kind, factor, on⟩ := join
      obtain ⟨right, _, second, later⟩ := bind_ok success
      obtain ⟨joined, _, combined, later⟩ := bind_ok later
      rw [joinRuns, after_ok second, after_ok combined] at views
      have here := keeps_tableFactor conforms
        (fun view member => views view (List.mem_append_left _ member)) second
      exact ih (keeps_joinOne first here combined)
        (fun view member => views view (List.mem_append_right _ member)) later

/-- So does one item of a FROM clause. -/
theorem keeps_sourceItem {item : FromItem}
    (views : p.ViewsKeep self ex parent (itemViews self ex parent item st))
    (success : sourceItem self ex parent item st = .ok rel st') : p.Keeps rel := by
  obtain ⟨factor, joins⟩ := item
  obtain ⟨left, _, first, joined⟩ := bind_ok success
  rw [itemViews, after_ok first] at views
  have leftKeeps := keeps_tableFactor conforms
    (fun view member => views view (List.mem_append_left _ member)) first
  exact keeps_joinAll conforms leftKeeps
    (fun view member => views view (List.mem_append_right _ member)) joined

/-- So do all items of a FROM clause. -/
theorem keeps_sourceItems {items : List FromItem} {source : Option Relation}
    (before : ∀ left, source = some left → p.Keeps left)
    (views : p.ViewsKeep self ex parent (sourceRuns self ex parent items st))
    (success : sourceItems self ex parent source items st = .ok rel st') : p.Keeps rel := by
  induction items generalizing source st with
  | nil =>
      rw [(pure_ok success).1]
      cases source with
      | none =>
          intro row member
          cases member
      | some left => exact before left rfl
  | cons item rest ih =>
      obtain ⟨next, _, evaluated, later⟩ := bind_ok success
      rw [sourceRuns, after_ok evaluated] at views
      have nextKeeps := keeps_sourceItem conforms
        (fun view member => views view (List.mem_append_left _ member)) evaluated
      refine ih ?_ (fun view member => views view (List.mem_append_right _ member)) later
      intro both equal
      cases equal
      cases source with
      | none => exact nextKeeps
      | some earlier => exact keeps_cross (before earlier rfl) nextKeeps

end From

end TypePromise

end MockOracle
