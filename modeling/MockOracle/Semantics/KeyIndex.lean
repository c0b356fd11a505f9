import Mathlib

/-!
# Unique indexes over keyed rows

Rows are a finite map from ids to rows; `key` gives the key of a row, or none when
the row stays outside the index. `Covers` says that the index finds every row under
its key, which already makes the keys of different rows different. `residue` is what
the index holds apart from the keys of a chosen set of rows. It is the frame of
every operation on those rows, so exactness of the index is the special case of an
empty residue over all rows.
-/

namespace MockOracle.Semantics.KeyIndex

open Std

/-- A finite map from row ids to rows. -/
abbrev RowMap (R : Type) := ExtTreeMap Nat R

/-- A finite map from keys to row ids. -/
abbrev Index (K : Type) [Ord K] := ExtTreeMap K Nat

variable {R K : Type} [Ord K] [TransOrd K]

/-! ## Operations -/

/-- Drop the entry of a key, if there is a key. -/
def unindex (key? : Option K) (index : Index K) : Index K :=
  match key? with
  | some k => index.erase k
  | none => index

/-- Point a key at a row id, if there is a key. -/
def enter (key? : Option K) (id : Nat) (index : Index K) : Index K :=
  match key? with
  | some k => index.insert k id
  | none => index

/-- Drop the keys of several rows. -/
def unindexAll (key : R → Option K) (rows : List R) (index : Index K) : Index K :=
  rows.foldl (fun index row => unindex (key row) index) index

/-- Enter the keys of several rows in order. -/
def enterAll (key : R → Option K) (changes : List (Nat × R)) (index : Index K) : Index K :=
  changes.foldl (fun index change => enter (key change.2) change.1 index) index

/-- Store several rows in order. -/
def writeAll (changes : List (Nat × R)) (rows : RowMap R) : RowMap R :=
  changes.foldl (fun rows change => rows.insert change.1 change.2) rows

/-- Whether a key of the new rows is in the index or repeats one in `seen`. -/
def clashes [DecidableEq K] (key : R → Option K) (index : Index K) : List R → List K → Bool
  | [], _ => false
  | row :: rest, seen =>
      match key row with
      | none => clashes key index rest seen
      | some k => index[k]?.isSome || seen.contains k || clashes key index rest (k :: seen)

/-! ## Lookups -/

variable [LawfulEqOrd K] [DecidableEq K]

@[simp] theorem getElem?_unindex (key? : Option K) (index : Index K) (k : K) :
    (unindex key? index)[k]? = if key? = some k then none else index[k]? := by
  cases key? with
  | none => simp [unindex]
  | some a => simp [unindex, ExtTreeMap.getElem?_erase]

@[simp] theorem getElem?_enter (key? : Option K) (id : Nat) (index : Index K) (k : K) :
    (enter key? id index)[k]? = if key? = some k then some id else index[k]? := by
  cases key? with
  | none => simp [enter]
  | some a => simp [enter, ExtTreeMap.getElem?_insert]

/-- A key that was free is free again when it is dropped after it was entered. -/
theorem unindex_enter {key? : Option K} {id : Nat} {index : Index K}
    (free : ∀ k, key? = some k → index[k]? = none) : unindex key? (enter key? id index) = index := by
  refine ExtTreeMap.ext_getElem? fun k => ?_
  rw [getElem?_unindex, getElem?_enter]
  by_cases holds : key? = some k
  · rw [if_pos holds, free k holds]
  · rw [if_neg holds, if_neg holds]

/-- A key that was taken by an id is taken by it again when it is entered after it was dropped. -/
theorem enter_unindex {key? : Option K} {id : Nat} {index : Index K}
    (entered : ∀ k, key? = some k → index[k]? = some id) :
    enter key? id (unindex key? index) = index := by
  refine ExtTreeMap.ext_getElem? fun k => ?_
  rw [getElem?_enter, getElem?_unindex]
  by_cases holds : key? = some k
  · rw [if_pos holds, entered k holds]
  · rw [if_neg holds, if_neg holds]

/-- The entries after the keys of rows are dropped. -/
theorem getElem?_unindexAll (key : R → Option K) (rows : List R) (index : Index K) (k : K) :
    (unindexAll key rows index)[k]? =
      if ∃ row ∈ rows, key row = some k then none else index[k]? := by
  induction rows generalizing index with
  | nil => simp [unindexAll]
  | cons row rest ih =>
      rw [show unindexAll key (row :: rest) index = unindexAll key rest (unindex (key row) index)
        from rfl, ih, getElem?_unindex]
      by_cases inRest : ∃ row ∈ rest, key row = some k
      · simp [inRest]
      · by_cases here : key row = some k <;> simp [inRest, here]

/-- Entering rows leaves every key none of them has. -/
theorem getElem?_enterAll_of_absent (key : R → Option K) {changes : List (Nat × R)}
    {index : Index K} {k : K} (absent : ∀ change ∈ changes, key change.2 ≠ some k) :
    (enterAll key changes index)[k]? = index[k]? := by
  induction changes generalizing index with
  | nil => rfl
  | cons change rest ih =>
      rw [show enterAll key (change :: rest) index =
        enterAll key rest (enter (key change.2) change.1 index) from rfl]
      rw [ih fun other member => absent other (List.mem_cons_of_mem _ member), getElem?_enter,
        if_neg (absent change List.mem_cons_self)]

/-- A key that only one id has points at that id once the rows are entered. -/
theorem getElem?_enterAll_of_unique (key : R → Option K) {changes : List (Nat × R)}
    {index : Index K} {k : K} {id : Nat}
    (present : ∃ change ∈ changes, key change.2 = some k)
    (unique : ∀ change ∈ changes, key change.2 = some k → change.1 = id) :
    (enterAll key changes index)[k]? = some id := by
  induction changes generalizing index with
  | nil => simp at present
  | cons change rest ih =>
      rw [show enterAll key (change :: rest) index =
        enterAll key rest (enter (key change.2) change.1 index) from rfl]
      by_cases inRest : ∃ other ∈ rest, key other.2 = some k
      · exact ih inRest fun other member => unique other (List.mem_cons_of_mem _ member)
      · push Not at inRest
        have here : key change.2 = some k := by
          obtain ⟨other, member, holds⟩ := present
          rcases List.mem_cons.mp member with rfl | member
          · exact holds
          · exact absurd holds (inRest other member)
        rw [getElem?_enterAll_of_absent key inRest, getElem?_enter, if_pos here,
          unique change List.mem_cons_self here]

/-- Rows that are not written stay. -/
theorem getElem?_writeAll_of_absent {changes : List (Nat × R)} {rows : RowMap R} {id : Nat}
    (absent : id ∉ changes.map Prod.fst) : (writeAll changes rows)[id]? = rows[id]? := by
  induction changes generalizing rows with
  | nil => rfl
  | cons change rest ih =>
      simp only [List.map_cons, List.mem_cons, not_or] at absent
      rw [show writeAll (change :: rest) rows = writeAll rest (rows.insert change.1 change.2)
        from rfl, ih absent.2, ExtTreeMap.getElem?_insert]
      simp [Ne.symm absent.1]

/-- The last change of an id decides its row. -/
theorem getElem?_writeAll_append (before : List (Nat × R)) (id : Nat) (row : R)
    {after : List (Nat × R)} (last : id ∉ after.map Prod.fst) (rows : RowMap R) :
    (writeAll (before ++ (id, row) :: after) rows)[id]? = some row := by
  rw [writeAll, List.foldl_append, List.foldl_cons]
  rw [← writeAll, getElem?_writeAll_of_absent last]
  simp

/-- A row that is written is stored. -/
theorem getElem?_writeAll_of_mem {changes : List (Nat × R)} (rows : RowMap R) {id : Nat} {row : R}
    (distinct : (changes.map Prod.fst).Nodup) (member : (id, row) ∈ changes) :
    (writeAll changes rows)[id]? = some row := by
  obtain ⟨before, after, rfl⟩ := List.append_of_mem member
  apply getElem?_writeAll_append
  simp only [List.map_append, List.map_cons, List.nodup_append, List.nodup_cons] at distinct
  exact distinct.2.1.1

/-- A written row is one of the changes, also when an id is changed twice. -/
theorem mem_of_getElem?_writeAll {changes : List (Nat × R)} {rows : RowMap R} {id : Nat} {row : R}
    (changed : id ∈ changes.map Prod.fst) (found : (writeAll changes rows)[id]? = some row) :
    (id, row) ∈ changes := by
  induction changes generalizing rows with
  | nil => simp at changed
  | cons change rest ih =>
      by_cases later : id ∈ rest.map Prod.fst
      · exact List.mem_cons_of_mem _ (ih later found)
      · have same : id = change.1 := by
          rcases List.mem_cons.mp changed with here | there
          · exact here
          · exact absurd there later
        subst same
        have written := getElem?_writeAll_append [] change.1 change.2 later rows
        have equal : row = change.2 := Option.some.inj (found.symm.trans written)
        rw [equal]
        exact List.mem_cons_self

/-- A written id has a row. -/
theorem writeAll_ne_none {changes : List (Nat × R)} {rows : RowMap R} {id : Nat}
    (changed : id ∈ changes.map Prod.fst) : (writeAll changes rows)[id]? ≠ none := by
  induction changes generalizing rows with
  | nil => simp at changed
  | cons change rest ih =>
      by_cases later : id ∈ rest.map Prod.fst
      · exact ih later
      · have same : id = change.1 := by
          rcases List.mem_cons.mp changed with here | there
          · exact here
          · exact absurd there later
        subst same
        rw [show change :: rest = [] ++ (change.1, change.2) :: rest from rfl,
          getElem?_writeAll_append [] change.1 change.2 later rows]
        exact Option.some_ne_none _

omit [LawfulEqOrd K] in
/-- Nothing clashes if and only if all keys are free, and none is repeated. -/
theorem clashes_eq_false_iff (key : R → Option K) (index : Index K) (rows : List R)
    (seen : List K) :
    clashes key index rows seen = false ↔
      (∀ row ∈ rows, ∀ k, key row = some k → index[k]? = none ∧ k ∉ seen) ∧
        rows.Pairwise fun row other => ∀ k, key row = some k → key other ≠ some k := by
  induction rows generalizing seen with
  | nil => simp [clashes]
  | cons row rest ih =>
      cases here : key row with
      | none => simp [clashes, here, ih]
      | some k =>
          simp only [clashes, here, Bool.or_eq_false_iff, ih, List.mem_cons, forall_eq_or_imp,
            List.pairwise_cons, Option.some.injEq, forall_eq']
          constructor
          · rintro ⟨⟨indexed, unseen⟩, rests, distinct⟩
            refine ⟨⟨⟨Option.isSome_eq_false_iff.mp indexed |> Option.isNone_iff_eq_none.mp,
              by simpa using unseen⟩, ?_⟩, ?_, distinct⟩
            · intro other member a holds
              have := rests other member a holds
              exact ⟨this.1, fun seenBefore => this.2 (Or.inr seenBefore)⟩
            · intro other member holds
              exact (rests other member k holds).2 (Or.inl rfl)
          · rintro ⟨⟨⟨indexed, unseen⟩, rests⟩, different, distinct⟩
            refine ⟨⟨by rw [indexed]; rfl, by simpa using unseen⟩, ?_, distinct⟩
            intro other member a holds
            refine ⟨(rests other member a holds).1, ?_⟩
            rintro (rfl | seenBefore)
            · exact different other member holds
            · exact (rests other member a holds).2 seenBefore

/-! ## Coverage, exactness and the residue -/

/-- The index finds every row that has a key under that key. -/
def Covers (key : R → Option K) (rows : RowMap R) (index : Index K) : Prop :=
  ∀ id row k, rows[id]? = some row → key row = some k → index[k]? = some id

/-- The index is the map from keys to ids and nothing else. -/
def Exact (key : R → Option K) (rows : RowMap R) (index : Index K) : Prop :=
  ∀ k id, index[k]? = some id ↔ ∃ row, rows[id]? = some row ∧ key row = some k

/-- Some row among `ids` has the key. -/
def Held (key : R → Option K) (rows : RowMap R) (ids : Set Nat) (k : K) : Prop :=
  ∃ id ∈ ids, ∃ row, rows[id]? = some row ∧ key row = some k

open Classical in
/-- What the index says about keys that no row among `ids` has. -/
noncomputable def residue (key : R → Option K) (rows : RowMap R) (index : Index K)
    (ids : Set Nat) (k : K) : Option Nat :=
  if Held key rows ids k then none else index[k]?

variable {key : R → Option K} {rows rows' : RowMap R} {index index' : Index K} {ids : Set Nat}

section Residue

omit [LawfulEqOrd K] [DecidableEq K]

/-- The residue has no entry for a key that is held. -/
theorem residue_of_held {k : K} (held : Held key rows ids k) :
    residue key rows index ids k = none := if_pos held

/-- The residue has the index's entry for a key that is not held. -/
theorem residue_of_not_held {k : K} (free : ¬ Held key rows ids k) :
    residue key rows index ids k = index[k]? := if_neg free

/-- The residue depends on who holds the key and on its entry. -/
theorem residue_congr {k : K} (held : Held key rows' ids k ↔ Held key rows ids k)
    (entry : index'[k]? = index[k]?) :
    residue key rows' index' ids k = residue key rows index ids k := by
  by_cases before : Held key rows ids k
  · rw [residue_of_held before, residue_of_held (held.mpr before)]
  · rw [residue_of_not_held before, residue_of_not_held (mt held.mp before), entry]

/-- Covered rows with the same key are the same row. -/
theorem Covers.id_unique (covers : Covers key rows index) {id other : Nat} {row row' : R} {k : K}
    (found : rows[id]? = some row) (holds : key row = some k)
    (found' : rows[other]? = some row') (holds' : key row' = some k) : id = other := by
  have first := covers id row k found holds
  have second := covers other row' k found' holds'
  exact Option.some.inj (first.symm.trans second)

/-- An index is exact when it covers the rows and has no residue over all of them. -/
theorem exact_iff : Exact key rows index ↔
    Covers key rows index ∧ ∀ k, residue key rows index Set.univ k = none := by
  constructor
  · intro exact
    refine ⟨fun id row k found holds => (exact k id).mpr ⟨row, found, holds⟩, fun k => ?_⟩
    by_cases held : Held key rows Set.univ k
    · exact residue_of_held held
    · rw [residue_of_not_held held]
      cases entry : index[k]? with
      | none => rfl
      | some id =>
          obtain ⟨row, found, holds⟩ := (exact k id).mp entry
          exact absurd ⟨id, Set.mem_univ id, row, found, holds⟩ held
  · rintro ⟨covers, empty⟩ k id
    constructor
    · intro entry
      by_cases held : Held key rows Set.univ k
      · obtain ⟨other, _, row, found, holds⟩ := held
        have same := covers other row k found holds
        rw [entry] at same
        cases same
        exact ⟨row, found, holds⟩
      · have none := empty k
        rw [residue_of_not_held held, entry] at none
        cases none
    · rintro ⟨row, found, holds⟩
      exact covers id row k found holds

/-- An exact index covers its rows. -/
theorem Exact.covers (exact : Exact key rows index) : Covers key rows index :=
  (exact_iff.mp exact).1

/-- Transport exactness along an operation that keeps coverage and the residue. -/
theorem Exact.transport (exact : Exact key rows index) (covers : Covers key rows' index')
    (same : residue key rows' index' Set.univ = residue key rows index Set.univ) :
    Exact key rows' index' :=
  exact_iff.mpr ⟨covers, fun k => by rw [same]; exact (exact_iff.mp exact).2 k⟩

end Residue

/-! ## Inserting and erasing one row -/

/-- Storing a row and entering its free key keeps the index covering. -/
theorem Covers.insert (covers : Covers key rows index) {id : Nat} {row : R}
    (free : ∀ k, key row = some k → index[k]? = none) :
    Covers key (rows.insert id row) (enter (key row) id index) := by
  intro other row' k found holds
  rw [ExtTreeMap.getElem?_insert] at found
  rw [getElem?_enter]
  by_cases same : id = other
  · simp only [same, compare_self, if_true, Option.some.injEq] at found
    subst found
    rw [if_pos holds, same]
  · have old : rows[other]? = some row' := by simpa [same] using found
    have entry := covers other row' k old holds
    have different : key row ≠ some k := by
      intro clash
      rw [free k clash] at entry
      cases entry
    rw [if_neg different, entry]

/-- Storing a row among the ids and entering its free key keeps the residue. -/
theorem residue_insert {id : Nat} {row : R} (member : id ∈ ids) (fresh : rows[id]? = none)
    (free : ∀ k, key row = some k → index[k]? = none) :
    residue key (rows.insert id row) (enter (key row) id index) ids =
      residue key rows index ids := by
  funext k
  by_cases here : key row = some k
  · have held : Held key (rows.insert id row) ids k := ⟨id, member, row, by simp, here⟩
    rw [residue_of_held held]
    by_cases before : Held key rows ids k
    · rw [residue_of_held before]
    · rw [residue_of_not_held before, free k here]
  · have heldIff : Held key (rows.insert id row) ids k ↔ Held key rows ids k := by
      constructor
      · rintro ⟨other, among, row', found, holds⟩
        rw [ExtTreeMap.getElem?_insert] at found
        by_cases same : id = other
        · simp only [same, compare_self, if_true, Option.some.injEq] at found
          exact absurd (found ▸ holds) here
        · exact ⟨other, among, row', by simpa [same] using found, holds⟩
      · rintro ⟨other, among, row', found, holds⟩
        have same : id ≠ other := by
          rintro rfl
          rw [fresh] at found
          cases found
        exact ⟨other, among, row', by simpa [ExtTreeMap.getElem?_insert, same] using found, holds⟩
    exact residue_congr heldIff (by rw [getElem?_enter, if_neg here])

/-- Deleting a row and dropping its key keeps the index covering. -/
theorem Covers.erase (covers : Covers key rows index) {id : Nat} {row : R}
    (found : rows[id]? = some row) :
    Covers key (rows.erase id) (unindex (key row) index) := by
  intro other row' k found' holds
  rw [ExtTreeMap.getElem?_erase] at found'
  by_cases same : id = other
  · simp [same] at found'
  · have old : rows[other]? = some row' := by simpa [same] using found'
    have different : key row ≠ some k := fun clash =>
      same (covers.id_unique found clash old holds)
    rw [getElem?_unindex, if_neg different]
    exact covers other row' k old holds

/-- Deleting a row among the ids and dropping its key keeps the residue. -/
theorem residue_erase {id : Nat} {row : R} (member : id ∈ ids)
    (found : rows[id]? = some row) :
    residue key (rows.erase id) (unindex (key row) index) ids = residue key rows index ids := by
  funext k
  by_cases here : key row = some k
  · have before : Held key rows ids k := ⟨id, member, row, found, here⟩
    rw [residue_of_held before]
    by_cases after : Held key (rows.erase id) ids k
    · rw [residue_of_held after]
    · rw [residue_of_not_held after, getElem?_unindex, if_pos here]
  · have heldIff : Held key (rows.erase id) ids k ↔ Held key rows ids k := by
      constructor
      · rintro ⟨other, among, row', found', holds⟩
        rw [ExtTreeMap.getElem?_erase] at found'
        by_cases same : id = other
        · simp [same] at found'
        · exact ⟨other, among, row', by simpa [same] using found', holds⟩
      · rintro ⟨other, among, row', found', holds⟩
        have same : id ≠ other := by
          rintro rfl
          rw [found] at found'
          exact here (Option.some.inj found' ▸ holds)
        exact ⟨other, among, row', by simpa [ExtTreeMap.getElem?_erase, same] using found', holds⟩
    exact residue_congr heldIff (by rw [getElem?_unindex, if_neg here])

/-! ## Replacing several rows at once -/

/-- `olds` are the rows the changes replace, in the same order. -/
def Replaced (rows : RowMap R) (changes : List (Nat × R)) (olds : List R) : Prop :=
  List.Forall₂ (fun change old => rows[change.1]? = some old) changes olds

/-- The new rows fit beside the rows that stay, and beside each other. -/
def Fits (key : R → Option K) (index : Index K) (changes : List (Nat × R)) (olds : List R) :
    Prop :=
  clashes key (unindexAll key olds index) (changes.map Prod.snd) [] = false

/-- Each change replaces one of the old rows. -/
theorem Replaced.old_of_change {changes : List (Nat × R)} {olds : List R}
    (replaced : Replaced rows changes olds) {change : Nat × R} (member : change ∈ changes) :
    ∃ old ∈ olds, rows[change.1]? = some old := by
  induction replaced with
  | nil => simp at member
  | cons found _ ih =>
      rcases List.mem_cons.mp member with rfl | member
      · exact ⟨_, List.mem_cons_self, found⟩
      · obtain ⟨old, among, found⟩ := ih member
        exact ⟨old, List.mem_cons_of_mem _ among, found⟩

/-- Each old row is replaced by one of the changes. -/
theorem Replaced.change_of_old {changes : List (Nat × R)} {olds : List R}
    (replaced : Replaced rows changes olds) {old : R} (member : old ∈ olds) :
    ∃ change ∈ changes, rows[change.1]? = some old := by
  induction replaced with
  | nil => simp at member
  | cons found _ ih =>
      rcases List.mem_cons.mp member with rfl | member
      · exact ⟨_, List.mem_cons_self, found⟩
      · obtain ⟨change, among, found⟩ := ih member
        exact ⟨change, List.mem_cons_of_mem _ among, found⟩

/-- Only rows that are replaced may have held a key that a fitting change brings. -/
theorem Fits.free {changes : List (Nat × R)} {olds : List R} (fits : Fits key index changes olds)
    {change : Nat × R} (member : change ∈ changes) {k : K} (holds : key change.2 = some k) :
    index[k]? = none ∨ ∃ old ∈ olds, key old = some k := by
  have free := (((clashes_eq_false_iff key _ _ _).mp fits).1 change.2
    (List.mem_map_of_mem member) k holds).1
  rw [getElem?_unindexAll] at free
  by_cases held : ∃ old ∈ olds, key old = some k
  · exact Or.inr held
  · rw [if_neg held] at free
    exact Or.inl free

omit [LawfulEqOrd K] in
/-- Rows that fit have different keys. -/
theorem Fits.distinct {changes : List (Nat × R)} {olds : List R}
    (fits : Fits key index changes olds) :
    changes.Pairwise fun change other => ∀ k, key change.2 = some k → key other.2 ≠ some k :=
  List.pairwise_map.mp ((clashes_eq_false_iff key _ _ _).mp fits).2

omit [LawfulEqOrd K] in
/-- A key that fits is the key of one of the new rows. -/
theorem Fits.change_unique {changes : List (Nat × R)} {olds : List R}
    (fits : Fits key index changes olds) {change other : Nat × R} (member : change ∈ changes)
    (member' : other ∈ changes) {k : K} (holds : key change.2 = some k)
    (holds' : key other.2 = some k) : change = other := by
  by_contra different
  have symmetric : Std.Symm fun change other : Nat × R =>
      ∀ k, key change.2 = some k → key other.2 ≠ some k :=
    ⟨fun _ _ apart k holds holds' => apart k holds' holds⟩
  exact fits.distinct.forall member member' different k holds holds'

/-- A key of a fitting change points at the changed row. -/
theorem Fits.entered {changes : List (Nat × R)} {olds : List R}
    (fits : Fits key index changes olds) {change : Nat × R} (member : change ∈ changes) {k : K}
    (holds : key change.2 = some k) :
    (enterAll key changes (unindexAll key olds index))[k]? = some change.1 :=
  getElem?_enterAll_of_unique key ⟨change, member, holds⟩ fun other member' holds' => by
    rw [fits.change_unique member' member holds' holds]

/-- Replacing rows keeps coverage, also when an id is replaced twice. -/
theorem Covers.replace (covers : Covers key rows index) {changes : List (Nat × R)}
    {olds : List R} (replaced : Replaced rows changes olds) (fits : Fits key index changes olds) :
    Covers key (writeAll changes rows) (enterAll key changes (unindexAll key olds index)) := by
  intro id row k found holds
  by_cases changed : id ∈ changes.map Prod.fst
  · exact fits.entered (mem_of_getElem?_writeAll changed found) holds
  · rw [getElem?_writeAll_of_absent changed] at found
    have entry := covers id row k found holds
    -- No replaced row held `k`, since the row at `id` does and stays.
    have notOld : ¬ ∃ old ∈ olds, key old = some k := by
      rintro ⟨old, among, held⟩
      obtain ⟨change, member, foundOld⟩ := replaced.change_of_old among
      have same := covers.id_unique found holds foundOld held
      exact changed (same ▸ List.mem_map_of_mem member)
    have notNew : ∀ change ∈ changes, key change.2 ≠ some k := by
      intro change member held
      rcases fits.free member held with free | old
      · rw [entry] at free
        cases free
      · exact notOld old
    rw [getElem?_enterAll_of_absent key notNew, getElem?_unindexAll, if_neg notOld, entry]

/-- Entering stored rows again after dropping their keys restores the index. -/
theorem Covers.reenter (covers : Covers key rows index) {entries : List (Nat × R)}
    (stored : ∀ entry ∈ entries, rows[entry.1]? = some entry.2) :
    enterAll key entries (unindexAll key (entries.map Prod.snd) index) = index := by
  refine ExtTreeMap.ext_getElem? fun k => ?_
  by_cases held : ∃ entry ∈ entries, key entry.2 = some k
  · obtain ⟨entry, member, holds⟩ := held
    have unique : ∀ other ∈ entries, key other.2 = some k → other.1 = entry.1 :=
      fun other member' holds' =>
        covers.id_unique (stored other member') holds' (stored entry member) holds
    rw [getElem?_enterAll_of_unique key ⟨entry, member, holds⟩ unique]
    exact (covers entry.1 entry.2 k (stored entry member) holds).symm
  · push Not at held
    rw [getElem?_enterAll_of_absent key held, getElem?_unindexAll, if_neg]
    rintro ⟨old, member, holds⟩
    obtain ⟨entry, memberEntry, rfl⟩ := List.mem_map.mp member
    exact held entry memberEntry holds

omit [LawfulEqOrd K] in
/-- Writing stored rows again changes nothing. -/
theorem writeAll_stored {entries : List (Nat × R)} {rows : RowMap R}
    (stored : ∀ entry ∈ entries, rows[entry.1]? = some entry.2) :
    writeAll entries rows = rows := by
  refine ExtTreeMap.ext_getElem? fun id => ?_
  by_cases changed : id ∈ entries.map Prod.fst
  · cases written : (writeAll entries rows)[id]? with
    | none => exact absurd written (writeAll_ne_none changed)
    | some row => exact (stored _ (mem_of_getElem?_writeAll changed written)).symm
  · exact getElem?_writeAll_of_absent changed

/-- Replacing rows that fit keeps the residue. -/
theorem residue_replace {changes : List (Nat × R)} {olds : List R}
    (distinct : (changes.map Prod.fst).Nodup) (replaced : Replaced rows changes olds)
    (fits : Fits key index changes olds) (among : ∀ change ∈ changes, change.1 ∈ ids) :
    residue key (writeAll changes rows) (enterAll key changes (unindexAll key olds index)) ids =
      residue key rows index ids := by
  have heldOfChange : ∀ change ∈ changes, ∀ k, key change.2 = some k →
      Held key (writeAll changes rows) ids k := fun change member k holds =>
    ⟨change.1, among change member, change.2,
      getElem?_writeAll_of_mem rows distinct (show (change.1, change.2) ∈ changes from member), holds⟩
  have heldOfOld : ∀ old ∈ olds, ∀ k, key old = some k → Held key rows ids k := by
    intro old member k holds
    obtain ⟨change, memberChange, found⟩ := replaced.change_of_old member
    exact ⟨change.1, among change memberChange, old, found, holds⟩
  funext k
  by_cases after : Held key (writeAll changes rows) ids k
  · rw [residue_of_held after]
    by_cases before : Held key rows ids k
    · rw [residue_of_held before]
    · rw [residue_of_not_held before]
      obtain ⟨id, member, row, found, holds⟩ := after
      by_cases changed : id ∈ changes.map Prod.fst
      · obtain ⟨change, memberChange, rfl⟩ := List.mem_map.mp changed
        have written := getElem?_writeAll_of_mem rows distinct
          (show (change.1, change.2) ∈ changes from memberChange)
        have same : row = change.2 := Option.some.inj (found.symm.trans written)
        rcases fits.free memberChange (same ▸ holds) with free | ⟨old, amongOld, held⟩
        · exact free.symm
        · exact absurd (heldOfOld old amongOld k held) before
      · rw [getElem?_writeAll_of_absent changed] at found
        exact absurd ⟨id, member, row, found, holds⟩ before
  · have notNew : ∀ change ∈ changes, key change.2 ≠ some k :=
      fun change member holds => after (heldOfChange change member k holds)
    rw [residue_of_not_held after, getElem?_enterAll_of_absent key notNew, getElem?_unindexAll]
    by_cases before : Held key rows ids k
    · rw [residue_of_held before]
      obtain ⟨id, member, row, found, holds⟩ := before
      have changed : id ∈ changes.map Prod.fst := by
        by_contra absent
        exact after ⟨id, member, row, by rw [getElem?_writeAll_of_absent absent]; exact found, holds⟩
      obtain ⟨change, memberChange, rfl⟩ := List.mem_map.mp changed
      obtain ⟨old, amongOld, foundOld⟩ := replaced.old_of_change memberChange
      have same : row = old := Option.some.inj (found.symm.trans foundOld)
      rw [if_pos ⟨old, amongOld, same ▸ holds⟩]
    · rw [residue_of_not_held before, if_neg]
      rintro ⟨old, member, holds⟩
      exact before (heldOfOld old member k holds)

/-- Writing back what `ids` held before restores the index, provided that everything
else in the index is as it was. Entries without a key may come in between. -/
theorem restore_index (ids : Set Nat) {rows₀ rows₁ : RowMap R} {index₀ index₁ : Index K}
    (covers : Covers key rows₀ index₀)
    (same : residue key rows₁ index₁ ids = residue key rows₀ index₀ ids)
    {batch : List (Nat × R)} {currents : List R} (replaced : Replaced rows₁ batch currents)
    (among : ∀ entry ∈ batch, entry.1 ∈ ids)
    (all : ∀ id ∈ ids, id ∈ batch.map Prod.fst)
    (keyed : ∀ entry ∈ batch, ∀ k, key entry.2 = some k → rows₀[entry.1]? = some entry.2)
    (complete : ∀ id ∈ ids, ∀ row, rows₀[id]? = some row → (id, row) ∈ batch)
    (once : batch.Pairwise fun entry later => entry.1 = later.1 → key entry.2 = none) :
    Fits key index₁ batch currents ∧
      enterAll key batch (unindexAll key currents index₁) = index₀ := by
  have held₁ : ∀ k, Held key rows₁ ids k ↔ ∃ current ∈ currents, key current = some k := by
    intro k
    constructor
    · rintro ⟨id, member, row, found, holds⟩
      obtain ⟨entry, memberEntry, rfl⟩ := List.mem_map.mp (all id member)
      obtain ⟨current, amongCurrent, foundCurrent⟩ := replaced.old_of_change memberEntry
      have same : row = current := Option.some.inj (found.symm.trans foundCurrent)
      exact ⟨current, amongCurrent, same ▸ holds⟩
    · rintro ⟨current, member, holds⟩
      obtain ⟨entry, memberEntry, found⟩ := replaced.change_of_old member
      exact ⟨entry.1, among entry memberEntry, current, found, holds⟩
  have stripped : ∀ k, (unindexAll key currents index₁)[k]? = residue key rows₀ index₀ ids k := by
    intro k
    rw [← congrFun same k, getElem?_unindexAll]
    by_cases held : Held key rows₁ ids k
    · rw [residue_of_held held, if_pos ((held₁ k).mp held)]
    · rw [residue_of_not_held held, if_neg (mt (held₁ k).mpr held)]
  have fits : Fits key index₁ batch currents := by
    refine (clashes_eq_false_iff key _ _ _).mpr ⟨?_, List.pairwise_map.mpr ?_⟩
    · intro row member k holds
      obtain ⟨entry, memberEntry, rfl⟩ := List.mem_map.mp member
      rw [stripped k, residue_of_held]
      · simp
      · exact ⟨entry.1, among entry memberEntry, entry.2, keyed entry memberEntry k holds, holds⟩
    · refine once.imp_of_mem ?_
      intro entry later member member' sameRow k holds holds'
      have sameId : entry.1 = later.1 :=
        covers.id_unique (keyed entry member k holds) holds (keyed later member' k holds') holds'
      rw [sameRow sameId] at holds
      cases holds
  refine ⟨fits, ExtTreeMap.ext_getElem? fun k => ?_⟩
  by_cases brought : ∃ entry ∈ batch, key entry.2 = some k
  · obtain ⟨entry, member, holds⟩ := brought
    rw [fits.entered member holds]
    exact (covers entry.1 entry.2 k (keyed entry member k holds) holds).symm
  · push Not at brought
    rw [getElem?_enterAll_of_absent key brought, stripped k]
    by_cases held : Held key rows₀ ids k
    · obtain ⟨id, member, row, found, holds⟩ := held
      exact absurd holds (brought (id, row) (complete id member row found))
    · rw [residue_of_not_held held]

/-! ## Replacing one row at a time -/

/-- The first of several fitting changes also fits alone exactly when it does not take
a key that a row changed later still holds. -/
theorem Fits.head_iff (covers : Covers key rows index) {change : Nat × R}
    {changes : List (Nat × R)} {old : R} {olds : List R}
    (distinct : ((change :: changes).map Prod.fst).Nodup)
    (replaced : Replaced rows (change :: changes) (old :: olds))
    (fits : Fits key index (change :: changes) (old :: olds)) :
    Fits key index [change] [old] ↔
      ∀ later ∈ olds, ∀ k, key change.2 = some k → key later ≠ some k := by
  obtain ⟨found, rest⟩ := List.forall₂_cons.mp replaced
  have single : Fits key index [change] [old] ↔
      ∀ k, key change.2 = some k → (unindexAll key [old] index)[k]? = none := by
    rw [Fits, clashes_eq_false_iff]
    simp
  rw [single]
  constructor
  · intro free later member k holds heldLater
    have entry := free k holds
    obtain ⟨other, memberOther, foundLater⟩ := Replaced.change_of_old rest member
    have indexed := covers other.1 later k foundLater heldLater
    have different : change.1 ≠ other.1 := by
      have apart := (List.nodup_cons.mp distinct).1
      rintro same
      exact apart (same ▸ List.mem_map_of_mem memberOther)
    have notOld : key old ≠ some k := fun heldOld =>
      different (covers.id_unique found heldOld foundLater heldLater)
    rw [getElem?_unindexAll] at entry
    simp [notOld, indexed] at entry
  · intro apart k holds
    rw [getElem?_unindexAll]
    rcases fits.free List.mem_cons_self holds with free | ⟨held, among, heldKey⟩
    · simp [free]
    · rcases List.mem_cons.mp among with rfl | among
      · simp [heldKey]
      · exact absurd heldKey (apart held among k holds)

/-- Once the first change is made alone, the others fit and end in the same index. -/
theorem Fits.tail {change : Nat × R} {changes : List (Nat × R)} {old : R} {olds : List R}
    (fits : Fits key index (change :: changes) (old :: olds))
    (apart : ∀ later ∈ olds, ∀ k, key change.2 = some k → key later ≠ some k) :
    Fits key (enterAll key [change] (unindexAll key [old] index)) changes olds ∧
      enterAll key changes
          (unindexAll key olds (enterAll key [change] (unindexAll key [old] index))) =
        enterAll key (change :: changes) (unindexAll key (old :: olds) index) := by
  have firstApart := (List.pairwise_cons.mp fits.distinct).1
  have lookup : ∀ k, (enterAll key [change] (unindexAll key [old] index))[k]? =
      if key change.2 = some k then some change.1
      else if key old = some k then none else index[k]? := by
    intro k
    simp [enterAll, unindexAll]
  constructor
  · refine (clashes_eq_false_iff key _ _ _).mpr
      ⟨?_, List.pairwise_map.mpr (List.pairwise_cons.mp fits.distinct).2⟩
    intro row member k holds
    obtain ⟨other, memberOther, rfl⟩ := List.mem_map.mp member
    refine ⟨?_, by simp⟩
    rw [getElem?_unindexAll, lookup k]
    have notFirst : key change.2 ≠ some k := fun holdsFirst =>
      firstApart other memberOther k holdsFirst holds
    rcases fits.free (List.mem_cons_of_mem _ memberOther) holds with free | ⟨held, among, heldKey⟩
    · simp [notFirst, free]
    · rcases List.mem_cons.mp among with rfl | among
      · simp [notFirst, heldKey]
      · rw [if_pos ⟨held, among, heldKey⟩]
  · refine ExtTreeMap.ext_getElem? fun k => ?_
    rw [show enterAll key (change :: changes) (unindexAll key (old :: olds) index) =
      enterAll key changes (enterAll key [change] (unindexAll key (old :: olds) index)) from rfl]
    by_cases brought : ∃ other ∈ changes, key other.2 = some k
    · obtain ⟨other, member, holds⟩ := brought
      have unique : ∀ another ∈ changes, key another.2 = some k → another.1 = other.1 := by
        intro another member' holds'
        rw [fits.change_unique (List.mem_cons_of_mem _ member') (List.mem_cons_of_mem _ member)
          holds' holds]
      rw [getElem?_enterAll_of_unique key ⟨other, member, holds⟩ unique,
        getElem?_enterAll_of_unique key ⟨other, member, holds⟩ unique]
    · push Not at brought
      rw [getElem?_enterAll_of_absent key brought, getElem?_enterAll_of_absent key brought,
        getElem?_unindexAll, lookup k]
      have right : (enterAll key [change] (unindexAll key (old :: olds) index))[k]? =
          if key change.2 = some k then some change.1
          else (unindexAll key (old :: olds) index)[k]? := by simp [enterAll]
      rw [right, getElem?_unindexAll]
      by_cases first : key change.2 = some k
      · have none : ¬ ∃ later ∈ olds, key later = some k := by
          rintro ⟨later, member, holds⟩
          exact apart later member k first holds
        simp [first, none]
      · by_cases heldOld : key old = some k
        · simp [first, heldOld]
        · by_cases heldLater : ∃ later ∈ olds, key later = some k
          · simp [first, heldOld, heldLater]
          · simp [first, heldOld, heldLater]

end MockOracle.Semantics.KeyIndex
