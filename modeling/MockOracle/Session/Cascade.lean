import MockOracle.Session.Undo
import MockOracle.Session.ForeignKeys

/-!
# What the turns of an enforcement leave

Each turn deletes the child rows that it hits, or sets columns of them to NULL, and leaves every
other row alone. So the rows after an enforcement are rows of before with fewer values, and what
has become of one row is decided by the last turn that touches it.
-/

namespace MockOracle

open Std Semantics

/-! ## Rows that have lost values -/

/-- The second row is the first one, some of its values replaced by NULL. -/
def Thins (row row' : Row) : Prop := ∀ i, cell row' i = cell row i ∨ cell row' i = .null

/-- The cells of a row once its key is set to NULL. -/
theorem cell_nullColumns (columns : List Nat) (row : Row) (i : Nat) :
    cell (nullColumns columns row) i = if i ∈ columns then .null else cell row i := by
  unfold nullColumns
  induction columns generalizing row with
  | nil => simp
  | cons c rest ih =>
      rw [List.foldl_cons, ih]
      by_cases later : i ∈ rest
      · simp [later]
      · by_cases here : i = c
        · subst here
          simp [later, List.getD_eq_getElem?_getD, List.getElem?_set]
          split <;> rfl
        · have other : c ≠ i := Ne.symm here
          simp [later, here, List.getD_eq_getElem?_getD, other]

namespace Thins

variable {row row' row'' : Row} {columns : List Nat}

/-- A row is not thinned. -/
theorem refl (row : Row) : Thins row row := fun _ => Or.inl rfl

/-- Thinning twice is thinning. -/
theorem trans (first : Thins row row') (second : Thins row' row'') : Thins row row'' := by
  intro i
  rcases second i with same | null
  · rw [same]
    exact first i
  · exact Or.inr null

/-- Setting columns to NULL thins a row. -/
theorem nullColumns (columns : List Nat) (row : Row) :
    Thins row (nullColumns columns row) := by
  intro i
  rw [cell_nullColumns]
  split
  · exact Or.inr rfl
  · exact Or.inl rfl

/-- A key of which no column is NULL is the key of before. -/
theorem keyValues (thins : Thins row row') (full : ∀ i ∈ columns, (cell row' i).isNull = false) :
    keyValues columns row = MockOracle.keyValues columns row' := by
  refine List.map_congr_left fun i member => ?_
  rcases thins i with same | null
  · exact same.symm
  · have filled := full i member
    rw [null] at filled
    cases filled

end Thins

/-! ## One turn -/

namespace Turn

/-- The row is a child row that the turn hits. -/
def Touches (turn : Turn) (a : Address) : Prop :=
  turn.key.child = a.1 ∧ a.2 ∈ turn.hits.map Prod.fst

variable {turn : Turn} {a : Address} {row : Nat × Row}

/-- A turn touches the rows it hits. -/
theorem touches_of_hit (hit : row ∈ turn.hits) : turn.Touches (turn.key.child, row.1) :=
  ⟨rfl, List.mem_map_of_mem hit⟩

/-- A turn has deletions in its log, or rows set to NULL. -/
theorem log_edits_cascade (action : turn.key.onDelete = .cascade) :
    Edit.log turn.edits = turn.hits.map fun row => .delete turn.key.child row.1 row.2 := by
  simp only [edits, action, Edit.log, List.flatMap_map, Edit.entries]
  exact List.map_eq_flatMap.symm

/-- A turn of SET NULL logs an update of each row it hits. -/
theorem log_edits_setNull (action : turn.key.onDelete = .setNull) :
    Edit.log turn.edits =
      turn.hits.map fun row => RowChange.entry turn.key.child (turn.key.nulling row) := by
  simp only [edits, action, Txn.log_replacing, List.map_map]
  rfl

end Turn

/-- A row that a run of edits has logged is as one of its entries says. -/
theorem Edit.Run.exists_image {cat cat' : Catalog} {edits : List Edit} (run : Edit.Run cat edits cat')
    {change : Change} (member : change ∈ Edit.log edits) :
    ∃ last ∈ Edit.log edits, last.address = change.address ∧
      cat'.rowAt change.address = last.image := by
  have written : change.address ∈ ((Edit.log edits).map Change.write).map Prod.fst := by
    rw [Edit.addresses_writes]
    exact List.mem_map_of_mem member
  have write := @Overlay.exists_write _ _ _ _ cat.rowAt _ written
  rw [← run.rowAt] at write
  obtain ⟨last, among, equal⟩ := List.mem_map.mp write
  obtain ⟨address, image⟩ := Prod.mk.inj equal
  exact ⟨last, among, address, image.symm⟩

/-- A run of edits leaves the rows that it does not log. -/
theorem Edit.Run.kept {cat cat' : Catalog} {edits : List Edit} (run : Edit.Run cat edits cat')
    {a : Address} (absent : a ∉ (Edit.log edits).map Change.address) : cat'.rowAt a = cat.rowAt a := by
  rw [run.rowAt]
  apply Overlay.of_absent
  rw [Edit.addresses_writes]
  exact absent

namespace CascadeStep

variable {fks : List ForeignKeyRef} {start : Nat} {txn txn' : Txn} {turn : Turn}

/-- A turn with ON DELETE RESTRICT is refused if it hits a row. -/
theorem no_hits (step : CascadeStep fks start txn turn txn') (action : turn.key.onDelete = .restrict) :
    turn.hits = [] := by
  have cascades := step.cascades
  rw [Turn.hits, step.found]
  generalize turn.edits = edits at cascades
  cases cascades with
  | idle none_ => exact none_
  | cascade other => rw [action] at other; cases other
  | setNull other found nullable => rw [action] at other; cases other

/-- A turn logs the rows that it touches. -/
theorem touches_iff (step : CascadeStep fks start txn turn txn') {a : Address} :
    turn.Touches a ↔ a ∈ (Edit.log turn.edits).map Change.address := by
  obtain ⟨table, id⟩ := a
  cases action : turn.key.onDelete with
  | restrict =>
      have none_ := step.no_hits action
      simp [Turn.Touches, none_, Turn.edits, action]
  | cascade =>
      rw [Turn.log_edits_cascade action, List.map_map]
      simp [Turn.Touches, Change.address, Change.table, Change.id, Prod.ext_iff, and_comm]
  | setNull =>
      rw [Turn.log_edits_setNull action, List.map_map]
      simp [Turn.Touches, RowChange.entry, ForeignKeyRef.nulling, Change.address, Change.table,
        Change.id, Prod.ext_iff, and_comm]

/-- A turn leaves the rows that it does not touch. -/
theorem kept (step : CascadeStep fks start txn turn txn') {a : Address} (apart : ¬ turn.Touches a) :
    txn'.work.rowAt a = txn.work.rowAt a :=
  step.grows.run.kept fun member => apart (step.touches_iff.mpr member)

/-- A row that a turn deletes is gone. -/
theorem deleted (step : CascadeStep fks start txn turn txn') (action : turn.key.onDelete = .cascade)
    {a : Address} (touched : turn.Touches a) : txn'.work.rowAt a = none := by
  obtain ⟨change, member, rfl⟩ := List.mem_map.mp (step.touches_iff.mp touched)
  obtain ⟨last, among, -, image⟩ := step.grows.run.exists_image member
  rw [image]
  rw [Turn.log_edits_cascade action] at among
  obtain ⟨row, -, rfl⟩ := List.mem_map.mp among
  rfl

/-- A row that a turn sets to NULL has lost the columns of the foreign key. -/
theorem nulled (step : CascadeStep fks start txn turn txn') (action : turn.key.onDelete = .setNull)
    {row : Nat × Row} (hit : row ∈ turn.hits) :
    txn'.work.rowAt (turn.key.child, row.1) = some (nullColumns turn.key.columns row.2) := by
  have member : RowChange.entry turn.key.child (turn.key.nulling row) ∈ Edit.log turn.edits := by
    rw [Turn.log_edits_setNull action]
    exact List.mem_map_of_mem hit
  obtain ⟨last, among, same, image⟩ := step.grows.run.exists_image member
  have address : (RowChange.entry turn.key.child (turn.key.nulling row)).address =
      (turn.key.child, row.1) := rfl
  rw [address] at same image
  rw [image]
  rw [Turn.log_edits_setNull action] at among
  obtain ⟨other, hit', rfl⟩ := List.mem_map.mp among
  -- The rows of a table have different numbers.
  have id : other.1 = row.1 := congrArg Prod.snd same
  have only : other = row := by
    refine List.inj_on_of_nodup_map ?_ hit' hit id
    exact ForeignKeyRef.nodup_hits
  rw [only]
  rfl

/-- A hit is a row as the turn finds it. -/
theorem stored (step : CascadeStep fks start txn turn txn') {row : Nat × Row} (hit : row ∈ turn.hits) :
    txn.work.rowAt (turn.key.child, row.1) = some row.2 := by
  rw [Turn.hits, step.found] at hit
  obtain ⟨t, found⟩ : ∃ t, txn.work.table turn.key.child = some t := by
    cases found : txn.work.table turn.key.child with
    | some t => exact ⟨t, rfl⟩
    | none => simp [ForeignKeyRef.hits, ForeignKeyRef.childRows_of_missing found] at hit
  exact (Edit.rowAt_of_found found _).trans ((ForeignKeyRef.mem_hits found).mp hit).1

/-- The rows after a turn are rows of before, perhaps with fewer values. -/
theorem thins (step : CascadeStep fks start txn turn txn') {a : Address} {row' : Row}
    (found : txn'.work.rowAt a = some row') :
    ∃ row, txn.work.rowAt a = some row ∧ Thins row row' := by
  by_cases touched : turn.Touches a
  · obtain ⟨table, id⟩ := a
    obtain ⟨rfl, among⟩ := touched
    obtain ⟨row, hit, rfl⟩ := List.mem_map.mp among
    cases action : turn.key.onDelete with
    | restrict =>
        rw [step.no_hits action] at hit
        cases hit
    | cascade =>
        rw [step.deleted action (Turn.touches_of_hit hit)] at found
        cases found
    | setNull =>
        rw [step.nulled action hit] at found
        cases found
        exact ⟨row.2, step.stored hit, .nullColumns _ _⟩
  · exact ⟨row', (step.kept touched).symm.trans found, .refl row'⟩

end CascadeStep

/-! ## All turns -/

namespace CascadeRun

variable {fks : List ForeignKeyRef} {start : Nat} {txn txn' : Txn} {turns : List Turn}

/-- The rounds only thin the rows that they leave. -/
theorem thins (run : CascadeRun fks start txn turns txn') {a : Address} {row' : Row}
    (found : txn'.work.rowAt a = some row') :
    ∃ row, txn.work.rowAt a = some row ∧ Thins row row' := by
  induction run with
  | nil => exact ⟨row', found, .refl row'⟩
  | cons head _ ih =>
      obtain ⟨middle, foundMiddle, later⟩ := ih found
      obtain ⟨row, foundRow, first⟩ := head.thins foundMiddle
      exact ⟨row, foundRow, first.trans later⟩

/-- A row that no turn touches stays. -/
theorem kept (run : CascadeRun fks start txn turns txn') {a : Address}
    (untouched : ∀ turn ∈ turns, ¬ turn.Touches a) : txn'.work.rowAt a = txn.work.rowAt a := by
  induction run with
  | nil => rfl
  | cons head _ ih =>
      obtain ⟨here, later⟩ := List.forall_mem_cons.mp untouched
      exact (ih later).trans (head.kept here)

end CascadeRun

/-! ## Without deletions -/

/-- Some entry is a deletion. -/
def HasDelete (log : List Change) : Prop := ∃ table id old, Change.delete table id old ∈ log

/-- Without a deletion there is nothing to hit. -/
theorem ForeignKeyRef.hits_of_no_deletes {f : ForeignKeyRef} {work : Catalog} {window : List Change}
    (none_ : ¬ HasDelete window) : f.hits work window = [] := by
  refine ForeignKeyRef.hits_of_deleted_nil (List.filter_eq_nil_iff.mpr fun key member => ?_)
  obtain ⟨change, among, removes⟩ := List.mem_filterMap.mp member
  cases change with
  | insert table id values => cases removes
  | update table id values old => cases removes
  | delete table id old => exact absurd ⟨table, id, old, among⟩ none_

/-- A turn that hits nothing changes nothing. -/
theorem Turn.edits_of_no_hits {turn : Turn} (none_ : turn.hits = []) : turn.edits = [] := by
  unfold edits
  split
  · rfl
  · rw [none_, List.map_nil]
  · rw [none_, List.map_nil, Txn.replacing, if_pos rfl]

/-- A turn that logs nothing edits nothing. -/
theorem Turn.edits_of_log_nil {turn : Turn} (none_ : Edit.log turn.edits = []) : turn.edits = [] := by
  cases action : turn.key.onDelete with
  | restrict => simp [edits, action]
  | cascade =>
      rw [log_edits_cascade action, List.map_eq_nil_iff] at none_
      exact edits_of_no_hits none_
  | setNull =>
      rw [log_edits_setNull action, List.map_eq_nil_iff] at none_
      exact edits_of_no_hits none_

/-- Turns that log nothing leave the tables alone. -/
theorem CascadeRun.work_of_log {fks : List ForeignKeyRef} {turns : List Turn} {start : Nat}
    {txn txn' : Txn} (run : CascadeRun fks start txn turns txn') (same : txn'.log = txn.log) :
    txn'.work = txn.work := by
  have nothing : Edit.log (turns.flatMap Turn.edits) = [] := by
    have logged := run.grows.logged
    rw [same] at logged
    exact List.self_eq_append_right.mp logged
  have idle : turns.flatMap Turn.edits = [] := by
    rw [List.flatMap_eq_nil_iff]
    intro turn member
    refine Turn.edits_of_log_nil (List.eq_nil_iff_forall_not_mem.mpr fun change logged => ?_)
    have among : change ∈ Edit.log (turns.flatMap Turn.edits) := by
      rw [Edit.log, List.flatMap_assoc]
      exact List.mem_flatMap.mpr ⟨turn, member, logged⟩
    rw [nothing] at among
    cases among
  have grows := run.grows
  rw [idle] at grows
  exact grows.run.eq_of_nil

/-- Without a deletion there is nothing to cascade. -/
theorem ForeignKeyRef.Cascades.eq_nil {f : ForeignKeyRef} {txn : Txn} {window : List Change}
    {edits : List Edit} (cascades : f.Cascades txn.work window edits) (none_ : ¬ HasDelete window) :
    edits = [] :=
  cascades.edits_eq.trans (Turn.edits_of_no_hits (ForeignKeyRef.hits_of_no_deletes none_))

/-- Without deleted rows the rounds change nothing. -/
theorem CascadeRun.of_no_deletes {fks : List ForeignKeyRef} {turns : List Turn} {start : Nat}
    {txn txn' : Txn} (run : CascadeRun fks start txn turns txn')
    (none_ : ¬ HasDelete (txn.log.drop start)) :
    txn'.work = txn.work ∧ txn'.log = txn.log ∧ ∀ turn ∈ turns, turn.hits = [] := by
  induction run with
  | nil => exact ⟨rfl, rfl, by simp⟩
  | @cons first turn second rest last head _ ih =>
      have nothing : turn.hits = [] := ForeignKeyRef.hits_of_no_deletes
        fun ⟨table, id, old, member⟩ => none_ ⟨table, id, old, head.inside member⟩
      have grows := head.grows
      rw [Turn.edits_of_no_hits nothing] at grows
      have work : second.work = first.work := grows.run.eq_of_nil
      have log : second.log = first.log := by rw [grows.logged, Edit.log_nil, List.append_nil]
      obtain ⟨workLast, logLast, later⟩ := ih (by rwa [log])
      exact ⟨workLast.trans work, logLast.trans log, List.forall_mem_cons.mpr ⟨nothing, later⟩⟩

end MockOracle
