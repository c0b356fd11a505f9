import MockOracle.Eval.StoreValue
import MockOracle.Session.Invariant
import MockOracle.Session.Cascade

/-!
# Stored values conform to their columns

Rows that INSERT and UPDATE evaluate to have passed `storeValue`, cascades write NULLs, and
undoing writes rows back that were there, so a transaction's catalog and log conform to the
columns of its tables. A replayed log conforms where the columns still have the types for
which its rows were stored.
-/

namespace MockOracle

open Std Semantics

variable {dates : DateFormats}

namespace RowConforms

variable {columns : List TableColumn} {row : Row}

/-- A row still conforms with another value that fits the column. -/
theorem set (conforms : RowConforms dates columns row) {i : Nat} {v : Value}
    (fits : ∀ c, columns[i]? = some c → v.Conforms dates c) :
    RowConforms dates columns (row.set i v) := by
  unfold RowConforms at conforms ⊢
  induction conforms generalizing i with
  | nil => exact .nil
  | cons head tail ih =>
      cases i with
      | zero => exact .cons (fits _ rfl) tail
      | succ i => exact .cons head (ih fits)

/-- A row still conforms with NULLs in it. -/
theorem nullColumns (conforms : RowConforms dates columns row) (positions : List Nat) :
    RowConforms dates columns (nullColumns positions row) := by
  unfold MockOracle.nullColumns
  induction positions generalizing row with
  | nil => exact conforms
  | cons i rest ih => exact ih (conforms.set fun _ _ => Or.inl rfl)

/-- A row conforms to other columns of the same types. -/
theorem of_types (conforms : RowConforms dates columns row) {others : List TableColumn}
    (same : others.map (·.sqlType) = columns.map (·.sqlType)) : RowConforms dates others row := by
  unfold RowConforms at conforms ⊢
  induction conforms generalizing others with
  | nil =>
      rw [List.map_nil, List.map_eq_nil_iff] at same
      rw [same]
      exact .nil
  | cons head tail ih =>
      obtain ⟨first, rest, rfl, type, types⟩ := List.map_eq_cons_iff.mp same
      exact .cons (head.of_type type) (ih types)

end RowConforms

/-- The rows of a log entry conform to the columns of its table. -/
def Change.Conforms (dates : DateFormats) (cat : Catalog) (change : Change) : Prop :=
  ∀ t, cat.table change.table = some t → ∀ row ∈ change.carried, RowConforms dates t.columns row

/-! ## Operations on tables -/

namespace Table.Conforms

variable {t : Table} (conforms : t.Conforms dates)

include conforms

/-- Inserting a row that conforms keeps a table conforming. -/
theorem insert (id : Nat) {values : Row} (fits : RowConforms dates t.columns values) :
    (t.insert id values).2.Conforms dates := by
  intro other row found
  rw [columns_of_schema (t.schema_insert id values)]
  rcases t.rows_insert id values with rows | rows <;> rw [rows] at found
  · rw [ExtTreeMap.getElem?_insert] at found
    split at found
    · cases found
      exact fits
    · exact conforms other row found
  · exact conforms other row found

/-- Deleting a row keeps a table conforming. -/
theorem delete (id : Nat) : (t.delete id).2.Conforms dates := by
  intro other row found
  rw [columns_of_schema (t.schema_delete id)]
  rw [rows_delete, ExtTreeMap.getElem?_erase] at found
  split at found
  · cases found
  · exact conforms other row found

/-- Updating rows to ones that conform keeps a table conforming. -/
theorem update (covers : t.Covers) {changes : List (Nat × Row)}
    (fits : ∀ change ∈ changes, RowConforms dates t.columns change.2) :
    (t.update changes).2.Conforms dates := by
  intro id row found
  rw [columns_of_schema (t.schema_update changes)]
  rcases rows_update covers found with kept | ⟨member, _⟩
  · exact conforms id row kept
  · exact fits _ member

end Table.Conforms

namespace Catalog.Conforms

variable {cat cat' : Catalog} (conforms : cat.Conforms dates)

include conforms

/-- A table that conforms can take the place of another. -/
theorem setTable {name : String} {t : Table} (new : t.Conforms dates) :
    (cat.setTable name t).Conforms dates := by
  intro other u found
  rw [table_setTable] at found
  split at found
  · cases found
    exact new
  · exact conforms other u found

/-- Whether a catalog conforms is a matter of its tables. -/
theorem of_tables (same : cat'.tables = cat.tables) : cat'.Conforms dates := by
  intro name t found
  rw [table, same] at found
  exact conforms name t found

/-- Modifying a table so that it conforms keeps a catalog conforming. -/
theorem modifyTable {name : String} {f : Table → Table}
    (keeps : ∀ t, cat.table name = some t → t.Conforms dates → (f t).Conforms dates) :
    (cat.modifyTable name f).Conforms dates := by
  cases found : cat.table name with
  | none =>
      rw [Catalog.modifyTable, found]
      exact conforms
  | some t =>
      rw [modifyTable_of_found f found]
      exact conforms.setTable (keeps t found (conforms name t found))

end Catalog.Conforms

/-- There is nothing in an empty catalog that would not conform. -/
theorem Catalog.conforms_empty : Catalog.empty.Conforms dates := by
  intro name t found
  simp [Catalog.empty, Catalog.table] at found

/-- A log entry conforms in every catalog with this schema. -/
theorem Change.Conforms.transfer {cat cat' : Catalog} {change : Change}
    (conforms : change.Conforms dates cat) (same : cat'.schema = cat.schema) :
    change.Conforms dates cat' := by
  intro t found row member
  have schemas := congrFun same change.table
  rw [Catalog.schema, Catalog.schema, found, Option.map_some] at schemas
  obtain ⟨u, foundU, equal⟩ := Option.map_eq_some_iff.mp schemas.symm
  rw [Table.columns_of_schema equal.symm]
  exact conforms u foundU row member

/-! ## What statements write -/

/-- An evaluator that stores only values that conform. -/
def Evaluator.Stores (ev : Evaluator) (dates : DateFormats) : Prop :=
  ∀ {env table col v w}, ev.storeValue env table col v = .ok w → w.Conforms dates col

/-- The evaluator with the engine's conversion for storage. -/
def Evaluator.storing (ev : Evaluator) (dates : DateFormats) : Evaluator :=
  { ev with storeValue := fun env table col v => col.storeValue dates env env.user table v }

section Evaluation

variable {ctx : Dml} {ex : Ex} {t : Table} {st st' : EvalState} (stores : ctx.ev.Stores dates)

include stores

/-- What is stored in a column conforms to it. -/
theorem storeValue_conforms {table : String} {column : TableColumn} {v w : Value}
    (success : storeValue ctx table column v st = .ok w st') : w.Conforms dates column := by
  obtain ⟨current, _, _, lifted⟩ := bind_ok success
  unfold EvalM.lift at lifted
  split at lifted
  · next stored =>
      cases lifted
      exact stores stored
  · cases lifted

/-- A cell of an INSERT conforms to its column: the value given, the default, or the identity. -/
theorem insertCell_conforms {column : TableColumn} {given : Option Value} {w : Value}
    (success : insertCell ctx ex t column given st = .ok w st') : w.Conforms dates column := by
  have last : ∀ {x : EvalM Value}, (x >>= storeValue ctx t.name column) st = .ok w st' →
      w.Conforms dates column := by
    intro x success
    obtain ⟨v, _, _, stored⟩ := bind_ok success
    exact storeValue_conforms stores stored
  unfold insertCell at success
  cases given with
  | some v =>
      simp only at success
      split at success <;> exact last success
  | none =>
      simp only at success
      split at success
      · exact last success
      · cases default : column.default with
        | none =>
            rw [default] at success
            exact last success
        | some d =>
            rw [default] at success
            exact last success

/-- The row of an INSERT conforms to the columns of the table. -/
theorem insertRow_conforms {targets : List Nat} {src full : Row}
    (success : insertRow ctx ex t targets src st = .ok full st') :
    RowConforms dates t.columns full := by
  obtain ⟨row, middle, filled, rest⟩ := bind_ok success
  obtain ⟨_, after, checked, last⟩ := bind_ok rest
  rw [(pure_ok last).1]
  have each := (forEach_ok filled).imp fun entry v ⟨_, _, cell⟩ => insertCell_conforms stores cell
  have columns : t.columns = t.columns.zipIdx.map Prod.fst := by simp
  rw [RowConforms, columns, List.forall₂_map_left_iff]
  exact each

/-- All rows of an INSERT conform to the columns of the table. -/
theorem evalInsert_conforms {ins : Insert} {result : List Row × List Row}
    (success : evalInsert ctx ex t ins st = .ok result st') :
    ∀ row ∈ result.1, RowConforms dates t.columns row := by
  obtain ⟨targets, _, _, rest⟩ := bind_ok success
  obtain ⟨rows, _, filled, rest⟩ := bind_ok rest
  obtain ⟨returned, _, _, last⟩ := bind_ok rest
  rw [(pure_ok last).1]
  intro row member
  cases source : ins.source with
  | values exprs =>
      rw [source] at filled
      obtain ⟨_, _, body⟩ := withRow_ok filled
      obtain ⟨_, _, _, rest⟩ := bind_ok body
      obtain ⟨src, _, _, filled⟩ := bind_ok rest
      obtain ⟨_, _, before, after, inserted⟩ := forEach_mem filled member
      exact insertRow_conforms stores inserted
  | query q =>
      rw [source] at filled
      obtain ⟨rel, _, _, rest⟩ := bind_ok filled
      obtain ⟨_, _, _, filled⟩ := bind_ok rest
      obtain ⟨_, _, before, after, inserted⟩ := forEach_mem filled member
      obtain ⟨_, _, body⟩ := withRow_ok inserted
      exact insertRow_conforms stores body

/-- The assigned row of an UPDATE conforms to the columns of the table. -/
theorem assignCells_conforms {cols : List RelCol} {old row values : Row}
    {assignments : List ((String × Expr) × Nat)} (conforms : RowConforms dates t.columns row)
    (success : assignCells ctx ex t cols old assignments row st = .ok values st') :
    RowConforms dates t.columns values := by
  induction assignments generalizing st row with
  | nil =>
      rw [(pure_ok success).1]
      exact conforms
  | cons assignment rest ih =>
      obtain ⟨v, _, _, later⟩ := bind_ok success
      obtain ⟨row', _, stored, last⟩ := bind_ok later
      refine ih ?_ last
      unfold storeCell at stored
      cases here : t.columns[assignment.2]? with
      | none =>
          rw [here] at stored
          rw [(pure_ok stored).1]
          exact conforms
      | some column =>
          rw [here] at stored
          obtain ⟨w, _, converted, result⟩ := bind_ok stored
          rw [(pure_ok result).1]
          refine conforms.set fun c at_ => ?_
          rw [here] at at_
          cases at_
          exact storeValue_conforms stores converted

/-- All rows of an UPDATE conform to the columns of the table. -/
theorem evalUpdate_conforms {upd : Update} {result : List RowChange × List Row}
    (conforms : t.Conforms dates) (success : evalUpdate ctx ex t upd st = .ok result st') :
    ∀ r ∈ result.1, RowConforms dates t.columns r.values := by
  have stored := (evalUpdate_ok success).2
  obtain ⟨targets, _, _, rest⟩ := bind_ok success
  obtain ⟨rows, _, matched, rest⟩ := bind_ok rest
  obtain ⟨changes, _, changed, rest⟩ := bind_ok rest
  obtain ⟨returned, _, _, last⟩ := bind_ok rest
  rw [(pure_ok last).1] at stored ⊢
  intro r member
  obtain ⟨row, among, _, _, updated⟩ := forEach_mem changed member
  have same := (updateRow_ok updated).1
  obtain ⟨_, _, body⟩ := withRow_ok updated
  obtain ⟨values, _, assigned, rest⟩ := bind_ok body
  obtain ⟨_, _, _, last⟩ := bind_ok rest
  have found := (stored r member).1
  rw [(pure_ok last).1] at found ⊢
  exact assignCells_conforms stores (conforms _ _ found) assigned

/-- The rows that a statement evaluates to conform to the table they are for. -/
theorem writes_conforms {state : DmlState} {stmt : DmlStatement}
    (conforms : state.txn.work.Conforms dates) {table : String} {row : Row}
    (writes : ctx.Writes stmt state table row) {u : Table}
    (found : state.txn.work.table table = some u) : RowConforms dates u.columns row := by
  cases stmt with
  | insert ins =>
      obtain ⟨rfl, v, rows, returned, eval, foundV, evaluated, member⟩ := writes
      rw [found] at foundV
      cases foundV
      exact evalInsert_conforms stores evaluated row member
  | update upd =>
      obtain ⟨rfl, v, changes, returned, eval, foundV, evaluated, r, member, rfl⟩ := writes
      rw [found] at foundV
      cases foundV
      exact evalUpdate_conforms stores (conforms _ _ found) evaluated r member
  | delete del => exact writes.elim

end Evaluation

/-! ## Edits -/

/-- The rows that an edit writes conform to the columns of its table. -/
def Edit.Conforms (dates : DateFormats) (cat : Catalog) (edit : Edit) : Prop :=
  ∀ t, cat.table edit.table = some t → ∀ change ∈ edit.entries, ∀ row, change.image = some row →
    RowConforms dates t.columns row

/-- An edit conforms in every catalog with this schema. -/
theorem Edit.Conforms.transfer {cat cat' : Catalog} {edit : Edit}
    (conforms : edit.Conforms dates cat) (same : cat'.schema = cat.schema) :
    edit.Conforms dates cat' := by
  intro t found change member row image
  have schemas := congrFun same edit.table
  rw [Catalog.schema, Catalog.schema, found, Option.map_some] at schemas
  obtain ⟨u, foundU, equal⟩ := Option.map_eq_some_iff.mp schemas.symm
  rw [Table.columns_of_schema equal.symm]
  exact conforms u foundU change member row image

/-- An edit that writes conforming rows keeps a catalog conforming, and so do its entries. -/
theorem Edit.Applies.conforms {cat cat' : Catalog} {edit : Edit} (applies : Edit.Applies cat edit cat')
    (covers : cat.Covers) (conforms : cat.Conforms dates) (written : edit.Conforms dates cat) :
    cat'.Conforms dates ∧ ∀ change ∈ edit.entries, change.Conforms dates cat := by
  cases applies with
  | @insert table id values t t' found fresh width success =>
      have fits := written t found _ (List.mem_singleton_self _) values rfl
      refine ⟨conforms.setTable ?_, ?_⟩
      · have inserted := (conforms _ _ found).insert id fits
        rw [success] at inserted
        exact inserted
      · intro change member u foundU row carried
        cases List.mem_singleton.mp member
        rw [Change.table, found] at foundU
        cases foundU
        rw [List.mem_singleton.mp carried]
        exact fits
  | @delete table id old t found stored =>
      refine ⟨conforms.setTable ((conforms _ _ found).delete id), ?_⟩
      intro change member u foundU row carried
      cases List.mem_singleton.mp member
      rw [Change.table, found] at foundU
      cases foundU
      rw [List.mem_singleton.mp carried]
      exact conforms _ _ found _ _ stored
  | @update table rows t t' found replaces =>
      have fits : ∀ r ∈ rows, RowConforms dates t.columns r.values := fun r member =>
        written t found _ (List.mem_map_of_mem member) r.values rfl
      refine ⟨conforms.setTable ?_, ?_⟩
      · rw [replaces.outcome]
        refine (conforms _ _ found).update (covers _ _ found) fun change member => ?_
        obtain ⟨r, among, rfl⟩ := List.mem_map.mp member
        exact fits r among
      · intro change member u foundU row carried
        obtain ⟨r, among, rfl⟩ := List.mem_map.mp member
        have foundT : cat.table table = some u := foundU
        rw [found] at foundT
        cases foundT
        simp only [RowChange.entry, Change.carried, List.mem_cons, List.not_mem_nil,
          or_false] at carried
        rcases carried with rfl | rfl
        · exact fits r among
        · exact conforms _ _ found _ _ (replaces.stored r among)

/-- Edits that write rows that conform keep a catalog conforming, and log such rows. -/
theorem Edit.Run.conforms {cat cat' : Catalog} {edits : List Edit} (run : Edit.Run cat edits cat')
    (covers : cat.Covers) (conforms : cat.Conforms dates)
    (written : ∀ edit ∈ edits, edit.Conforms dates cat) :
    cat'.Conforms dates ∧ ∀ change ∈ Edit.log edits, change.Conforms dates cat := by
  induction run with
  | nil => exact ⟨conforms, by simp⟩
  | @cons first edit second rest last head tail ih =>
      obtain ⟨after, entries⟩ := head.conforms covers conforms (written edit List.mem_cons_self)
      obtain ⟨later, logged⟩ := ih (head.covers covers) after fun other member =>
        (written other (List.mem_cons_of_mem _ member)).transfer head.frame.1
      refine ⟨later, fun change member => ?_⟩
      rcases List.mem_append.mp member with here | there
      · exact entries change here
      · exact (logged change there).transfer head.frame.1.symm

/-! ## Transactions -/

/-- The private catalog and the log of a transaction conform. -/
structure Txn.Conforms (dates : DateFormats) (txn : Txn) : Prop where
  work : txn.work.Conforms dates
  log : ∀ change ∈ txn.log, change.Conforms dates txn.work

namespace Txn.Conforms

variable {txn txn' : Txn}

/-- A transaction that grows by edits that conform still conforms. -/
theorem grows {edits : List Edit} (conforms : txn.Conforms dates) (covers : txn.work.Covers)
    (grows : txn.Grows edits txn') (written : ∀ edit ∈ edits, edit.Conforms dates txn.work) :
    txn'.Conforms dates := by
  obtain ⟨work, entries⟩ := Edit.Run.conforms grows.run covers conforms.work written
  refine ⟨work, fun change member => ?_⟩
  rw [grows.logged] at member
  rcases List.mem_append.mp member with old | new
  · exact (conforms.log change old).transfer grows.schema
  · exact (entries change new).transfer grows.schema

/-- Cascades write NULLs. -/
theorem cascade {fks : List ForeignKeyRef} {start : Nat} {turn : Turn}
    (conforms : txn.Conforms dates) (covers : txn.work.Covers)
    (step : CascadeStep fks start txn turn txn') : txn'.Conforms dates := by
  refine conforms.grows covers step.grows fun edit member => ?_
  unfold Turn.edits at member
  split at member
  · cases member
  · obtain ⟨row, -, rfl⟩ := List.mem_map.mp member
    intro t found change among values image
    cases List.mem_singleton.mp among
    cases image
  · unfold Txn.replacing at member
    split at member
    · cases member
    · cases List.mem_singleton.mp member
      intro t found change among values image
      obtain ⟨r, hit, rfl⟩ := List.mem_map.mp among
      obtain ⟨row, memberRow, rfl⟩ := List.mem_map.mp hit
      cases image
      have stored := (Edit.rowAt_of_found found row.1).symm.trans (step.stored memberRow)
      exact (conforms.work _ _ found _ _ stored).nullColumns turn.key.columns

/-- The cascades of foreign keys keep a transaction conforming: they delete rows and write NULLs. -/
theorem cascades {fks : List ForeignKeyRef} {turns : List Turn} {start : Nat}
    (conforms : txn.Conforms dates) (covers : txn.work.Covers)
    (run : CascadeRun fks start txn turns txn') : txn'.Conforms dates := by
  have both : txn'.Conforms dates ∧ txn'.work.Covers := by
    apply run.preserves
    · exact fun holds step => ⟨holds.1.cascade holds.2 step, step.grows.covers holds.2⟩
    · exact ⟨conforms, covers⟩
  exact both.1

end Txn.Conforms

/-- A statement and the enforcement after it keep a transaction conforming. -/
theorem run_conforms {ctx : Dml} (stores : ctx.ev.Stores dates) {st : DmlState}
    (sound : st.txn.work.Sound st.nextRowId) (conforms : st.txn.Conforms dates)
    (stmt : DmlStatement) : (ctx.run stmt st).state.txn.Conforms dates := by
  have first : (ctx.statement stmt st).state.txn.Conforms dates := by
    cases stmt with
    | insert ins =>
        obtain ⟨inserted, extended, written⟩ := @insert_extends ctx st sound ins
        refine conforms.grows sound.covers extended.grows fun edit member => ?_
        obtain ⟨row, among, rfl⟩ := List.mem_map.mp member
        intro t found change entry values image
        cases List.mem_singleton.mp entry
        cases image
        exact writes_conforms stores conforms.work (written row among) found
    | update upd =>
        obtain ⟨changes, extended, written⟩ := @update_extends ctx st sound upd
        refine conforms.grows sound.covers extended.grows fun edit member => ?_
        unfold Txn.replacing at member
        split at member
        · cases member
        · cases List.mem_singleton.mp member
          intro t found change entry values image
          obtain ⟨r, among, rfl⟩ := List.mem_map.mp entry
          cases image
          exact writes_conforms stores conforms.work (written r among) found
    | delete del =>
        obtain ⟨rows, extended, -⟩ := @delete_extends ctx st sound del
        refine conforms.grows sound.covers extended.grows fun edit member => ?_
        obtain ⟨row, -, rfl⟩ := List.mem_map.mp member
        intro t found change entry values image
        cases List.mem_singleton.mp entry
        cases image
  obtain ⟨edits, extended⟩ := statement_extends ctx sound stmt
  unfold Dml.run
  cases outcome : ctx.statement stmt st with
  | error e after =>
      rw [outcome] at first
      exact first
  | ok r after =>
      rw [outcome] at first extended
      have soundAfter : after.txn.work.Sound after.nextRowId := extended.sound sound
      have run :=
        enforceForeignKeys_run after.eval.env.user st.txn.log.length soundAfter.covers
      have enforced := first.cascades soundAfter.covers run
      simp only
      split
      · next equal =>
          rw [equal] at enforced
          exact enforced
      · next equal =>
          rw [equal] at enforced
          exact enforced

/-! ## Undo and replay -/

/-- Undoing entries that conform keeps a catalog conforming, however far it goes. -/
theorem undoLoop_conforms {bound : Nat} {cat : Catalog} (fuel : Nat) {stack : List Change}
    (sound : cat.Sound bound) (fits : ∀ change ∈ stack, change.Fits bound cat)
    (conforms : cat.Conforms dates) (logged : ∀ change ∈ stack, change.Conforms dates cat) :
    (undoLoop fuel stack cat).Conforms dates := by
  induction fuel generalizing stack cat with
  | zero => exact conforms
  | succ fuel ih =>
      -- A round of the loop keeps the schema, so the remaining entries still conform.
      have continue_ : ∀ {rest : List Change} {middle : Catalog}, rest ⊆ stack →
          cat.Keeps bound middle → middle.Conforms dates →
          (undoLoop fuel rest middle).Conforms dates := by
        intro rest middle among keeps after
        refine ih (keeps.sound sound) (fun change member => ?_) after fun change member => ?_
        · exact (fits change (among member)).transfer (Nat.le_refl _) keeps.schema
        · exact (logged change (among member)).transfer keeps.schema
      match stack with
      | [] => exact conforms
      | .insert table id values :: rest =>
          refine continue_ (List.subset_cons_self _ _) ?_ ?_
          · exact .modifyTable (fun t _ => t.schema_delete id) fun t _ sound => sound.delete id
          · exact conforms.modifyTable fun t _ holds => holds.delete id
      | .delete table id old :: rest =>
          have here := fits _ List.mem_cons_self
          refine continue_ (List.subset_cons_self _ _) ?_ ?_
          · refine .modifyTable (fun t _ => t.schema_insert id old) fun t found sound => ?_
            obtain ⟨used, u, foundU, carried⟩ := here
            rw [Change.table, found] at foundU
            cases foundU
            exact sound.insert used (carried old (List.mem_singleton_self _))
          · refine conforms.modifyTable fun t found holds => holds.insert id ?_
            exact logged _ List.mem_cons_self t found old (List.mem_singleton_self _)
      | .update table id values old :: rest =>
          have popped := popUpdates_mem table rest
          have olds : ∀ change ∈ (id, old) :: (popUpdates table rest).1, ∃ values',
              Change.update table change.1 values' change.2 ∈ Change.update table id values old :: rest := by
            intro change member
            rcases List.mem_cons.mp member with rfl | later
            · exact ⟨values, List.mem_cons_self⟩
            · obtain ⟨values', among⟩ := popped.1 change later
              exact ⟨values', List.mem_cons_of_mem _ among⟩
          refine continue_ (List.subset_cons_of_subset _ popped.2) ?_ ?_
          · refine .modifyTable (fun t _ => t.schema_update _) fun t found sound => ?_
            refine sound.update fun change member => ?_
            obtain ⟨values', among⟩ := olds change member
            obtain ⟨_, u, foundU, carried⟩ := fits _ among
            rw [Change.table, found] at foundU
            cases foundU
            exact carried change.2 (by simp [Change.carried])
          · refine conforms.modifyTable fun t found holds => ?_
            refine holds.update (sound _ _ found).covers fun change member => ?_
            obtain ⟨values', among⟩ := olds change member
            exact logged _ among t found change.2 (by simp [Change.carried])

/-- Undoing changes keeps a transaction conforming. -/
theorem Txn.Conforms.undo {db : Database} {txn : Txn} (valid : txn.Valid db)
    (conforms : txn.Conforms dates) (keep : Nat) : (undo txn keep).Conforms dates := by
  have part : ∀ change ∈ (txn.log.drop keep).reverse, change ∈ txn.log := fun change member =>
    List.mem_of_mem_drop (List.mem_reverse.mp member)
  have keeps : txn.work.Keeps db.nextRowId (MockOracle.undo txn keep).work :=
    undoLoop_keeps _ fun change member => valid.fits change (part change member)
  refine ⟨?_, fun change member => ?_⟩
  · exact undoLoop_conforms _ valid.work_sound (fun change member => valid.fits change
      (part change member)) conforms.work fun change member => conforms.log change (part change member)
  · exact (conforms.log change (List.mem_of_mem_take member)).transfer keeps.schema

/-- Where a row of the log goes to a table of the same width, the table has the types that the
row was stored for. -/
def Txn.TypesKept (txn : Txn) (committed : Catalog) : Prop :=
  ∀ change ∈ txn.log, change.image ≠ none → ∀ t u, committed.table change.table = some t →
    txn.work.table change.table = some u → t.columns.length = u.columns.length →
    t.columns.map (·.sqlType) = u.columns.map (·.sqlType)

/-- Replaying an entry keeps a catalog conforming, when its row conforms to the table there. -/
theorem Replays.conforms {bound : Nat} {cat next : Catalog} {change : Change}
    (replays : Replays cat change next) (sound : cat.Sound bound) (conforms : cat.Conforms dates)
    (fits : ∀ t row, cat.table change.table = some t → change.image = some row →
      t.columns.length = row.length → RowConforms dates t.columns row) : next.Conforms dates := by
  cases replays with
  | gone missing => exact conforms
  | misfit found image width => exact conforms
  | @insert table id values t t' found width success =>
      have inserted := (conforms _ _ found).insert id (fits t values found rfl width)
      rw [success] at inserted
      exact conforms.setTable inserted
  | @update table id values old t t' found width success =>
      have updated : (t.update [(id, values)]).2.Conforms dates := by
        refine (conforms _ _ found).update (sound _ _ found).covers fun change member => ?_
        rw [List.mem_singleton.mp member]
        exact fits t values found rfl width
      rw [success] at updated
      exact conforms.setTable updated
  | @delete table id old t found => exact conforms.setTable ((conforms _ _ found).delete id)

/-- Replaying a log keeps a catalog conforming when its rows fit the types they land on. -/
theorem replay_conforms {bound : Nat} {user : String} {cat next : Catalog} {log : List Change}
    (used : ∀ change ∈ log, change.id < bound) (sound : cat.Sound bound)
    (conforms : cat.Conforms dates)
    (fits : ∀ change ∈ log, ∀ t row, cat.table change.table = some t → change.image = some row →
      t.columns.length = row.length → RowConforms dates t.columns row)
    (success : replay user log cat = .ok next) : next.Conforms dates := by
  induction log generalizing cat with
  | nil =>
      cases success
      exact conforms
  | cons change rest ih =>
      simp only [replay] at success
      split at success
      · next middle first =>
          have replays := replayChange_replays first
          have keeps := replays.keeps (used change List.mem_cons_self)
          refine ih (fun change member => used change (List.mem_cons_of_mem _ member))
            (keeps.sound sound) (replays.conforms sound conforms (fits change List.mem_cons_self)) ?_
            success
          intro other member t row found image width
          have schemas := congrFun keeps.schema other.table
          rw [Catalog.schema, Catalog.schema, found, Option.map_some] at schemas
          obtain ⟨u, foundU, equal⟩ := Option.map_eq_some_iff.mp schemas.symm
          rw [Table.columns_of_schema equal.symm] at width ⊢
          exact fits other (List.mem_cons_of_mem _ member) u row foundU image width
      · cases success

/-- A commit whose rows go to tables of their types publishes a conforming catalog. -/
theorem Txn.Conforms.publish {db : Database} {txn : Txn} {user : String} {state : Catalog}
    (valid : txn.Valid db) (sound : db.state.Sound db.nextRowId) (conforms : txn.Conforms dates)
    (committed : db.state.Conforms dates) (kept : txn.TypesKept db.state)
    (success : txn.publish user db.state = .ok state) : state.Conforms dates := by
  unfold Txn.publish at success
  split at success
  · cases success
    exact conforms.work.of_tables rfl
  · split at success
    · next next_ replayed =>
        cases success
        have after : next_.Conforms dates := by
          refine replay_conforms (fun change member => (valid.fits change member).1) sound committed
            (fun change member t row found image width => ?_) replayed
          obtain ⟨-, u, foundU, carried⟩ := valid.fits change member
          have among : row ∈ change.carried := by
            cases change with
            | insert table id values =>
                cases image
                exact List.mem_singleton_self _
            | update table id values old =>
                cases image
                exact List.mem_cons_self
            | delete table id old => cases image
          refine (conforms.log change member u foundU row among).of_types ?_
          refine kept change member (by rw [image]; exact Option.some_ne_none _) t u found foundU ?_
          rw [width, carried row among]
        exact after.of_tables rfl
    · cases success

end MockOracle
