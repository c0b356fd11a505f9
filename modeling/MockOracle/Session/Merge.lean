import MockOracle.Session.References
import MockOracle.Session.Replay
import MockOracle.Session.RowIds

/-!
# What a replay leaves, and whether it is consistent

Replay checks unique keys only. So a catalog that satisfies its constraints, and a log whose
transaction satisfied them on its own copy, can give a catalog that does not: a row that the log
writes meets a constraint added meanwhile, or it references a parent that is gone, or the log
removes the parent of a row that was added meanwhile.

Which rows a replay leaves can be read off the catalog and the log: those of the catalog that no
entry takes effect on (`Stays`), and the last ones that the log writes (`Lands`). This needs that
a log does not touch a row again once it has deleted it.
-/

namespace MockOracle

open Std Semantics

/-! ## Logs do not touch deleted rows -/

/-- Rows that the log has deleted are gone, and no later entry is for them. -/
structure DeletesLast (work : Catalog) (log : List Change) : Prop where
  gone : ∀ change ∈ log, change.image = none → work.rowAt change.address = none
  last : log.Pairwise fun change later => change.address = later.address → change.image ≠ none

/-- Only an insert replaces no row. -/
theorem Change.inserted_of_old {change : Change} (none_ : change.old = none) :
    change.id ∈ Change.inserted [change] := by
  cases change with
  | insert table id values => exact List.mem_singleton_self _
  | update table id values old => cases none_
  | delete table id old => cases none_

/-- More changes insert more. -/
theorem Change.inserted_subset {log more : List Change} (sub : log ⊆ more) :
    Change.inserted log ⊆ Change.inserted more := by
  intro id member
  obtain ⟨table, values, entry⟩ := Change.mem_inserted.mp member
  exact Change.mem_inserted.mpr ⟨table, values, sub entry⟩

namespace DeletesLast

variable {work work' : Catalog} {log : List Change}

/-- An empty log deletes last. -/
theorem nil (work : Catalog) : DeletesLast work [] := ⟨by simp, .nil⟩

/-- An edit inserts under new ids, and otherwise needs its rows. -/
theorem applies (holds : DeletesLast work log) {edit : Edit} (step : Edit.Applies work edit work')
    (fresh : ∀ change ∈ log, change.id ∉ Change.inserted edit.entries) :
    DeletesLast work' (log ++ edit.entries) := by
  have apart : ∀ change ∈ log, change.image = none → ∀ later ∈ edit.entries,
      change.address ≠ later.address := by
    intro change member deletes later new same
    have missing := holds.gone change member deletes
    rw [same, step.stored later new] at missing
    have sameId : change.id = later.id := congrArg Prod.snd same
    refine fresh change member ?_
    rw [sameId]
    exact Change.inserted_subset (List.cons_subset.mpr ⟨new, List.nil_subset _⟩)
      (Change.inserted_of_old missing)
  constructor
  · intro change member deletes
    rcases List.mem_append.mp member with old | new
    · have untouched : change.address ∉ edit.entries.map Change.address := by
        intro touched
        obtain ⟨later, new, same⟩ := List.mem_map.mp touched
        exact apart change old deletes later new same.symm
      exact (step.kept untouched).trans (holds.gone change old deletes)
    · exact (step.landed new).trans deletes
  · refine List.pairwise_append.mpr ⟨holds.last, ?_, fun change old later new same deletes => ?_⟩
    · refine (List.pairwise_map.mp step.nodup).imp ?_
      exact fun different same => absurd same different
    · exact apart change old deletes later new same

/-- Edits that run on keep the log deleting last, if the rows they insert are fresh. -/
theorem run (holds : DeletesLast work log) {edits : List Edit} (steps : Edit.Run work edits work')
    (fresh : ∀ change ∈ log, change.id ∉ Change.inserted (Edit.log edits))
    (rows : ∀ id, work.HasRow id → id ∉ Change.inserted (Edit.log edits))
    (distinct : (Change.inserted (Edit.log edits)).Nodup) :
    DeletesLast work' (log ++ Edit.log edits) := by
  induction steps generalizing log with
  | nil => simpa using holds
  | @cons first edit second rest last head _ ih =>
      rw [Edit.log_cons, Change.inserted_append] at fresh rows distinct
      obtain ⟨-, distinctRest, disjoint⟩ := List.nodup_append.mp distinct
      have later : ∀ id, first.HasRow id ∨ id ∈ Change.inserted edit.entries →
          id ∉ Change.inserted (Edit.log rest) := by
        rintro id (before | new) member
        · exact rows id before (List.mem_append_right _ member)
        · exact disjoint id new id member rfl
      rw [Edit.log_cons, ← List.append_assoc]
      refine ih (holds.applies head fun change member inserted => ?_) (fun change member => ?_)
        (fun id has => later id (head.hasRow has)) distinctRest
      · exact fresh change member (List.mem_append_left _ inserted)
      · rcases List.mem_append.mp member with old | new
        · exact fun inserted => fresh change old (List.mem_append_right _ inserted)
        · exact later change.id (head.named new)

end DeletesLast

/-- A missing row is still missing if its table has only got other rows. -/
theorem Catalog.rowAt_modifyTable_missing {cat : Catalog} {a : Address}
    (missing : cat.rowAt a = none) {name : String} {f : Table → Table}
    (rows : name = a.1 → ∀ t row, (f t).rows[a.2]? = some row → ∃ old, t.rows[a.2]? = some old) :
    (cat.modifyTable name f).rowAt a = none := by
  cases found : cat.table name with
  | none => simpa [Catalog.modifyTable, found] using missing
  | some t =>
      rw [Catalog.modifyTable_of_found f found, Edit.rowAt_setTable]
      split
      · next same =>
          by_contra present
          obtain ⟨row, stored⟩ := Option.ne_none_iff_exists'.mp present
          obtain ⟨old, storedOld⟩ := rows same t row stored
          have here : cat.rowAt a = some old := by
            rw [← storedOld, ← Edit.rowAt_of_found found, same]
          rw [missing] at here
          cases here
      · exact missing

/-- Undoing brings back no row but those of its entries. -/
theorem undoLoop_missing {fuel : Nat} {stack : List Change} {cat : Catalog} {a : Address}
    (missing : cat.rowAt a = none) (other : ∀ change ∈ stack, change.address ≠ a) :
    (undoLoop fuel stack cat).rowAt a = none := by
  induction fuel generalizing stack cat with
  | zero => exact missing
  | succ fuel ih =>
      match stack with
      | [] => exact missing
      | .insert table id values :: rest =>
          refine ih (Catalog.rowAt_modifyTable_missing missing fun _ t row stored => ?_)
            fun change member => other change (List.mem_cons_of_mem _ member)
          exact Table.row_of_delete stored
      | .delete table id old :: rest =>
          refine ih (Catalog.rowAt_modifyTable_missing missing fun same t row stored => ?_)
            fun change member => other change (List.mem_cons_of_mem _ member)
          refine (Table.row_of_insert stored).resolve_right fun sameId => ?_
          exact other _ List.mem_cons_self (Prod.ext same sameId)
      | .update table id values old :: rest =>
          refine ih (Catalog.rowAt_modifyTable_missing missing fun _ t row stored => ?_)
            fun change member => other change
              (List.mem_cons_of_mem _ ((popUpdates_mem table rest).2 member))
          exact Table.row_of_update stored

/-- Undoing to a savepoint. -/
theorem DeletesLast.undo {txn : Txn} (holds : DeletesLast txn.work txn.log) (keep : Nat) :
    DeletesLast (MockOracle.undo txn keep).work (MockOracle.undo txn keep).log := by
  have split := List.take_append_drop keep txn.log
  have ordered := holds.last
  rw [← split] at ordered
  obtain ⟨kept, -, across⟩ := List.pairwise_append.mp ordered
  refine ⟨fun change member deletes => ?_, kept⟩
  refine undoLoop_missing (holds.gone change (List.mem_of_mem_take member) deletes) ?_
  intro later undone same
  exact across change member later (List.mem_reverse.mp undone) same.symm deletes

/-! ## Sessions -/

namespace World

/-- The session's transaction has not touched the rows again that it has deleted. -/
def DeletesLast (w : World) : Prop :=
  ∀ txn, w.session.txn = some txn → MockOracle.DeletesLast txn.work txn.log

/-- A session without a transaction deletes last. -/
theorem deletesLast_closed {w : World} (closed : w.session.txn = none) : w.DeletesLast := by
  intro txn open_
  rw [closed] at open_
  cases open_

/-- A statement starts from a log that deletes last. -/
theorem DeletesLast.dmlState {w : World} (holds : w.DeletesLast) :
    MockOracle.DeletesLast w.dmlState.txn.work w.dmlState.txn.log := by
  unfold World.dmlState
  cases open_ : w.session.txn with
  | none => exact .nil _
  | some txn => exact holds txn open_

/-- A statement that changes rows keeps the log deleting last. -/
theorem dml_deletesLast {w : World} (valid : w.Valid) (ev : Evaluator) (binds : List Value)
    (vars : Option VarLookup) (stmt : DmlStatement) (holds : w.DeletesLast) :
    (w.dml ev binds vars stmt).2.DeletesLast := by
  have before := valid.dmlTxn
  obtain ⟨edits, extends_, distinct, drawn⟩ :=
    run_numbered ⟨ev, binds, w.db.state, vars⟩ before.work_sound stmt
  -- What the statement inserts has a number that nothing had before.
  have unused : ∀ id, w.dmlState.txn.Mentions id → id ∉ Change.inserted (Edit.log edits) := by
    intro id mentioned member
    have used := before.mentioned_below mentioned
    have new : w.db.nextRowId ≤ id := drawn id member
    omega
  have grown := holds.dmlState.run extends_.grows.run
    (fun change member => unused _ (Or.inr ⟨change, member, rfl⟩))
    (fun id has => unused id (Or.inl has)) distinct
  rw [← extends_.grows.logged] at grown
  intro txn open_
  unfold World.dml at open_
  split at open_
  · next r st equal =>
      rw [equal] at grown
      obtain ⟨rfl, -⟩ := Txn.unlessEmpty_eq_some.mp open_
      exact grown
  · next e st equal =>
      rw [equal] at grown
      obtain ⟨rfl, -⟩ := Txn.unlessEmpty_eq_some.mp open_
      exact grown.undo _

/-- Rolling back to a savepoint keeps the log deleting last. -/
theorem rollbackTo_deletesLast {w : World} (savepoint : Savepoint) (holds : w.DeletesLast) :
    World.DeletesLast { w with session := w.session.rollbackTo savepoint } := by
  intro txn' opened
  simp only [Session.rollbackTo] at opened
  split at opened
  · exact holds txn' opened
  · next txn open_ =>
      obtain ⟨rfl, -⟩ := Txn.unlessEmpty_eq_some.mp opened
      exact (holds txn open_).undo _

/-- Whatever a session does, it does not touch rows again that it has deleted. -/
theorem stepwise_deletesLast (ev : Evaluator) :
    Stepwise ev fun w w' => w.DeletesLast → w'.DeletesLast where
  same _ _ txn holds := by
    intro txn' open_
    rw [txn] at open_
    exact holds txn' open_
  trans first second holds := second (first holds)
  dml valid binds vars stmt := dml_deletesLast valid ev binds vars stmt
  commit _ _ := deletesLast_closed (commit_txn _)
  closed _ _ := deletesLast_closed rfl
  rollbackTo _ savepoint := rollbackTo_deletesLast savepoint
  ddl {w} _ closed binds stmt _ :=
    deletesLast_closed ((ddl_publishes ev binds w stmt).txn.trans closed)

end World

/-! ## The rows a replay leaves -/

/-- The number of columns of a table. -/
def Catalog.width (cat : Catalog) (name : String) : Option Nat :=
  (cat.table name).map fun t => t.columns.length

/-- The widths of the rows go by the schema. -/
theorem Catalog.width_of_schema {cat cat' : Catalog} (same : cat'.schema = cat.schema) :
    cat'.width = cat.width := by
  have through : ∀ cat : Catalog, cat.width = fun name => (cat.schema name).map (·.columns.length) := by
    intro cat
    funext name
    rw [Catalog.width, Catalog.schema, Option.map_map]
    rfl
  rw [through cat', through cat, same]

section Leaves

variable (cat : Catalog) (log : List Change) (a : Address) (row : Row)

/-- A row of the catalog that no entry takes effect on: the log has none for it, or only such
that the table has another number of columns for. -/
def Stays : Prop :=
  cat.rowAt a = some row ∧ ∀ change ∈ log, change.address = a →
    ∃ values, change.image = some values ∧ cat.width a.1 ≠ some values.length

/-- The last row that the log writes at an address. It is not written if the table is gone or has
another number of columns, nor if the row is gone and the log only updates it. -/
def Lands : Prop :=
  (∃ change, lastAt a log = some change ∧ change.image = some row) ∧
    cat.width a.1 = some row.length ∧
    (cat.rowAt a ≠ none ∨ ∃ values, .insert a.1 a.2 values ∈ log)

/-- The rows that a log writes at an address all have a width. -/
def WidthAt (width : Nat) : Prop :=
  ∀ change ∈ log, change.address = a → ∀ values, change.image = some values → values.length = width

end Leaves

section Leaves

variable {cat next : Catalog} {change : Change} {rest : List Change} {a : Address} {row : Row}

/-- What an entry can do at its address: delete the row, be skipped for its width, write the row,
or be an update of a row that is gone. -/
theorem Replays.outcome (replays : Replays cat change next) :
    (change.image = none ∧ next.rowAt change.address = none) ∨
    ∃ values, change.image = some values ∧
      (cat.width change.table ≠ some values.length ∧
          next.rowAt change.address = cat.rowAt change.address ∨
        cat.width change.table = some values.length ∧
          (cat.rowAt change.address ≠ none ∨ change = .insert change.table change.id values) ∧
          next.rowAt change.address = some values ∨
        cat.rowAt change.address = none ∧ (∀ given, change ≠ .insert change.table change.id given) ∧
          next.rowAt change.address = none) := by
  cases replays with
  | gone missing =>
      have absent : cat.rowAt change.address = none := by
        rw [Catalog.rowAt, Catalog.row, Change.address, missing]
        rfl
      cases image : change.image with
      | none => exact Or.inl ⟨rfl, absent⟩
      | some values =>
          refine Or.inr ⟨values, rfl, Or.inl ⟨?_, rfl⟩⟩
          simp [Catalog.width, missing]
  | @misfit _ t values found image width =>
      refine Or.inr ⟨values, image, Or.inl ⟨?_, rfl⟩⟩
      rw [Catalog.width, found]
      simpa using width
  | @insert table id values t t' found width success =>
      refine Or.inr ⟨values, rfl, Or.inr (Or.inl ⟨?_, Or.inr rfl, ?_⟩)⟩
      · rw [Catalog.width, Change.table, found, Option.map_some, width]
      · rw [(Edit.insert_spec success).1, rowAt_setTable_insert found rfl]
        exact Function.update_self ..
  | @update table id values old t t' found width success =>
      refine Or.inr ⟨values, rfl, Or.inr ?_⟩
      have written := rowAt_setTable_update found success
      cases stored : cat.rowAt (table, id) with
      | some row =>
          rw [stored, Option.isSome_some, if_pos rfl] at written
          refine Or.inl ⟨?_, Or.inl ?_, ?_⟩
          · rw [Catalog.width, Change.table, found, Option.map_some, width]
          · rw [show (Change.update table id values old).address = (table, id) from rfl, stored]
            exact Option.some_ne_none _
          · rw [written]
            exact Function.update_self ..
      | none =>
          rw [stored, Option.isSome_none, if_neg Bool.false_ne_true] at written
          refine Or.inr ⟨stored, fun given => Change.noConfusion, ?_⟩
          rw [written]
          exact stored
  | @delete table id old t found =>
      refine Or.inl ⟨rfl, ?_⟩
      rw [rowAt_setTable_erase found]
      exact Function.update_self ..

/-- An address without a last change is one that no change is at. -/
theorem lastAt_eq_none {log : List Change} :
    lastAt a log = none ↔ ∀ change ∈ log, change.address ≠ a := by
  simp [lastAt]

/-- Entries at other addresses change nothing here. -/
theorem leaves_cons_ne {middle : Catalog} (other : change.address ≠ a)
    (rows : middle.rowAt a = cat.rowAt a) (width : middle.width = cat.width) :
    (Stays middle rest a row ∨ Lands middle rest a row) ↔
      (Stays cat (change :: rest) a row ∨ Lands cat (change :: rest) a row) := by
  have apart : ∀ values, .insert a.1 a.2 values ≠ change := by
    rintro values rfl
    exact other rfl
  have stays : Stays middle rest a row ↔ Stays cat (change :: rest) a row := by
    rw [Stays, Stays, rows, width, List.forall_mem_cons]
    simp only [other, false_imp_iff, true_and]
  have lands : Lands middle rest a row ↔ Lands cat (change :: rest) a row := by
    simp only [Lands, rows, width, lastAt_cons_ne other, List.mem_cons, apart, false_or]
  rw [stays, lands]

/-- The last entry at an address. -/
theorem leaves_last {middle : Catalog} (replays : Replays cat change middle)
    (alone : lastAt change.address rest = none) :
    middle.rowAt change.address = some row ↔
      (Stays cat (change :: rest) change.address row ∨
        Lands cat (change :: rest) change.address row) := by
  have none_ := lastAt_eq_none.mp alone
  have stays : Stays cat (change :: rest) change.address row ↔
      cat.rowAt change.address = some row ∧
        ∃ values, change.image = some values ∧ cat.width change.table ≠ some values.length := by
    rw [Stays, List.forall_mem_cons]
    refine and_congr_right fun _ => ⟨fun both => both.1 rfl, fun skipped => ⟨fun _ => skipped, ?_⟩⟩
    exact fun later member same => absurd same (none_ later member)
  have lands : Lands cat (change :: rest) change.address row ↔
      change.image = some row ∧ cat.width change.table = some row.length ∧
        (cat.rowAt change.address ≠ none ∨
          ∃ values, change = .insert change.table change.id values) := by
    have entries : ∀ values, .insert change.table change.id values ∈ change :: rest ↔
        change = .insert change.table change.id values := by
      intro values
      rw [List.mem_cons]
      refine ⟨fun member => member.elim Eq.symm fun later => ?_, fun same => Or.inl same.symm⟩
      exact absurd rfl (none_ (.insert change.table change.id values) later)
    rw [Lands, lastAt_cons_self, alone, Option.getD_none]
    simp only [Option.some.injEq, exists_eq_left']
    refine and_congr_right fun _ => and_congr_right fun _ => or_congr_right ?_
    exact exists_congr fun values => entries values
  rw [stays, lands]
  rcases replays.outcome with ⟨image, written⟩ | ⟨values, image, ⟨misfit, written⟩ |
    ⟨width, present, written⟩ | ⟨absent, updates, written⟩⟩
  · simp [written, image]
  · rw [written, image]
    constructor
    · exact fun stored => Or.inl ⟨stored, values, rfl, misfit⟩
    · rintro (⟨stored, _⟩ | ⟨same, fits, _⟩)
      · exact stored
      · cases same
        exact absurd fits misfit
  · rw [written, image]
    constructor
    · intro same
      rw [Option.some.inj same] at width present
      exact Or.inr ⟨same, width, present.imp_right fun inserts => ⟨row, inserts⟩⟩
    · rintro (⟨_, given, same, misfit⟩ | ⟨same, _⟩)
      · cases same
        exact absurd width misfit
      · exact same
  · rw [written, absent]
    constructor
    · intro same
      cases same
    · rintro (⟨stored, _⟩ | ⟨_, _, stored | ⟨given, inserts⟩⟩)
      · exact stored
      · exact absurd rfl stored
      · exact absurd inserts (updates given)

/-- An entry that is not the last one at its address. -/
theorem leaves_before {middle : Catalog} {later : Change} {columns : Nat}
    (replays : Replays cat change middle) (width : middle.width = cat.width)
    (last : lastAt change.address rest = some later) (writes : change.image ≠ none)
    (widths : WidthAt (change :: rest) change.address columns) :
    (Stays middle rest change.address row ∨ Lands middle rest change.address row) ↔
      (Stays cat (change :: rest) change.address row ∨
        Lands cat (change :: rest) change.address row) := by
  obtain ⟨member, same⟩ := mem_of_lastAt last
  have whole : lastAt change.address (change :: rest) = some later := by
    rw [lastAt_cons_self, last, Option.getD_some]
  -- All that is written here has one width, so that either all or nothing is skipped.
  have allSkipped : ∀ {cat : Catalog} {log : List Change}, later ∈ log →
      cat.width change.table = some columns → WidthAt log change.address columns →
      ¬ Stays cat log change.address row := by
    rintro cat log among fits wide ⟨_, skipped⟩
    obtain ⟨values, image, misfit⟩ := skipped later among same
    rw [wide later among same values image] at misfit
    exact misfit fits
  have widthsRest : WidthAt rest change.address columns := fun other among =>
    widths other (List.mem_cons_of_mem _ among)
  rcases replays.outcome with ⟨image, -⟩ | ⟨values, image, ⟨misfit, written⟩ |
    ⟨fits, present, written⟩ | ⟨absent, updates, written⟩⟩
  · exact absurd image writes
  · have wide : values.length = columns := widths change List.mem_cons_self rfl values image
    rw [wide] at misfit
    have noLanding : ∀ {cat' : Catalog} {log : List Change}, cat'.width = cat.width →
        later ∈ log → WidthAt log change.address columns →
        lastAt change.address log = some later → ¬ Lands cat' log change.address row := by
      rintro cat' log sameWidth among wideLog lastLog ⟨⟨other, isLast, imageLast⟩, fits, _⟩
      rw [lastLog] at isLast
      cases isLast
      rw [sameWidth, wideLog later among same row imageLast] at fits
      exact misfit fits
    have stays : Stays middle rest change.address row ↔
        Stays cat (change :: rest) change.address row := by
      rw [Stays, Stays, written, width, List.forall_mem_cons]
      refine and_congr_right fun _ => ⟨fun skipped => ⟨fun _ => ⟨values, image, ?_⟩, skipped⟩,
        fun both => both.2⟩
      rw [wide]
      exact misfit
    rw [or_iff_left (noLanding width member widthsRest last), stays,
      or_iff_left (noLanding rfl (List.mem_cons_of_mem _ member) widths whole)]
  · have wide : values.length = columns := widths change List.mem_cons_self rfl values image
    rw [wide] at fits
    have fitsMiddle : middle.width change.table = some columns := by rw [width, fits]
    rw [or_iff_right (allSkipped member fitsMiddle widthsRest),
      or_iff_right (allSkipped (List.mem_cons_of_mem _ member) fits widths), Lands, Lands, last, whole,
      width]
    refine and_congr_right fun _ => and_congr_right fun _ => ⟨fun _ => ?_, fun _ => Or.inl ?_⟩
    · refine present.imp_right fun inserts => ⟨values, ?_⟩
      rw [← show change = .insert change.address.1 change.address.2 values from inserts]
      exact List.mem_cons_self
    · rw [written]
      exact Option.some_ne_none _
  · have noStay : ∀ {cat : Catalog} {log : List Change}, cat.rowAt change.address = none →
        ¬ Stays cat log change.address row := by
      rintro cat log none_ ⟨stored, _⟩
      rw [none_] at stored
      cases stored
    rw [or_iff_right (noStay written), or_iff_right (noStay absent), Lands, Lands, last, whole, width,
      written, absent]
    refine and_congr_right fun _ => and_congr_right fun _ => or_congr_right ?_
    refine exists_congr fun given => ?_
    rw [List.mem_cons, or_iff_right]
    exact fun inserts => updates given inserts.symm

/-- The rows after a replay are those that stay and those that land. -/
theorem replay_row_iff {user : String} {log : List Change} {bound columns : Nat}
    (used : ∀ change ∈ log, change.id < bound) (widths : WidthAt log a columns)
    (last : log.Pairwise fun change later => change.address = later.address → change.image ≠ none)
    (success : replay user log cat = .ok next) :
    next.rowAt a = some row ↔ Stays cat log a row ∨ Lands cat log a row := by
  induction log generalizing cat with
  | nil =>
      cases success
      simp [Stays, Lands, lastAt]
  | cons change rest ih =>
      simp only [replay] at success
      split at success
      · next middle first =>
          have replays := replayChange_replays first
          have width := Catalog.width_of_schema (replays.keeps (used change List.mem_cons_self)).schema
          obtain ⟨deletes, lastRest⟩ := List.pairwise_cons.mp last
          have later := ih (fun other member => used other (List.mem_cons_of_mem _ member))
            (fun other member => widths other (List.mem_cons_of_mem _ member)) lastRest success
          rw [later]
          by_cases here : change.address = a
          · subst here
            cases atLast : lastAt change.address rest with
            | none =>
                have noLanding : ¬ Lands middle rest change.address row := by
                  rintro ⟨⟨other, isLast, _⟩, _⟩
                  rw [atLast] at isLast
                  cases isLast
                have stays : Stays middle rest change.address row ↔
                    middle.rowAt change.address = some row := by
                  refine and_iff_left fun other member same => ?_
                  exact absurd same (lastAt_eq_none.mp atLast other member)
                rw [or_iff_left noLanding, stays]
                exact leaves_last replays atLast
            | some final =>
                obtain ⟨member, same⟩ := mem_of_lastAt atLast
                exact leaves_before replays width atLast (deletes final member same.symm) widths
          · exact leaves_cons_ne here (replays.other (Ne.symm here)) width
      · cases success

end Leaves

end MockOracle
