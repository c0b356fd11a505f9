import MockOracle.Session.Invariant

/-!
# What replaying a log does to the rows

COMMIT replays the log onto a committed state that is not the one the transaction started
from. An entry writes its row, except that an update of a row which is gone is skipped. A
log is `Replayable` on a row store when no update in it is skipped; the log of a
transaction is so on every store that agrees with the origin at the rows it changes.
-/

namespace MockOracle

open Std Semantics

namespace Change

/-- An update needs its row; the other changes need nothing. -/
def Finds (store : Address → Option Row) : Change → Prop
  | .update table id _ _ => store (table, id) ≠ none
  | _ => True

/-- The row store after a change. -/
def apply (change : Change) (store : Address → Option Row) : Address → Option Row :=
  Function.update store change.address change.image

/-- Overlaying the writes of a log, change by change. -/
theorem overlay_write_cons (change : Change) (log : List Change) (store : Address → Option Row) :
    overlay ((change :: log).map write) store = overlay (log.map write) (change.apply store) := rfl

end Change

/-- No update in the log is of a missing row. -/
def Replayable : (Address → Option Row) → List Change → Prop
  | _, [] => True
  | store, change :: rest => change.Finds store ∧ Replayable (change.apply store) rest

namespace Replayable

variable {store store' : Address → Option Row} {log more : List Change}

/-- A log is replayable if its parts are, one after the other. -/
theorem append : Replayable store (log ++ more) ↔
    Replayable store log ∧ Replayable (overlay (log.map Change.write) store) more := by
  induction log generalizing store with
  | nil => simp [Replayable]
  | cons change rest ih =>
      rw [List.cons_append, Replayable, Replayable, ih, Change.overlay_write_cons, and_assoc]

/-- Only the rows that the log changes matter. -/
theorem congr (same : ∀ change ∈ log, store' change.address = store change.address)
    (replayable : Replayable store log) : Replayable store' log := by
  induction log generalizing store store' with
  | nil => trivial
  | cons change rest ih =>
      obtain ⟨finds, later⟩ := replayable
      refine ⟨?_, ih (fun next member => ?_) later⟩
      · have here := same change List.mem_cons_self
        cases change with
        | insert table id values => trivial
        | delete table id old => trivial
        | update table id values old =>
            intro missing
            exact finds (here.symm.trans missing)
      · rw [Change.apply, Change.apply, Function.update_apply, Function.update_apply,
          same next (List.mem_cons_of_mem _ member)]

end Replayable

/-- An edit that applies logs changes that replay. -/
theorem Edit.Applies.replayable {cat cat' : Catalog} {edit : Edit}
    (applies : Edit.Applies cat edit cat') : Replayable cat.rowAt edit.entries := by
  cases applies with
  | insert found fresh width success => exact ⟨trivial, trivial⟩
  | delete found stored => exact ⟨trivial, trivial⟩
  | @update table rows t t' found replaces =>
      -- Each row is there at the start, and writing the others does not remove it.
      have present : ∀ (store : Address → Option Row) (rows : List RowChange),
          (∀ r ∈ rows, store (table, r.id) ≠ none) →
          Replayable store (rows.map (RowChange.entry table)) := by
        intro store rows
        induction rows generalizing store with
        | nil => exact fun _ => trivial
        | cons r rest ih =>
            intro stored
            refine ⟨stored r List.mem_cons_self, ih _ fun other member => ?_⟩
            rw [Change.apply, Function.update_apply]
            split
            · exact Option.some_ne_none _
            · exact stored other (List.mem_cons_of_mem _ member)
      refine present cat.rowAt rows fun r member => ?_
      rw [Edit.rowAt_of_found found, replaces.stored r member]
      exact Option.some_ne_none _

/-- The log of a run can be replayed where the run started. -/
theorem Edit.Run.replayable {cat cat' : Catalog} {edits : List Edit}
    (run : Edit.Run cat edits cat') : Replayable cat.rowAt (Edit.log edits) := by
  induction run with
  | nil => trivial
  | cons head _ ih =>
      rw [Edit.log_cons, Replayable.append]
      refine ⟨head.replayable, ?_⟩
      rw [← head.rowAt]
      exact ih

/-! ## Replay writes what is logged -/

/-- Updating one row stores its new values. -/
theorem Table.rows_update_one {t t' : Table} {id : Nat} {values old : Row}
    (stored : t.rows[id]? = some old) (success : t.update [(id, values)] = (.ok (), t')) :
    t'.rows = t.rows.insert id values := by
  have present : t.present [(id, values)] = [(id, values)] :=
    @Table.present_of_stored t [⟨id, values, old⟩] (by simp [stored])
  rcases t.update_cases [(id, values)] with ⟨equal, _⟩ | ⟨_, equal, _⟩
  · rw [success, present] at equal
    have same : t' = t.replace [(id, values)] (t.currents [(id, values)]) :=
      congrArg Prod.snd equal
    rw [same]
    rfl
  · rw [success] at equal
    cases congrArg Prod.fst equal

/-- The rows of the catalog after a row is stored. -/
theorem rowAt_setTable_insert {cat : Catalog} {table : String} {t t' : Table} {id : Nat}
    {values : Row} (found : cat.table table = some t) (rows : t'.rows = t.rows.insert id values) :
    (cat.setTable table t').rowAt = Function.update cat.rowAt (table, id) (some values) := by
  refine Edit.rowAt_setTable_eq (fun a different => ?_) fun other => ?_
  · exact Function.update_of_ne (fun same => different (congrArg Prod.fst same).symm) _ _
  · simp only [rows, ExtTreeMap.getElem?_insert, Function.update_apply, Prod.mk.injEq, true_and,
      Std.compare_eq_iff_eq, Edit.rowAt_of_found found, @eq_comm Nat]

/-- The rows of the catalog after a row is deleted. -/
theorem rowAt_setTable_erase {cat : Catalog} {table : String} {t : Table} {id : Nat}
    (found : cat.table table = some t) :
    (cat.setTable table (t.delete id).2).rowAt = Function.update cat.rowAt (table, id) none := by
  refine Edit.rowAt_setTable_eq (fun a different => ?_) fun other => ?_
  · exact Function.update_of_ne (fun same => different (congrArg Prod.fst same).symm) _ _
  · simp only [Table.rows_delete, ExtTreeMap.getElem?_erase, Function.update_apply, Prod.mk.injEq,
      true_and, Std.compare_eq_iff_eq, Edit.rowAt_of_found found, @eq_comm Nat]

/-- An entry that fits the catalog and finds its row writes it. -/
theorem Replays.rowAt {cat next : Catalog} {bound : Nat} {change : Change}
    (replays : Replays cat change next) (fits : change.Fits bound cat)
    (finds : change.Finds cat.rowAt) : next.rowAt = change.apply cat.rowAt := by
  obtain ⟨_, u, foundU, widthU⟩ := fits
  cases replays with
  | gone missing =>
      rw [missing] at foundU
      cases foundU
  | @misfit _ t values found image width =>
      rw [found] at foundU
      cases foundU
      refine absurd (widthU values ?_).symm width
      cases change with
      | insert table id given =>
          cases image
          exact List.mem_cons_self
      | update table id given old =>
          cases image
          exact List.mem_cons_self
      | delete table id old => cases image
  | insert found width success =>
      rw [(Edit.insert_spec success).1]
      exact rowAt_setTable_insert found rfl
  | update found width success =>
      obtain ⟨current, stored⟩ := Option.ne_none_iff_exists'.mp finds
      rw [Edit.rowAt_of_found found] at stored
      exact rowAt_setTable_insert found (Table.rows_update_one stored success)
  | delete found => exact rowAt_setTable_erase found

/-- A replay that succeeds writes the log over the rows. -/
theorem replay_rowAt {user : String} {cat next : Catalog} {bound : Nat} {log : List Change}
    (fits : ∀ change ∈ log, change.Fits bound cat) (replayable : Replayable cat.rowAt log)
    (success : replay user log cat = .ok next) :
    next.rowAt = overlay (log.map Change.write) cat.rowAt := by
  induction log generalizing cat with
  | nil =>
      cases success
      rfl
  | cons change rest ih =>
      simp only [replay] at success
      split at success
      · next middle first =>
          have fitsHere := fits change List.mem_cons_self
          have replays := replayChange_replays first
          have written := replays.rowAt fitsHere replayable.1
          have keeps := replays.keeps fitsHere.1
          rw [Change.overlay_write_cons, ← written]
          refine ih (fun other member => ?_) ?_ success
          · exact (fits other (List.mem_cons_of_mem _ member)).transfer (Nat.le_refl _) keeps.schema
          · rw [written]
            exact replayable.2
      · cases success

/-! ## Replay at one row -/

/-- An update of one row that is there writes it; one of a row that is gone does nothing. -/
theorem rowAt_setTable_update {cat : Catalog} {table : String} {t t' : Table} {id : Nat}
    {values : Row} (found : cat.table table = some t)
    (success : t.update [(id, values)] = (.ok (), t')) :
    (cat.setTable table t').rowAt = if (cat.rowAt (table, id)).isSome then
      Function.update cat.rowAt (table, id) (some values) else cat.rowAt := by
  cases stored : t.rows[id]? with
  | some old =>
      rw [Edit.rowAt_of_found found, stored]
      exact rowAt_setTable_insert found (Table.rows_update_one stored success)
  | none =>
      have absent : t.present [(id, values)] = [] := by
        rw [Table.present, List.filter_cons, ExtTreeMap.contains_eq_isSome_getElem?, stored]
        rfl
      have same : t'.rows = t.rows := by
        rcases t.update_cases [(id, values)] with ⟨equal, _⟩ | ⟨_, equal, _⟩
        · rw [success, absent] at equal
          have same : t' = t.replace [] (t.currents []) := congrArg Prod.snd equal
          rw [same]
          rfl
        · rw [success] at equal
          cases congrArg Prod.fst equal
      have kept : (cat.setTable table t').rowAt = cat.rowAt :=
        Edit.rowAt_setTable_eq (fun _ _ => rfl) fun other => by
          rw [same, Edit.rowAt_of_found found]
      rw [Edit.rowAt_of_found found, stored]
      exact kept

/-- An entry leaves the rows at other addresses alone. -/
theorem Replays.other {cat next : Catalog} {change : Change} {a : Address}
    (replays : Replays cat change next) (other : a ≠ change.address) :
    next.rowAt a = cat.rowAt a := by
  cases replays with
  | gone missing => rfl
  | misfit found image width => rfl
  | insert found width success =>
      rw [(Edit.insert_spec success).1, rowAt_setTable_insert found rfl]
      exact Function.update_of_ne other _ _
  | update found width success =>
      rw [rowAt_setTable_update found success]
      split
      · exact Function.update_of_ne other _ _
      · rfl
  | delete found =>
      rw [rowAt_setTable_erase found]
      exact Function.update_of_ne other _ _

/-- The last entry of a log at an address. -/
def lastAt (a : Address) (log : List Change) : Option Change :=
  (log.filter fun change => change.address = a).getLast?

/-- The last change at an address is the first one unless another comes later. -/
theorem lastAt_cons_self (change : Change) (rest : List Change) :
    lastAt change.address (change :: rest) = some ((lastAt change.address rest).getD change) := by
  rw [lastAt, List.filter_cons_of_pos (by simp), List.getLast?_cons]
  rfl

/-- A change elsewhere is not the last one at an address. -/
theorem lastAt_cons_ne {a : Address} {change : Change} (other : change.address ≠ a)
    (rest : List Change) : lastAt a (change :: rest) = lastAt a rest := by
  rw [lastAt, List.filter_cons_of_neg (by simpa using other)]
  rfl

/-- The row that a change leaves in a table with so many columns, in place of `row`. -/
def Change.rowOver (columns : Nat) (row : Row) (change : Change) : Row :=
  match change.image with
  | some values => if values.length = columns then values else row
  | none => row

/-- Every entry of the log at an address is an update to a row of the same width. -/
def UpdatesAt (a : Address) (width : Nat) (log : List Change) : Prop :=
  ∀ change ∈ log, change.address = a →
    ∃ values old, change = .update a.1 a.2 values old ∧ values.length = width

/-- The last change at an address is one of the log, at that address. -/
theorem mem_of_lastAt {a : Address} {log : List Change} {change : Change}
    (last : lastAt a log = some change) : change ∈ log ∧ change.address = a := by
  simpa using List.mem_of_getLast? last

/-- Of two changes to rows of one width, the second decides. -/
theorem Change.rowOver_rowOver {change later : Change} {values values' : Row}
    (image : change.image = some values) (image' : later.image = some values')
    (width : values.length = values'.length) (columns : Nat) (row : Row) :
    later.rowOver columns (change.rowOver columns row) = later.rowOver columns row := by
  simp only [rowOver, image, image', width]
  split <;> rfl

/-- Replaying an update of a stored row. -/
theorem Replays.update_at {cat next : Catalog} {table : String} {id : Nat} {values old row : Row}
    {t : Table} (replays : Replays cat (.update table id values old) next)
    (found : cat.table table = some t) (stored : cat.rowAt (table, id) = some row) :
    next.rowAt (table, id) =
      some ((Change.update table id values old).rowOver t.columns.length row) := by
  cases replays with
  | gone missing =>
      rw [Change.table, found] at missing
      cases missing
  | misfit foundU image width =>
      rw [Change.table, found] at foundU
      cases foundU
      rw [stored, Change.rowOver, image]
      simp only
      rw [if_neg (Ne.symm width)]
  | update foundU width success =>
      rw [found] at foundU
      cases foundU
      rw [rowAt_setTable_update found success, stored, Option.isSome_some, if_pos rfl,
        Function.update_self, Change.rowOver]
      simp [Change.image, width]

/-- Of several updates of a stored row, the last one decides. -/
theorem replay_lastAt {user : String} {cat next : Catalog} {bound width : Nat} {log : List Change}
    {a : Address} {t : Table} {row : Row} (used : ∀ change ∈ log, change.id < bound)
    (updates : UpdatesAt a width log) (found : cat.table a.1 = some t)
    (stored : cat.rowAt a = some row) (success : replay user log cat = .ok next) :
    next.rowAt a = some ((lastAt a log).elim row (Change.rowOver t.columns.length row)) := by
  induction log generalizing cat t row with
  | nil =>
      cases success
      exact stored
  | cons change rest ih =>
      simp only [replay] at success
      split at success
      · next middle first =>
          have replays := replayChange_replays first
          have keeps := replays.keeps (used change List.mem_cons_self)
          obtain ⟨t', found', schema⟩ := Catalog.table_of_schema keeps.schema found
          have columns := Table.columns_of_schema schema
          have later : ∀ {row : Row}, middle.rowAt a = some row → next.rowAt a =
              some ((lastAt a rest).elim row (Change.rowOver t.columns.length row)) := by
            intro row stored
            rw [← columns]
            exact ih (fun change member => used change (List.mem_cons_of_mem _ member))
              (fun change member => updates change (List.mem_cons_of_mem _ member)) found' stored
              success
          by_cases here : change.address = a
          · obtain ⟨values, old, rfl, wide⟩ := updates change List.mem_cons_self here
            have whole := lastAt_cons_self (.update a.1 a.2 values old) rest
            rw [here] at whole
            rw [later (replays.update_at found stored), whole]
            cases last : lastAt a rest with
            | none => rfl
            | some change' =>
                obtain ⟨member, there⟩ := mem_of_lastAt last
                obtain ⟨values', old', rfl, wide'⟩ :=
                  updates change' (List.mem_cons_of_mem _ member) there
                have image : (Change.update a.1 a.2 values old).image = some values := rfl
                have image' : (Change.update a.1 a.2 values' old').image = some values' := rfl
                have decided := Change.rowOver_rowOver image image' (wide.trans wide'.symm)
                  t.columns.length row
                exact congrArg some decided
          · rw [lastAt_cons_ne here]
            exact later ((replays.other (Ne.symm here)).trans stored)
      · cases success

end MockOracle
