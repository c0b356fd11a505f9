import MockOracle.Session.Rounds

/-!
# Cascades make the catalog smaller

Every step that a cascade logs takes a row away or sets a foreign key that was not NULL to
NULL, so the rows and the non-NULL foreign key cells together become fewer. `RoundsEnd` is
the loop over the rounds without a bound on their number; it has a result wherever it
starts, and this is the result of `enforceRounds`.
-/

namespace MockOracle

open Std Semantics

/-! ## The measure -/

/-- The cells of a row at some columns that are not NULL. -/
def filledCells (columns : List Nat) (row : Row) : Nat :=
  ((Finset.range row.length).filter fun c => c ∈ columns ∧ (cell row c).isNull = false).card

/-- The cells of some rows at some columns that are not NULL. -/
def Rows.filledCells (columns : List Nat) (rows : Rows) : Nat :=
  (rows.toList.map fun row => MockOracle.filledCells columns row.2).sum

namespace Catalog

/-- The columns of a table's foreign keys. -/
def foreignColumns (cat : Catalog) (table : String) : List Nat :=
  (cat.foreignKeys.filter fun f => f.child == table).flatMap (·.columns)

/-- The foreign key cells that are not NULL, in all tables. -/
def foreignCells (cat : Catalog) : Nat :=
  (cat.tables.toList.map fun entry => entry.2.rows.filledCells (cat.foreignColumns entry.1)).sum

/-- What cascades make smaller. -/
def weight (cat : Catalog) : Nat := cat.rowCount + cat.foreignCells

/-- The columns of a foreign key are among those of its table's foreign keys. -/
theorem columns_subset_foreignColumns {cat : Catalog} {f : ForeignKeyRef}
    (member : f ∈ cat.foreignKeys) : f.columns ⊆ cat.foreignColumns f.child := by
  intro c among
  exact List.mem_flatMap.mpr ⟨f, List.mem_filter.mpr ⟨member, beq_self_eq_true _⟩, among⟩

end Catalog

/-! ## Sums -/

/-- Sums over a list differ by what one item differs by, if no other grows. -/
theorem sum_map_add_le {α : Type} {f g : α → Nat} {items : List α} {a : α} {k : Nat}
    (le : ∀ x ∈ items, f x ≤ g x) (member : a ∈ items) (gap : f a + k ≤ g a) :
    (items.map f).sum + k ≤ (items.map g).sum := by
  induction items with
  | nil => cases member
  | cons x rest ih =>
      rw [List.map_cons, List.map_cons, List.sum_cons, List.sum_cons]
      have here := le x List.mem_cons_self
      have there := fun y among => le y (List.mem_cons_of_mem x among)
      rcases List.mem_cons.mp member with rfl | later
      · have := List.sum_le_sum there
        omega
      · have := ih there later
        omega

/-! ## Rows -/

/-- The columns of a key are not NULL in the row that has it. -/
theorem foreignKey_filled {columns : List Nat} {row : Row} {key : String}
    (some_ : foreignKey columns row = some key) {c : Nat} (member : c ∈ columns) :
    (cell row c).isNull = false := by
  unfold foreignKey at some_
  split at some_
  · cases some_
  · next full =>
      simp only [List.any_map, List.any_eq_true, not_exists, not_and] at full
      simpa using full c member

/-- A cell that is not NULL is within the row. -/
theorem lt_length_of_filled {row : Row} {c : Nat} (filled : (cell row c).isNull = false) :
    c < row.length := by
  by_contra beyond
  rw [cell, List.getD_eq_default _ _ (Nat.le_of_not_lt beyond)] at filled
  cases filled

/-- Setting a foreign key to NULL leaves a row with fewer cells that are not. -/
theorem filledCells_nullColumns {all columns : List Nat} {row : Row} {key : String}
    (inside : columns ⊆ all) (keyed : columns ≠ []) (some_ : foreignKey columns row = some key) :
    filledCells all (nullColumns columns row) + 1 ≤ filledCells all row := by
  obtain ⟨c, member⟩ := List.exists_mem_of_ne_nil columns keyed
  have filled := foreignKey_filled some_ member
  apply Finset.card_lt_card
  refine Finset.ssubset_iff_of_subset ?_ |>.mpr ⟨c, ?_, ?_⟩
  · intro i among
    rw [Finset.mem_filter, Finset.mem_range, length_nullColumns, cell_nullColumns] at among
    rw [Finset.mem_filter, Finset.mem_range]
    obtain ⟨short, column, full⟩ := among
    refine ⟨short, column, ?_⟩
    split at full
    · cases full
    · exact full
  · rw [Finset.mem_filter, Finset.mem_range]
    exact ⟨lt_length_of_filled filled, inside member, filled⟩
  · rw [Finset.mem_filter, cell_nullColumns, if_pos member]
    exact fun ⟨_, _, full⟩ => by cases full

namespace Rows

variable {columns : List Nat} {rows : Rows}

/-- Deleting a row adds no filled cells. -/
theorem filledCells_erase (id : Nat) :
    filledCells columns (rows.erase id) ≤ filledCells columns rows := by
  have same : rows.erase id = rows.filter fun other _ => other != id := by
    refine ExtTreeMap.ext_getElem? fun other => ?_
    rw [ExtTreeMap.getElem?_erase, ExtTreeMap.getElem?_filter]
    by_cases here : id = other
    · subst here
      simp
    · have kept : (other != id) = true := by simpa using Ne.symm here
      simp only [ExtTreeMap.getKey_eq, kept, Option.pfilter_eq_filter, Std.compare_eq_iff_eq, here,
        if_false]
      cases rows[other]? <;> rfl
  rw [filledCells, filledCells, same, ExtTreeMap.toList_filter]
  exact (List.filter_sublist.map _).sum_le_sum fun _ _ => Nat.zero_le _

/-- A row with a filled cell less makes the filled cells of the rows fewer by one. -/
theorem filledCells_insert {id : Nat} {old values : Row} (stored : rows[id]? = some old)
    (fewer : MockOracle.filledCells columns values + 1 ≤ MockOracle.filledCells columns old) :
    filledCells columns (rows.insert id values) + 1 ≤ filledCells columns rows := by
  have same : rows.insert id values =
      rows.map fun other row => if other = id then values else row := by
    refine ExtTreeMap.ext_getElem? fun other => ?_
    rw [ExtTreeMap.getElem?_insert, ExtTreeMap.getElem?_map]
    by_cases here : id = other
    · subst here
      simp [stored]
    · simp [here, Ne.symm here]
  rw [filledCells, filledCells, same, ExtTreeMap.toList_map, List.map_map]
  refine sum_map_add_le (fun row member => ?_)
    (ExtTreeMap.mem_toList_iff_getElem?_eq_some.mpr stored) ?_
  · have here := ExtTreeMap.mem_toList_iff_getElem?_eq_some.mp member
    simp only [Function.comp_apply]
    split
    · next same =>
        rw [same, stored] at here
        cases here
        omega
    · exact Nat.le_refl _
  · simpa using fewer

/-- Rows with a filled cell less each make the filled cells fewer by their number. -/
theorem filledCells_writeAll {changes : List RowChange} (distinct : (changes.map RowChange.id).Nodup)
    (stored : ∀ r ∈ changes, rows[r.id]? = some r.old)
    (fewer : ∀ r ∈ changes,
      MockOracle.filledCells columns r.values + 1 ≤ MockOracle.filledCells columns r.old) :
    filledCells columns (KeyIndex.writeAll (changes.map RowChange.change) rows) + changes.length ≤
      filledCells columns rows := by
  induction changes generalizing rows with
  | nil => exact Nat.le_refl _
  | cons r rest ih =>
      rw [List.map_cons, List.nodup_cons] at distinct
      have first := filledCells_insert (stored r List.mem_cons_self) (fewer r List.mem_cons_self)
      have storedRest : ∀ other ∈ rest, (rows.insert r.id r.values)[other.id]? = some other.old := by
        intro other member
        have apart : r.id ≠ other.id := fun same => distinct.1 (same ▸ List.mem_map_of_mem member)
        rw [ExtTreeMap.getElem?_insert, if_neg (by simpa using apart)]
        exact stored other (List.mem_cons_of_mem _ member)
      have later := ih distinct.2 storedRest fun other member =>
        fewer other (List.mem_cons_of_mem _ member)
      rw [List.length_cons]
      have unfolded : KeyIndex.writeAll ((r :: rest).map RowChange.change) rows =
          KeyIndex.writeAll (rest.map RowChange.change) (rows.insert r.id r.values) := rfl
      rw [unfolded]
      omega

end Rows

/-! ## Catalogs -/

namespace Catalog

variable {cat : Catalog} {name : String} {t u : Table}

/-- A table with fewer filled foreign key cells makes those of the catalog as many fewer. -/
theorem foreignCells_setTable (found : cat.table name = some t) {k : Nat}
    (schema : (cat.setTable name u).schema = cat.schema)
    (le : u.rows.filledCells (cat.foreignColumns name) + k ≤
      t.rows.filledCells (cat.foreignColumns name)) :
    (cat.setTable name u).foreignCells + k ≤ cat.foreignCells := by
  have columns : (cat.setTable name u).foreignColumns = cat.foreignColumns := by
    funext table
    rw [foreignColumns, foreignColumns, foreignKeys_of_schema schema]
  rw [foreignCells, foreignCells, columns, tables_setTable found, ExtTreeMap.toList_map,
    List.map_map]
  refine sum_map_add_le (fun entry member => ?_)
    (ExtTreeMap.mem_toList_iff_getElem?_eq_some.mpr found) ?_
  · have here : cat.table entry.1 = some entry.2 :=
      ExtTreeMap.mem_toList_iff_getElem?_eq_some.mp member
    simp only [Function.comp_apply]
    split
    · next same =>
        rw [same, found] at here
        cases here
        rw [same]
        omega
    · exact Nat.le_refl _
  · simpa using le

end Catalog

/-! ## One logged step -/

/-- Every foreign key has a column, as every foreign key that is read from a statement has. -/
def Catalog.Keyed (cat : Catalog) : Prop := ∀ f ∈ cat.foreignKeys, f.columns ≠ []

/-- DML keeps the foreign keys. -/
theorem Catalog.Keyed.of_schema {cat cat' : Catalog} (keyed : cat.Keyed)
    (schema : cat'.schema = cat.schema) : cat'.Keyed := by
  intro f member
  rw [foreignKeys_of_schema schema] at member
  exact keyed f member

/-- A step of a cascade: an edit that is logged and makes the catalog smaller by as much as
it logs. -/
structure CascadeEdit (cat : Catalog) (edit : Edit) (cat' : Catalog) : Prop where
  applies : Edit.Applies cat edit cat'
  logged : edit.entries ≠ []
  smaller : cat.Keyed → cat'.weight + edit.entries.length ≤ cat.weight

/-- A cascaded deletion is such a step: its row goes. -/
theorem CascadeEdit.delete {cat cat' : Catalog} {table : String} {id : Nat} {old : Row}
    (applies : Edit.Applies cat (.delete table id old) cat') :
    CascadeEdit cat (.delete table id old) cat' where
  applies := applies
  logged := by simp [Edit.entries]
  smaller := by
    intro _
    have rows := applies.rowCount
    have schema := applies.frame.1
    cases applies with
    | delete found stored =>
        have cells := Catalog.foreignCells_setTable (k := 0) found schema <| by
          rw [Table.rows_delete]
          exact Rows.filledCells_erase id
        simp only at rows
        simp only [Edit.entries, List.length_singleton, Catalog.weight]
        omega

/-- Setting foreign keys to NULL is such a step: each row has a filled cell less. -/
theorem CascadeEdit.update {cat cat' : Catalog} {table : String} {rows : List RowChange}
    (applies : Edit.Applies cat (.update table rows) cat')
    (fewer : cat.Keyed → ∀ r ∈ rows, filledCells (cat.foreignColumns table) r.values + 1 ≤
      filledCells (cat.foreignColumns table) r.old) : CascadeEdit cat (.update table rows) cat' := by
  have count := applies.rowCount
  have schema := applies.frame.1
  cases applies with
  | update found replaces =>
      refine ⟨.update found replaces, by simpa [Edit.entries] using replaces.some_, fun keyed => ?_⟩
      have cells := Catalog.foreignCells_setTable (k := rows.length) found schema (by
        rw [replaces.rows_eq]
        exact Rows.filledCells_writeAll replaces.distinct replaces.stored (fewer keyed))
      simp only at count
      simp only [Edit.entries, List.length_map, Catalog.weight]
      omega

/-- The edits of one foreign key are steps of a cascade. -/
theorem ForeignKeyRef.Cascades.edits {f : ForeignKeyRef} {cat cat' : Catalog}
    {window : List Change} {edits : List Edit} (cascades : f.Cascades cat window edits)
    (member : f ∈ cat.foreignKeys) (run : Edit.Run cat edits cat') :
    Steps CascadeEdit cat edits cat' := by
  cases cascades with
  | idle none =>
      cases run
      exact .nil
  | cascade action =>
      generalize f.hits cat window = hits at run
      induction hits generalizing cat with
      | nil =>
          cases run
          exact .nil
      | cons hit rest ih =>
          cases run with
          | cons head tail =>
              have keys := Catalog.foreignKeys_of_schema head.frame.1
              exact .cons (.delete head) (ih (by rwa [keys]) tail)
  | setNull action found nullable =>
      unfold Txn.replacing at run ⊢
      split at run
      · next nothing =>
          rw [if_pos nothing]
          cases run
          exact .nil
      · next some_ =>
          rw [if_neg some_]
          cases run with
          | cons head tail =>
              refine .cons (.update head fun keyed r among => ?_) ?_
              · obtain ⟨row, hit, rfl⟩ := List.mem_map.mp among
                obtain ⟨_, key, references, _⟩ := (ForeignKeyRef.mem_hits found).mp hit
                exact filledCells_nullColumns (Catalog.columns_subset_foreignColumns member)
                  (keyed f member) references
              · cases tail
                exact .nil

/-- The entries of a cascade are paid for by the rows and the foreign key cells that it clears. -/
theorem CascadeEdit.weight_of_steps {cat last : Catalog} {edits : List Edit}
    (run : Steps CascadeEdit cat edits last) (keyed : cat.Keyed) :
    last.weight + (Edit.log edits).length ≤ cat.weight := by
  induction run with
  | nil => simp
  | @cons cat edit next edits last step rest ih =>
      have here := step.smaller keyed
      have later := ih (keyed.of_schema step.applies.frame.1)
      rw [Edit.log_cons, List.length_append]
      omega

/-! ## The loop -/

/-- What an enforcement has done so far: a run of cascade steps, all of them logged. One
that is refused leaves the rows as the last step left them. -/
structure Cascaded (txn : Txn) (result : Except OraError Unit × Txn) (edits : List Edit)
    (last : Catalog) : Prop where
  run : Steps CascadeEdit txn.work edits last
  logged : result.2.log = txn.log ++ Edit.log edits
  rows : ∀ a, result.2.work.rowAt a = last.rowAt a
  work : result.1 = .ok () → result.2.work = last

namespace Cascaded

variable {txn txn' : Txn} {result : Except OraError Unit × Txn} {edits more : List Edit}
  {middle last : Catalog}

/-- At the start nothing has been cascaded. -/
theorem refl (outcome : Except OraError Unit) (txn : Txn) :
    Cascaded txn (outcome, txn) [] txn.work :=
  ⟨.nil, by simp, fun _ => rfl, fun _ => rfl⟩

/-- Cascades one after another are a cascade. -/
theorem trans (first : Cascaded txn (.ok (), txn') edits middle)
    (rest : Cascaded txn' result more last) : Cascaded txn result (edits ++ more) last where
  run := by
    have same : txn'.work = middle := first.work rfl
    exact first.run.append (same ▸ rest.run)
  logged := by rw [rest.logged, first.logged, Edit.log_append, List.append_assoc]
  rows := rest.rows
  work := rest.work

/-- A cascade that succeeds is a run of edits. -/
theorem applies (cascaded : Cascaded txn (.ok (), txn') edits last) :
    Edit.Run txn.work edits txn'.work := by
  have same : txn'.work = last := cascaded.work rfl
  rw [same]
  exact cascaded.run.imp fun step => step.applies

/-- A cascade changes no foreign keys. -/
theorem foreignKeys (cascaded : Cascaded txn (.ok (), txn') edits last) :
    txn'.work.foreignKeys = txn.work.foreignKeys :=
  Catalog.foreignKeys_of_schema (Edit.Run.frame cascaded.applies).1

end Cascaded

variable (user : String)

/-- One foreign key cascades by such steps, and only for deletions. -/
theorem enforceForeignKey_cascaded (window : List Change) {f : ForeignKeyRef} {txn : Txn}
    (member : f ∈ txn.work.foreignKeys) :
    ∃ edits last, Cascaded txn (enforceForeignKey user window f txn) edits last ∧
      Edit.InsertFree edits ∧ (edits ≠ [] → HasDelete window) := by
  obtain ⟨e, failed, refused⟩ | ⟨_, _, edits, cascades, grows⟩ :=
    enforceForeignKey_outcome user window f txn
  · refine ⟨[], txn.work, ⟨.nil, by simp [refused.log], refused.rows, fun success => ?_⟩,
      by simp [Edit.InsertFree], by simp⟩
    rw [failed] at success
    cases success
  · refine ⟨edits, _, ⟨cascades.edits member grows.run, grows.logged, fun _ => rfl, fun _ => rfl⟩,
      cascades.insertFree, fun some_ => ?_⟩
    by_contra none
    exact some_ (cascades.eq_nil none)

/-- A round cascades by such steps, and only for deletions. -/
theorem enforceRound_cascaded (window : List Change) {fks : List ForeignKeyRef} {txn : Txn}
    (among : ∀ f ∈ fks, f ∈ txn.work.foreignKeys) :
    ∃ edits last, Cascaded txn (enforceRound user window fks txn) edits last ∧
      Edit.InsertFree edits ∧ (edits ≠ [] → HasDelete window) := by
  induction fks generalizing txn with
  | nil => exact ⟨[], txn.work, .refl _ txn, by simp [Edit.InsertFree], by simp⟩
  | cons f fks ih =>
      obtain ⟨edits, middle, first, free, deleted⟩ :=
        enforceForeignKey_cascaded user window (among f List.mem_cons_self)
      unfold enforceRound
      split
      · next txn' equal =>
          rw [equal] at first
          have amongRest : ∀ g ∈ fks, g ∈ txn'.work.foreignKeys := fun g member => by
            rw [first.foreignKeys]
            exact among g (List.mem_cons_of_mem _ member)
          obtain ⟨more, last, rest, freeRest, deletedRest⟩ := ih amongRest
          refine ⟨edits ++ more, last, first.trans rest, fun table id values member => ?_,
            fun some_ => ?_⟩
          · rcases List.mem_append.mp member with here | later
            · exact free table id values here
            · exact freeRest table id values later
          · by_cases here : edits = []
            · exact deletedRest fun none => some_ (by rw [here, none]; rfl)
            · exact deleted here
      · next e txn' equal =>
          rw [equal] at first
          exact ⟨edits, middle, first, free, deleted⟩

/-- The loop over the rounds: it goes on while the log has entries that no round has looked
at, and ends where there are none left or a foreign key is refused. -/
inductive RoundsEnd (user : String) (fks : List ForeignKeyRef) :
    Nat → Txn → Except OraError Unit × Txn → Prop where
  | done {start : Nat} {txn : Txn} (seen : txn.log.length ≤ start) :
      RoundsEnd user fks start txn (.ok (), txn)
  | refused {start : Nat} {txn after : Txn} {e : OraError} (more : start < txn.log.length)
      (round : enforceRound user (txn.log.drop start) fks txn = (.error e, after)) :
      RoundsEnd user fks start txn (.error e, after)
  | round {start : Nat} {txn after : Txn} {result : Except OraError Unit × Txn}
      (more : start < txn.log.length)
      (round : enforceRound user (txn.log.drop start) fks txn = (.ok (), after))
      (rest : RoundsEnd user fks txn.log.length after result) :
      RoundsEnd user fks start txn result

/-- When a number of rounds is enough: there is a row for each of them and two more, or what
is still to be looked at has no deletion. -/
def EnoughRounds (start : Nat) (txn : Txn) (fuel : Nat) : Prop :=
  txn.work.rowCount + 2 ≤ fuel ∨ (1 ≤ fuel ∧ ¬ HasDelete (txn.log.drop start)) ∨
    txn.log.length ≤ start

/-- A round uses up one of enough rounds: it has deleted a row, or the next one has nothing
to cascade. -/
theorem EnoughRounds.next {start fuel : Nat} {txn after : Txn} {edits : List Edit} {last : Catalog}
    (enough : EnoughRounds start txn (fuel + 1)) (more : start < txn.log.length)
    (cascaded : Cascaded txn (.ok (), after) edits last) (free : Edit.InsertFree edits)
    (deleted : edits ≠ [] → HasDelete (txn.log.drop start)) :
    EnoughRounds txn.log.length after fuel := by
  have logged : after.log = txn.log ++ Edit.log edits := cascaded.logged
  by_cases idle : edits = []
  · refine Or.inr (Or.inr ?_)
    rw [logged, idle, Edit.log_nil, List.append_nil]
  · obtain many | ⟨_, none⟩ | seen := enough
    · by_cases again : HasDelete (Edit.log edits)
      · obtain ⟨table, id, old, member⟩ := again
        have fewer := (cascaded.applies.rowCount free).2 ⟨table, id, old, Edit.delete_mem_log member⟩
        exact Or.inl (by omega)
      · refine Or.inr (Or.inl ⟨by omega, ?_⟩)
        rwa [logged, List.drop_left]
    · exact absurd (deleted idle) none
    · omega

/-- Enough rounds are the whole loop. -/
theorem enforceRounds_end {fks : List ForeignKeyRef} {fuel start : Nat} {txn : Txn}
    (among : ∀ f ∈ fks, f ∈ txn.work.foreignKeys) (enough : EnoughRounds start txn fuel) :
    RoundsEnd user fks start txn (enforceRounds user fks fuel start txn) ∧
      ∃ edits last, Cascaded txn (enforceRounds user fks fuel start txn) edits last := by
  induction fuel generalizing start txn with
  | zero =>
      refine ⟨.done ?_, [], txn.work, .refl _ txn⟩
      obtain many | ⟨one, _⟩ | seen := enough
      · omega
      · omega
      · exact seen
  | succ fuel ih =>
      unfold enforceRounds
      split
      · next more =>
          obtain ⟨edits, middle, first, free, deleted⟩ :=
            enforceRound_cascaded user (txn.log.drop start) among
          split
          · next after equal =>
              rw [equal] at first
              have amongAfter : ∀ f ∈ fks, f ∈ after.work.foreignKeys := by
                rw [first.foreignKeys]
                exact among
              obtain ⟨rest, edits', last, later⟩ :=
                ih amongAfter (enough.next more first free deleted)
              exact ⟨.round more equal rest, edits ++ edits', last, first.trans later⟩
          · next e after equal =>
              rw [equal] at first
              exact ⟨.refused more equal, edits, middle, first⟩
      · next seen => exact ⟨.done (Nat.le_of_not_lt seen), [], txn.work, .refl _ txn⟩

/-- For every catalog, every graph of foreign keys and every log, the loop over the rounds
ends with what `enforceRounds` computes, and every step it has logged has made the rows and
the non-NULL foreign key cells together fewer. -/
theorem cascades_end (start : Nat) (txn : Txn) :
    let fks := txn.work.foreignKeys.filter (·.enabled)
    let result := enforceRounds user fks (txn.work.rowCount + 2) start txn
    RoundsEnd user fks start txn result ∧ ∃ edits last, Cascaded txn result edits last :=
  enforceRounds_end user (fun _ member => (List.mem_filter.mp member).1) (Or.inl (Nat.le_refl _))

end MockOracle
