import MockOracle.Session.Replay

/-!
# Replay against the private catalog

A statement replaces its rows all at once, and replay replaces them one by one. The two
agree, tables and indexes, unless an update moves a row onto a unique key that another row
still holds at that point, one that the same statement updates later. `Shifts` says that a
log holds such a pair of entries.
-/

namespace MockOracle

open Std Semantics

namespace Table

/-- The new row of one change has a unique key of the row that another replaces. -/
def Collides (t : Table) (r later : RowChange) : Prop :=
  ∃ c ∈ t.constraints, ∃ k, c.key r.values = some k ∧ c.key later.old = some k

variable {t t' : Table} {r : RowChange} {rest : List RowChange}

theorem Collides.transfer {u : Table} (same : u.schema = t.schema) {later : RowChange}
    (apart : ¬ t.Collides r later) : ¬ u.Collides r later := by
  have through := forall_key_iff same fun key => ∀ k, key r.values = some k → key later.old ≠ some k
  rintro ⟨c, member, k, holds, held⟩
  refine through.mpr (fun d memberD k holds held => ?_) c member k holds held
  exact apart ⟨d, memberD, k, holds, held⟩

/-- What replacing one row that is there does, if its keys are free. -/
theorem update_one (stored : t.rows[r.id]? = some r.old)
    (fits : ∀ c ∈ t.constraints, KeyIndex.Fits c.key c.index [r.change] [r.old]) :
    t.update [r.change] = (.ok (), t.replace [r.change] [r.old]) := by
  have present : t.present [r.change] = [r.change] :=
    @present_of_stored t [r] (by simp [stored])
  have currents : t.currents [r.change] = [r.old] :=
    @currents_of_stored t [r] (by simp [stored])
  rcases t.update_cases [r.change] with ⟨equal, _⟩ | ⟨_, _, c, member, misfit⟩
  · rw [equal, present, currents]
  · rw [present, currents] at misfit
    exact absurd (fits c member) misfit

/-- The first row of a batch can be replaced alone, and the others then end where the batch
does, when it takes no key that a later row of the batch still holds. -/
theorem Replaces.one_by_one (replaces : t.Replaces (r :: rest) t') (covers : t.Covers)
    (apart : ∀ later ∈ rest, ¬ t.Collides r later) :
    ∃ u, t.update [r.change] = (.ok (), u) ∧ u.schema = t.schema ∧ u.Covers ∧
      (rest = [] → u = t') ∧ (rest ≠ [] → u.Replaces rest t') := by
  obtain ⟨final, free⟩ := replaces.spec
  have stored := replaces.stored r List.mem_cons_self
  have distinct := List.nodup_cons.mp replaces.distinct
  have fitsAll : ∀ c ∈ t.constraints, KeyIndex.Fits c.key c.index
      (r.change :: rest.map RowChange.change) (r.old :: rest.map RowChange.old) := by
    intro c member
    by_contra misfit
    exact free ⟨c, member, misfit⟩
  have keys : ∀ c ∈ t.constraints, ∀ later ∈ rest.map RowChange.old, ∀ k,
      c.key r.change.2 = some k → c.key later ≠ some k := by
    intro c member later memberLater k holds held
    obtain ⟨row, memberRow, rfl⟩ := List.mem_map.mp memberLater
    exact apart row memberRow ⟨c, member, k, holds, held⟩
  have fitsOne : ∀ c ∈ t.constraints, KeyIndex.Fits c.key c.index [r.change] [r.old] :=
    fun c member => (KeyIndex.Fits.head_iff (covers c member) replaces.nodup replaces.replaced
      (fitsAll c member)).mpr (keys c member)
  have replacedOne : KeyIndex.Replaced t.rows [r.change] [r.old] := .cons stored .nil
  have coversOne : (t.replace [r.change] [r.old]).Covers :=
    covers.replace replacedOne fun ⟨c, member, misfit⟩ => misfit (fitsOne c member)
  -- Replacing the first row alone and then the others is replacing all of them.
  have together : (t.replace [r.change] [r.old]).replace (rest.map RowChange.change)
      (rest.map RowChange.old) = t' := by
    rw [final]
    simp only [replace, List.map_map]
    congr 1
    refine List.map_congr_left fun c member => ?_
    apply Constraint.eq_of_shape
    · simp [Constraint.reindex]
    · rw [Function.comp_apply, Constraint.index_reindex, Constraint.index_reindex,
        Constraint.key_reindex, Constraint.index_reindex]
      exact ((fitsAll c member).tail (keys c member)).2
  refine ⟨_, update_one stored fitsOne, schema_replace _ _, coversOne, ?_, fun some_ => ?_⟩
  · rintro rfl
    rw [final]
    rfl
  · have kept : ∀ row ∈ rest,
        (t.replace [r.change] [r.old]).rows[row.id]? = some row.old := by
      intro row member
      have different : row.id ∉ [r.change].map Prod.fst := by
        rw [List.map_singleton, List.mem_singleton]
        exact fun same => distinct.1 (List.mem_map.mpr ⟨row, member, same⟩)
      exact (KeyIndex.getElem?_writeAll_of_absent different).trans
        (replaces.stored row (List.mem_cons_of_mem _ member))
    refine ⟨some_, distinct.2, kept,
      fun row member => replaces.width row (List.mem_cons_of_mem _ member), ?_⟩
    rcases (t.replace [r.change] [r.old]).update_cases (rest.map RowChange.change) with
      ⟨equal, _⟩ | ⟨_, _, d, memberD, misfit⟩
    · rw [equal, present_of_stored fun row member => ⟨row.old, kept row member⟩,
        currents_of_stored kept, together]
    · rw [present_of_stored fun row member => ⟨row.old, kept row member⟩,
        currents_of_stored kept] at misfit
      obtain ⟨c, member, rfl⟩ := List.mem_map.mp memberD
      rw [Constraint.key_reindex, Constraint.index_reindex] at misfit
      exact absurd ((fitsAll c member).tail (keys c member)).1 misfit

end Table

/-- An update moves a row onto a unique key of another row of the table, which keeps it
until a later update in the log. -/
def Shifts (cat : Catalog) (log : List Change) : Prop :=
  ∃ table t, cat.table table = some t ∧ ∃ before r between later after,
    log = before ++ RowChange.entry table r :: (between ++ RowChange.entry table later :: after) ∧
    t.Collides r later ∧ r.id ≠ later.id ∧
    ∀ change ∈ between, change.address ≠ (table, later.id)

namespace Shifts

variable {cat cat' : Catalog} {log log' : List Change}

theorem of_part (part : log <:+: log') (shifts : Shifts cat log) : Shifts cat log' := by
  obtain ⟨front, back, rfl⟩ := part
  obtain ⟨table, t, found, before, r, between, later, after, rfl, rest⟩ := shifts
  exact ⟨table, t, found, front ++ before, r, between, later, after ++ back, by simp, rest⟩

theorem transfer (schema : cat'.schema = cat.schema) (shifts : Shifts cat' log) :
    Shifts cat log := by
  obtain ⟨table, t', found', before, r, between, later, after, split, collides, rest⟩ := shifts
  obtain ⟨t, found, same⟩ := Catalog.table_of_schema schema.symm found'
  refine ⟨table, t, found, before, r, between, later, after, split, ?_, rest⟩
  by_contra apart
  exact Table.Collides.transfer same.symm apart collides

/-- In a batch without a shift, no row takes a key that a later row still holds. -/
theorem pairwise {table : String} {t : Table} {rows : List RowChange}
    (found : cat.table table = some t) (distinct : (rows.map RowChange.id).Nodup)
    (none : ¬ Shifts cat (rows.map (RowChange.entry table))) :
    rows.Pairwise fun r later => ¬ t.Collides r later := by
  induction rows with
  | nil => exact .nil
  | cons r rest ih =>
      rw [List.map_cons, List.nodup_cons] at distinct
      refine .cons (fun later member collides => none ?_) (ih distinct.2 fun shifts => none ?_)
      · obtain ⟨between, after, rfl⟩ := List.append_of_mem member
        refine ⟨table, t, found, [], r, between.map (RowChange.entry table), later,
          after.map (RowChange.entry table), by simp, collides, ?_, fun change among => ?_⟩
        · exact fun same => distinct.1 (List.mem_map.mpr ⟨later, member, same.symm⟩)
        · -- Within a batch no row occurs twice.
          obtain ⟨other, memberOther, rfl⟩ := List.mem_map.mp among
          intro same
          have sameId : other.id = later.id := congrArg Prod.snd same
          rw [List.map_append, List.nodup_append] at distinct
          exact distinct.2.2.2 other.id (List.mem_map_of_mem memberOther) later.id
            (List.mem_map_of_mem List.mem_cons_self) sameId
      · exact shifts.of_part (List.suffix_cons _ _).isInfix

end Shifts

/-! ## Without a shift, replay ends where the statements did -/

theorem replay_append (user : String) (log more : List Change) (cat : Catalog) :
    replay user (log ++ more) cat =
      match replay user log cat with
      | .ok next => replay user more next
      | .error e => .error e := by
  induction log generalizing cat with
  | nil => rfl
  | cons change rest ih =>
      simp only [List.cons_append, replay]
      cases replayChange user cat change with
      | ok next => exact ih next
      | error e => rfl

theorem replay_split {user : String} {before after : List Change} {change : Change}
    {cat last : Catalog} (success : replay user (before ++ change :: after) cat = .ok last) :
    ∃ middle next, replay user before cat = .ok middle ∧
      replayChange user middle change = .ok next := by
  rw [replay_append] at success
  cases first : replay user before cat with
  | error e =>
      rw [first] at success
      cases success
  | ok middle =>
      rw [first] at success
      simp only [replay] at success
      cases step : replayChange user middle change with
      | error e =>
          rw [step] at success
          cases success
      | ok next => exact ⟨middle, next, rfl, step⟩

theorem replay_batch (user : String) {cat : Catalog} {table : String} {t t' : Table}
    {rows : List RowChange} (found : cat.table table = some t) (replaces : t.Replaces rows t')
    (covers : t.Covers) (width : ∀ r ∈ rows, t.columns.length = r.values.length)
    (apart : rows.Pairwise fun r later => ¬ t.Collides r later) :
    replay user (rows.map (RowChange.entry table)) cat = .ok (cat.setTable table t') := by
  induction rows generalizing cat t with
  | nil => exact absurd rfl replaces.some_
  | cons r rest ih =>
      obtain ⟨u, updated, schema, coversU, last, more⟩ :=
        replaces.one_by_one covers (List.pairwise_cons.mp apart).1
      have first : replayChange user cat (r.entry table) = .ok (cat.setTable table u) := by
        have one : t.update [(r.id, r.values)] = (.ok (), u) := updated
        simp only [RowChange.entry, replayChange, found, width r List.mem_cons_self, if_true, one]
      rw [List.map_cons, replay, first]
      by_cases none : rest = []
      · subst none
        rw [last rfl]
        rfl
      · have columns := Table.columns_of_schema schema
        have after := ih (Catalog.table_setTable_self cat table u) (more none) coversU
          (fun later member => columns ▸ width later (List.mem_cons_of_mem _ member))
          ((List.pairwise_cons.mp apart).2.imp (Table.Collides.transfer schema))
        exact after.trans (congrArg Except.ok (Catalog.setTable_setTable cat table u t'))

/-- Replaying the entries of one edit on a catalog that has the same table. -/
theorem Edit.Applies.replay (user : String) {cat cat' state : Catalog} {edit : Edit} {bound : Nat}
    (applies : Edit.Applies cat edit cat') (covers : cat.Covers)
    (fits : ∀ change ∈ edit.entries, change.Fits bound cat)
    (none : ¬ Shifts cat edit.entries) (same : state.table edit.table = cat.table edit.table) :
    ∃ u, cat' = cat.setTable edit.table u ∧
      MockOracle.replay user edit.entries state = .ok (state.setTable edit.table u) := by
  cases applies with
  | @insert table id values t t' found fresh width success =>
      refine ⟨t', rfl, ?_⟩
      simp only [Edit.table, found] at same
      simp [Edit.entries, Edit.table, MockOracle.replay, replayChange, same, width, success]
  | @delete table id old t found stored =>
      refine ⟨_, rfl, ?_⟩
      simp only [Edit.table, found] at same
      simp [Edit.entries, Edit.table, MockOracle.replay, replayChange,
        Catalog.modifyTable_of_found _ same]
  | @update table rows t t' found replaces =>
      refine ⟨t', rfl, ?_⟩
      simp only [Edit.table, found] at same
      refine replay_batch user same replaces (covers _ _ found) (fun r member => ?_)
        (Shifts.pairwise found replaces.distinct none)
      obtain ⟨_, u, foundU, width⟩ := fits _ (List.mem_map_of_mem member)
      have here : cat.table table = some u := foundU
      rw [found] at here
      cases here
      exact (width r.values List.mem_cons_self).symm

/-- Replay ends in the tables of the private catalog where it starts from those of the
origin, and leaves the tables alone that the log does not name. -/
theorem Edit.Run.replay (user : String) {cat cat' state : Catalog} {edits : List Edit} {bound : Nat}
    (run : Edit.Run cat edits cat') (covers : cat.Covers)
    (fits : ∀ change ∈ Edit.log edits, change.Fits bound cat)
    (none : ¬ Shifts cat (Edit.log edits))
    (same : ∀ change ∈ Edit.log edits, state.table change.table = cat.table change.table) :
    ∃ next, MockOracle.replay user (Edit.log edits) state = .ok next ∧
      (∀ name, state.table name = cat.table name → next.table name = cat'.table name) ∧
      ∀ name, (∀ change ∈ Edit.log edits, change.table ≠ name) →
        next.table name = state.table name := by
  induction run generalizing state with
  | nil => exact ⟨state, rfl, fun _ same => same, fun _ _ => rfl⟩
  | @cons first edit second rest last head tail ih =>
      have entry : ∃ change ∈ edit.entries, change.table = edit.table := by
        cases head with
        | insert found fresh width success => exact ⟨_, List.mem_cons_self, rfl⟩
        | delete found stored => exact ⟨_, List.mem_cons_self, rfl⟩
        | update found replaces =>
            obtain ⟨r, member⟩ := List.exists_mem_of_ne_nil _ replaces.some_
            exact ⟨_, List.mem_map_of_mem member, rfl⟩
      obtain ⟨change, member, names⟩ := entry
      have sameHead : state.table edit.table = first.table edit.table := by
        rw [← names]
        exact same change (List.mem_append_left _ member)
      have noneHead : ¬ Shifts first edit.entries := fun shifts =>
        none (shifts.of_part (List.prefix_append _ _).isInfix)
      obtain ⟨u, rfl, replayed⟩ := head.replay user covers
        (fun change member => fits change (List.mem_append_left _ member)) noneHead sameHead
      have schema := head.frame.1
      -- The table just written is the same on both sides; the others have not changed.
      have agree : ∀ name, state.table name = first.table name →
          (state.setTable edit.table u).table name = (first.setTable edit.table u).table name := by
        intro name before
        rw [Catalog.table_setTable, Catalog.table_setTable, before]
      obtain ⟨next, replayedRest, ends, kept⟩ := ih (head.covers covers)
        (fun change member => (fits change (List.mem_append_right _ member)).transfer
          (Nat.le_refl _) schema)
        (fun shifts => none ((shifts.transfer schema).of_part (List.suffix_append _ _).isInfix))
        (fun change member => agree _ (same change (List.mem_append_right _ member)))
      refine ⟨next, ?_, fun name before => ends name (agree name before), fun name other => ?_⟩
      · rw [Edit.log_cons, replay_append, replayed]
        exact replayedRest
      · rw [kept name fun change member => other change (List.mem_append_right _ member)]
        apply Catalog.table_setTable_ne
        rw [← names]
        exact other change (List.mem_append_left _ member)

/-! ## With a shift, replay is refused -/

theorem Edit.Applies.old_at {cat cat' : Catalog} {edit : Edit} (applies : Edit.Applies cat edit cat')
    {before after : List Change} {change : Change} (split : edit.entries = before ++ change :: after) :
    overlay (before.map Change.write) cat.rowAt change.address = change.old := by
  have distinct := applies.nodup
  rw [← applies.stored change (by simp [split])]
  apply Overlay.of_absent
  rw [Edit.addresses_writes]
  rw [split, List.map_append, List.nodup_append] at distinct
  intro member
  exact distinct.2.2 _ member _ List.mem_cons_self rfl

/-- An entry holds what the entries before it have left of the row. -/
theorem Edit.Run.old_at {cat cat' : Catalog} {edits : List Edit} (run : Edit.Run cat edits cat')
    (change : Change) {before after : List Change}
    (split : Edit.log edits = before ++ change :: after) :
    overlay (before.map Change.write) cat.rowAt change.address = change.old := by
  induction run generalizing before with
  | nil => simp at split
  | cons head tail ih =>
      rw [Edit.log_cons, List.append_eq_append_iff] at split
      rcases split with ⟨front, rfl, rest⟩ | ⟨middle, entries, rest⟩
      · rw [List.map_append, Overlay.append, ← head.rowAt]
        exact ih rest
      · cases middle with
        | nil =>
            rw [List.append_nil] at entries
            rw [← entries, ← head.rowAt]
            exact @ih [] rest.symm
        | cons next middle =>
            rw [List.cons_append, List.cons.injEq] at rest
            obtain ⟨rfl, _⟩ := rest
            exact head.old_at entries

/-- Replaying an update is refused when another row holds a unique key of the new row. -/
theorem Replays.not_collides {cat next : Catalog} {bound : Nat} {table : String} {t : Table}
    {r later : RowChange} (replays : Replays cat (r.entry table) next) (sound : cat.Sound bound)
    (fits : (r.entry table).Fits bound cat) (found : cat.table table = some t)
    (stored : t.rows[r.id]? = some r.old) (held : t.rows[later.id]? = some later.old)
    (different : r.id ≠ later.id) : ¬ t.Collides r later := by
  rintro ⟨c, member, k, holds, holdsLater⟩
  have finds : (r.entry table).Finds cat.rowAt := by
    intro missing
    rw [Edit.rowAt_of_found found, stored] at missing
    cases missing
  have rows := replays.rowAt fits finds
  have keeps := replays.keeps fits.1
  obtain ⟨t', found', schema⟩ := Catalog.table_of_schema keeps.schema found
  have covers : t'.Covers := (keeps.sound sound _ _ found').covers
  have here : t'.rows[r.id]? = some r.values := by
    rw [← Edit.rowAt_of_found found', rows]
    exact Function.update_self _ _ _
  have there : t'.rows[later.id]? = some later.old := by
    rw [← Edit.rowAt_of_found found', rows, Change.apply, Function.update_of_ne,
      Edit.rowAt_of_found found, held]
    exact fun same => different (congrArg Prod.snd same).symm
  have unique : ∀ d ∈ t'.constraints, d.key r.values = some k → d.key later.old ≠ some k :=
    fun d memberD left right => different ((covers d memberD).id_unique here left there right)
  exact (Table.forall_key_iff schema fun key => key r.values = some k → key later.old ≠ some k).mp
    unique c member holds holdsLater

theorem Edit.Run.replay_shifts {user : String} {cat cat' state next : Catalog} {edits : List Edit}
    {bound : Nat} (run : Edit.Run cat edits cat') (sound : state.Sound bound)
    (fits : ∀ change ∈ Edit.log edits, change.Fits bound state)
    (same : ∀ change ∈ Edit.log edits, state.table change.table = cat.table change.table)
    (success : MockOracle.replay user (Edit.log edits) state = .ok next) :
    ¬ Shifts cat (Edit.log edits) := by
  rintro ⟨table, t, found, before, r, between, later, after, split, collides, different, untouched⟩
  have agree : ∀ change ∈ Edit.log edits, state.rowAt change.address = cat.rowAt change.address := by
    intro change member
    rw [Catalog.rowAt, Catalog.row, Change.address, same change member]
    rfl
  have replayable := (Edit.Run.replayable run).congr agree
  have oldLater : overlay ((before ++ RowChange.entry table r :: between).map Change.write)
      cat.rowAt (table, later.id) = some later.old := by
    have longer : Edit.log edits = (before ++ RowChange.entry table r :: between) ++
        RowChange.entry table later :: after := by
      rw [split, List.append_assoc]
      rfl
    exact Edit.Run.old_at run (RowChange.entry table later) longer
  have oldR : overlay (before.map Change.write) cat.rowAt (table, r.id) = some r.old :=
    Edit.Run.old_at run (RowChange.entry table r) split
  have memberR : RowChange.entry table r ∈ Edit.log edits := by
    rw [split]
    simp
  have memberLater : RowChange.entry table later ∈ Edit.log edits := by
    rw [split]
    simp
  have partBefore : before ⊆ Edit.log edits := by
    rw [split]
    exact List.subset_append_left _ _
  rw [split] at replayable success
  obtain ⟨middle, next', first, step⟩ := replay_split success
  have fitsBefore : ∀ change ∈ before, change.Fits bound state := fun change member =>
    fits change (partBefore member)
  have keeps := replay_keeps (fun change member => (fitsBefore change member).1) first
  have rows := replay_rowAt fitsBefore (Replayable.append.mp replayable).1 first
  obtain ⟨t', found', schema⟩ := Catalog.table_of_schema keeps.schema
    ((same _ memberR).trans found)
  -- Both rows are in the replayed catalog as they were when the statement began.
  have stored : t'.rows[r.id]? = some r.old := by
    rw [← Edit.rowAt_of_found found', rows, ← oldR]
    exact Overlay.congr (agree _ memberR)
  have held : t'.rows[later.id]? = some later.old := by
    rw [← Edit.rowAt_of_found found', rows, ← oldLater, List.map_append, Overlay.append]
    refine Eq.trans (Overlay.congr (agree _ memberLater)) (Overlay.of_absent ?_).symm
    rw [List.map_map]
    intro member
    obtain ⟨change, among, address⟩ := List.mem_map.mp member
    rcases List.mem_cons.mp among with rfl | among
    · exact different (congrArg Prod.snd address)
    · exact untouched change among address
  refine (replayChange_replays step).not_collides (keeps.sound sound) ?_ found' stored held
    different ?_
  · exact (fits _ memberR).transfer (Nat.le_refl _) keeps.schema
  · by_contra apart
    exact Table.Collides.transfer schema.symm apart collides

end MockOracle
