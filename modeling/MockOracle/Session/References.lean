import MockOracle.Catalog.Satisfied
import MockOracle.Session.Rounds
import MockOracle.Session.RowChecks

/-!
# Referential integrity after a statement

The enforcement looks at logged changes only. What it relies on is that every child row is
accounted for: its parent is there, or the statement has changed the row itself and checks it at
the end, or the removal of its parent's key is an entry that a round has yet to look at. Every
turn keeps this true if its own entries count as yet to be looked at, and takes its window off the
list for its foreign key.

The enforcement compares keys as strings. All of this holds as long as, at each turn, the strings
do not make the parent report a key that no parent row has. Only the child rows matter that keep
their reference through all turns.
-/

namespace MockOracle

open Std Semantics

/-! ## Satisfied foreign keys -/

namespace ForeignKeyRef

/-- A parent row has the values that a child row references. -/
def HeldFor (f : ForeignKeyRef) (cat : Catalog) (row : Row) : Prop :=
  ∃ id p, cat.rowAt (f.parent, id) = some p ∧ SameKey f.columns row f.parentColumns p

/-- Every child row whose key has no NULL has its parent. -/
def Satisfied (f : ForeignKeyRef) (cat : Catalog) : Prop :=
  ∀ id row, cat.rowAt (f.child, id) = some row → Complete f.columns row → f.HeldFor cat row

/-- If the parent reports the key of a child row, a parent row has its values. -/
def LookupRight (f : ForeignKeyRef) (cat : Catalog) (row : Row) : Prop :=
  ∀ key, foreignKey f.columns row = some key → f.parentHolds cat key = true → f.HeldFor cat row

/-- The lookups for some child rows are right. -/
def Right (f : ForeignKeyRef) (rows : Nat → Prop) (cat : Catalog) : Prop :=
  ∀ id row, rows id → cat.rowAt (f.child, id) = some row → f.LookupRight cat row

/-- Entries that have removed a parent key. -/
def Removed (f : ForeignKeyRef) (window : List Change) (key : String) : Prop :=
  ∃ change ∈ window, f.deletedKey change = some key ∨ f.updatedKey change = some key

/-- Each of some child rows has its parent, or is one of those in `log`, or references a key that
an entry of `window` has removed. -/
def Accounted (f : ForeignKeyRef) (rows : Nat → Prop) (cat : Catalog) (log window : List Change) :
    Prop :=
  ∀ id row key, rows id → cat.rowAt (f.child, id) = some row → foreignKey f.columns row = some key →
    (f.child, id) ∈ log.map Change.address ∨ f.HeldFor cat row ∨ f.Removed window key

end ForeignKeyRef

/-- A turn takes the reference from a child row: it deletes the row or sets a column of its key to
NULL. -/
def Turn.Clears (turn : Turn) (f : ForeignKeyRef) (id : Nat) : Prop :=
  turn.Touches (f.child, id) ∧
    (turn.key.onDelete = .cascade ∨ ∃ i ∈ f.columns, i ∈ turn.key.columns)

/-- A child row keeps its reference through all turns. -/
def Spared (turns : List Turn) (f : ForeignKeyRef) (id : Nat) : Prop :=
  ∀ turn ∈ turns, ¬ turn.Clears f id

/-- Whenever a foreign key has its turn, the parents report the keys of child rows that are spared
only if parent rows have them. -/
def LooksUpRight (fks : List ForeignKeyRef) (turns : List Turn) : Prop :=
  ∀ turn ∈ turns, ∀ f ∈ fks, f.Right (Spared turns f) turn.txn.work

/-- The indexes of a catalog's tables are exact. -/
def Catalog.Exact (cat : Catalog) : Prop := ∀ name t, cat.table name = some t → t.Exact

theorem any_isNull_of_same {xs ys : List Value} (same : List.Forall₂ Value.Same xs ys) :
    xs.any Value.isNull = ys.any Value.isNull := by
  induction same with
  | nil => rfl
  | cons first _ ih => rw [List.any_cons, List.any_cons, first.isNull, ih]

theorem foreignKey_of_same {columns columns' : List Nat} {row row' : Row}
    (same : SameKey columns row columns' row') :
    foreignKey columns row = foreignKey columns' row' := by
  rw [foreignKey, foreignKey, any_isNull_of_same same, keyString_of_same same]

/-- A key without a NULL is filed under the same string. -/
theorem uniqueKey_of_foreignKey {columns : List Nat} {row : Row} {key : String}
    (some_ : columns ≠ []) (filed : foreignKey columns row = some key) :
    uniqueKey columns row = some key := by
  obtain ⟨c, rest, rfl⟩ := List.exists_cons_of_ne_nil some_
  have filled := foreignKey_isSome.mp ⟨key, filed⟩ c List.mem_cons_self
  unfold foreignKey at filed
  unfold uniqueKey
  split at filed
  · cases filed
  · rw [if_neg]
    · exact filed
    · rw [keyValues, List.map_cons, List.all_cons, filled]
      simp

section Accounts

variable {f : ForeignKeyRef} {rows : Nat → Prop} {cat cat' : Catalog} {log more window : List Change}
  {edit : Edit} {edits : List Edit}

/-! ## Edits -/

theorem Edit.Applies.exact (step : Edit.Applies cat edit cat') (exact_ : cat.Exact) :
    cat'.Exact := by
  have set : ∀ {name : String} {u : Table}, u.Exact → (cat.setTable name u).Exact := by
    intro name u exactU other w found
    rw [Catalog.table_setTable] at found
    split at found
    · cases found
      exact exactU
    · exact exact_ other w found
  cases step with
  | @insert table id values t t' found fresh width success =>
      have inserted := (exact_ _ _ found).insert fresh values
      rw [success] at inserted
      exact set inserted
  | delete found stored => exact set ((exact_ _ _ found).delete _)
  | update found replaces =>
      rw [replaces.spec.1]
      exact set ((exact_ _ _ found).replace replaces.nodup replaces.replaced replaces.spec.2)

theorem Edit.Run.exact (run : Edit.Run cat edits cat') (exact_ : cat.Exact) : cat'.Exact :=
  run.preserves (fun holds step => step.exact holds) exact_

/-- The first entry for a row has found it as it was. -/
theorem Edit.Run.exists_old (run : Edit.Run cat edits cat') {a : Address}
    (touched : a ∈ (Edit.log edits).map Change.address) :
    ∃ change ∈ Edit.log edits, change.address = a ∧ change.old = cat.rowAt a := by
  induction run with
  | nil => simp at touched
  | @cons first edit second rest last head _ ih =>
      by_cases here : a ∈ edit.entries.map Change.address
      · obtain ⟨change, member, rfl⟩ := List.mem_map.mp here
        rw [Edit.log_cons]
        exact ⟨change, List.mem_append_left _ member, rfl, (head.stored change member).symm⟩
      · rw [Edit.log_cons, List.map_append] at touched
        obtain ⟨change, member, same, old⟩ := ih ((List.mem_append.mp touched).resolve_left here)
        rw [Edit.log_cons]
        exact ⟨change, List.mem_append_right _ member, same, old.trans (head.kept here)⟩

/-- What the updates of some edits have written is still there after them. -/
def Edit.Landed (cat : Catalog) (edits : List Edit) : Prop :=
  ∀ table id values old, Change.update table id values old ∈ Edit.log edits →
    cat.rowAt (table, id) = some values

/-- Edits that change no row twice leave what they write. -/
theorem Edit.Run.landed (run : Edit.Run cat edits cat')
    (distinct : ((Edit.log edits).map Change.address).Nodup) : Edit.Landed cat' edits := by
  intro table id values old member
  obtain ⟨last, among, same, image⟩ := run.exists_image member
  have only : last = .update table id values old := List.inj_on_of_nodup_map distinct among member same
  rw [only] at image
  exact image

namespace ForeignKeyRef

/-- A parent row with the full key of a child row is found under its string. -/
theorem parentHolds_of_row (exact_ : cat.Exact) {id : Nat} {p : Row} {key : String}
    (some_ : f.parentColumns ≠ []) (stored : cat.rowAt (f.parent, id) = some p)
    (filed : foreignKey f.parentColumns p = some key) : f.parentHolds cat key = true := by
  obtain ⟨t, isParent, found⟩ := Option.bind_eq_some_iff.mp stored
  rw [parentHolds, isParent, Option.any_some, Table.hasKey_eq_scanKey (exact_ _ _ isParent)]
  exact Table.scanKey_iff.mpr ⟨id, p, found, uniqueKey_of_foreignKey some_ filed⟩

/-- Edits keep the accounts, if their own entries are yet to be looked at and the lookups
afterwards are right. -/
theorem Accounted.grows (accounted : f.Accounted rows cat log window)
    (run : Edit.Run cat edits cat') (logged : Edit.log edits ⊆ log)
    (landed : Edit.Landed cat' edits) (exact_ : cat'.Exact)
    (right : Edit.log edits ≠ [] → f.Right rows cat') :
    f.Accounted rows cat' log (window ++ Edit.log edits) := by
  intro id row key among found filed
  by_cases touched : (f.child, id) ∈ (Edit.log edits).map Change.address
  · exact Or.inl (List.map_subset _ logged touched)
  rcases accounted id row key among ((run.kept touched).symm.trans found) filed with
    listed | ⟨parentId, p, stored, same⟩ | ⟨change, member, removes⟩
  · exact Or.inl listed
  · by_cases changed : (f.parent, parentId) ∈ (Edit.log edits).map Change.address
    · obtain ⟨change, member, address, replaced⟩ := run.exists_old changed
      rw [stored] at replaced
      have held : foreignKey f.parentColumns p = some key := (foreignKey_of_same same) ▸ filed
      have parent : f.parent = change.table := (congrArg Prod.fst address).symm
      cases change with
      | insert table other values => cases replaced
      | delete table other old =>
          cases replaced
          refine Or.inr (Or.inr ⟨_, List.mem_append_right _ member, Or.inl ?_⟩)
          rw [deletedKey]
          exact (if_pos parent.symm).trans held
      | update table other values old =>
          cases replaced
          by_cases keeps : foreignKey f.parentColumns p = foreignKey f.parentColumns values
          · -- The new parent key is the same string, so that the parent reports it.
            have there : cat'.rowAt (f.parent, parentId) = some values :=
              address ▸ landed table other values p member
            by_cases none_ : f.parentColumns = []
            · refine Or.inr (Or.inl ⟨parentId, values, there, ?_⟩)
              simpa only [SameKey, none_, keyValues, List.map_nil] using same
            · exact Or.inr (Or.inl (right (List.ne_nil_of_mem member) id row among found key filed
                (parentHolds_of_row exact_ none_ there (keeps ▸ held))))
          · refine Or.inr (Or.inr ⟨_, List.mem_append_right _ member, Or.inr ?_⟩)
            rw [updatedKey]
            exact (if_pos ⟨parent.symm, keeps⟩).trans held
    · exact Or.inr (Or.inl ⟨parentId, p, (run.kept changed).trans stored, same⟩)
  · exact Or.inr (Or.inr ⟨change, List.mem_append_left _ member, removes⟩)

/-! ## One foreign key -/

/-- Once a window has been looked at, its entries need no more account: a child row whose key they
removed either has another parent or is a hit. -/
theorem Accounted.looked (accounted : f.Accounted rows cat log (window ++ more))
    (right : f.Right rows cat)
    (unreferenced : ∀ row ∈ f.childRows cat, f.references (f.updated cat window) row.2 = false)
    (hits : ∀ row ∈ f.hits cat window, (f.child, row.1) ∈ log.map Change.address) :
    f.Accounted rows cat log more := by
  intro id row key among found filed
  rcases accounted id row key among found filed with listed | held | ⟨change, member, removes⟩
  · exact Or.inl listed
  · exact Or.inr (Or.inl held)
  rcases List.mem_append.mp member with looked | later
  · by_cases holds : f.parentHolds cat key = true
    · exact Or.inr (Or.inl (right id row among found key filed holds))
    · have gone : (!f.parentHolds cat key) = true := by simpa using holds
      obtain ⟨t, isChild, stored⟩ := Option.bind_eq_some_iff.mp found
      rcases removes with deletes | updates
      · have removed : key ∈ f.deleted cat window :=
          List.mem_filter.mpr ⟨List.mem_filterMap.mpr ⟨change, looked, deletes⟩, gone⟩
        exact Or.inl (hits (id, row) ((mem_hits isChild).mpr ⟨stored, key, filed, removed⟩))
      · have removed : key ∈ f.updated cat window :=
          List.mem_filter.mpr ⟨List.mem_filterMap.mpr ⟨change, looked, updates⟩, gone⟩
        have apart_ := unreferenced (id, row) ((mem_childRows isChild).mpr stored)
        simp [references, filed, removed] at apart_
  · exact Or.inr (Or.inr ⟨change, later, removes⟩)

end ForeignKeyRef

end Accounts

/-! ## Turns -/

section Turns

variable {all : List ForeignKeyRef} {start : Nat} {txn txn' : Txn} {turn : Turn} {turns : List Turn}

namespace CascadeStep

/-- A turn logs every row that it hits. -/
theorem hits_logged (step : CascadeStep all start txn turn txn') :
    ∀ row ∈ turn.hits, (turn.key.child, row.1) ∈ (Edit.log turn.edits).map Change.address :=
  fun _ hit => step.touches_iff.mp (Turn.touches_of_hit hit)

theorem landed (step : CascadeStep all start txn turn txn') : Edit.Landed txn'.work turn.edits :=
  step.grows.run.landed turn.nodup_log

/-- A child row that a turn spares keeps the values of its key. -/
theorem spared (step : CascadeStep all start txn turn txn') {f : ForeignKeyRef} {id : Nat}
    (keeps : ¬ turn.Clears f id) {row : Row} (found : txn.work.rowAt (f.child, id) = some row) :
    ∃ row', txn'.work.rowAt (f.child, id) = some row' ∧
      keyValues f.columns row' = keyValues f.columns row := by
  by_cases touched : turn.Touches (f.child, id)
  · have other : ∀ i ∈ f.columns, i ∉ turn.key.columns := fun i member inside =>
      keeps ⟨touched, Or.inr ⟨i, member, inside⟩⟩
    obtain ⟨child, among⟩ := touched
    obtain ⟨hit, member, number⟩ := List.mem_map.mp among
    simp only at child number
    cases action : turn.key.onDelete with
    | restrict =>
        rw [step.no_hits action] at member
        cases member
    | cascade => exact absurd ⟨⟨child, among⟩, Or.inl action⟩ keeps
    | setNull =>
        have stored := step.stored member
        rw [child, number, found] at stored
        cases stored
        have nulled := step.nulled action member
        rw [child, number] at nulled
        refine ⟨_, nulled, List.map_congr_left fun i inKey => ?_⟩
        rw [cell_nullColumns, if_neg (other i inKey)]
  · exact ⟨row, (step.kept touched).trans found, rfl⟩

end CascadeStep

namespace CascadeRun

theorem spared (run : CascadeRun all start txn turns txn') {f : ForeignKeyRef} {id : Nat}
    (keeps : Spared turns f id) {row : Row} (found : txn.work.rowAt (f.child, id) = some row) :
    ∃ row', txn'.work.rowAt (f.child, id) = some row' ∧
      keyValues f.columns row' = keyValues f.columns row := by
  induction run generalizing row with
  | nil => exact ⟨row, found, rfl⟩
  | cons head _ ih =>
      obtain ⟨here, later⟩ := List.forall_mem_cons.mp keeps
      obtain ⟨middle, foundMiddle, same⟩ := head.spared here found
      obtain ⟨row', found', rest⟩ := ih later foundMiddle
      exact ⟨row', found', rest.trans same⟩

/-- A child row that still references something at the end has been spared. -/
theorem spared_of_complete (run : CascadeRun all start txn turns txn') {f : ForeignKeyRef} {id : Nat}
    {row : Row} (found : txn'.work.rowAt (f.child, id) = some row) (complete : Complete f.columns row) :
    Spared turns f id := by
  induction run with
  | nil => simp [Spared]
  | @cons first turn second rest last head tail ih =>
      refine List.forall_mem_cons.mpr ⟨fun clears => ?_, ih found⟩
      obtain ⟨middle, foundMiddle, thins⟩ := CascadeRun.thins tail found
      obtain ⟨⟨child, among⟩, why⟩ := clears
      obtain ⟨hit, member, number⟩ := List.mem_map.mp among
      simp only at child number
      cases action : turn.key.onDelete with
      | restrict =>
          rw [head.no_hits action] at member
          cases member
      | cascade =>
          rw [head.deleted action ⟨child, among⟩] at foundMiddle
          cases foundMiddle
      | setNull =>
          obtain ⟨i, inKey, inTurn⟩ := why.resolve_left (by rw [action]; exact OnDelete.noConfusion)
          have nulled := head.nulled action member
          rw [child, number, foundMiddle] at nulled
          cases nulled
          have null := thins i
          rw [cell_nullColumns, if_pos inTurn, or_self] at null
          have filled := complete i inKey
          rw [null] at filled
          cases filled

end CascadeRun

/-- A turn of a round, and the one after it. -/
theorem roundTurns_cons {user : String} {window : List Change} {f : ForeignKeyRef}
    {fks : List ForeignKeyRef} (passed : (enforceForeignKey user window f txn).1 = .ok ()) :
    roundTurns user window (f :: fks) txn =
      ⟨f, window, txn⟩ :: roundTurns user window fks (enforceForeignKey user window f txn).2 := by
  rw [roundTurns]
  split
  · next equal => rw [equal]
  · next equal =>
      rw [equal] at passed
      cases passed

/-- The first turn of a round finds the transaction as the round does. -/
theorem exists_first_turn {user : String} {window : List Change} {fks : List ForeignKeyRef}
    {after : Txn} (some_ : fks ≠ []) (success : enforceRound user window fks txn = (.ok (), after)) :
    ∃ turn ∈ roundTurns user window fks txn, turn.txn = txn := by
  obtain ⟨f, rest, rfl⟩ := List.exists_cons_of_ne_nil some_
  unfold enforceRound at success
  split at success
  · next equal =>
      rw [roundTurns_cons (by rw [equal])]
      exact ⟨_, List.mem_cons_self, rfl⟩
  · cases success

/-- If there is something to enforce, the first turn finds the transaction as the enforcement
does. -/
theorem exists_first_turn_of_entries {user : String} {f : ForeignKeyRef}
    (success : enforceForeignKeys user start txn = (.ok (), txn'))
    (member : f ∈ txn.work.foreignKeys.filter (·.enabled)) (entries : txn.log.drop start ≠ []) :
    ∃ turn ∈ enforcementTurns user start txn, turn.txn = txn := by
  have some_ := List.ne_nil_of_mem member
  have more : start < txn.log.length := by
    by_contra short
    exact entries (List.drop_eq_nil_of_le (by omega))
  unfold enforceForeignKeys at success
  simp only [List.isEmpty_iff, some_, if_false] at success
  split at success
  · next last rounds =>
      rw [enforceRounds, if_pos more] at rounds
      split at rounds
      · next middle round =>
          obtain ⟨turn, first, found⟩ := exists_first_turn some_ round
          refine ⟨turn, ?_, found⟩
          rw [enforcementTurns, roundsTurns, if_pos more]
          simp only [round]
          exact List.mem_append_left _ first
      · cases rounds
  · cases success

/-- Where every foreign key is satisfied at the end, each lookup for a child row that was spared has
been right. -/
theorem CascadeRun.looksUpRight {fks : List ForeignKeyRef}
    (run : CascadeRun all start txn turns txn') (satisfied : ∀ f ∈ fks, f.Satisfied txn'.work) :
    LooksUpRight fks turns := by
  intro turn among f member id row spared found key filed _
  obtain ⟨before, after, rfl⟩ := List.append_of_mem among
  obtain ⟨next, -, step, rest⟩ := run.at_turn
  have whole : CascadeRun all start turn.txn (turn :: after) txn' := .cons step rest
  obtain ⟨row', found', same⟩ := whole.spared
    (fun later here => spared later (List.mem_append_right _ here)) found
  have complete : Complete f.columns row := foreignKey_isSome.mp ⟨key, filed⟩
  have filled : (keyValues f.columns row).any Value.isNull = false := by
    simpa [Complete] using complete
  have complete' : Complete f.columns row' := by
    rw [← same] at filled
    simpa [Complete] using filled
  obtain ⟨parentId, q', stored', same'⟩ := satisfied f member id row' found' complete'
  obtain ⟨q, stored, thins⟩ := CascadeRun.thins whole stored'
  have full : ∀ i ∈ f.parentColumns, (cell q' i).isNull = false := by
    have none_ := any_isNull_of_same same'
    rw [same, filled] at none_
    simpa using none_.symm
  refine ⟨parentId, q, stored, ?_⟩
  rw [SameKey, ← same, thins.keyValues full]
  exact same'

end Turns

/-! ## Rounds -/

section Rounds

variable {all : List ForeignKeyRef} {start : Nat} {txn txn' : Txn}
  {rows : ForeignKeyRef → Nat → Prop} (user : String)

/-- A round accounts for its window: for the foreign keys it has looked at, only what it has
logged itself is left to be looked at. -/
theorem enforceRound_accounts {fks : List ForeignKeyRef} {window : List Change}
    (exact_ : txn.work.Exact) (among : ∀ f ∈ fks, f ∈ all) (inside : window ⊆ txn.log.drop start)
    (success : enforceRound user window fks txn = (.ok (), txn'))
    (rights : ∀ turn ∈ roundTurns user window fks txn, ∀ f ∈ all, f.Right (rows f) turn.txn.work)
    (right : ∀ f ∈ all, f.Right (rows f) txn'.work) :
    ∃ edits, txn.Grows edits txn' ∧
      ∀ log, Edit.log edits ⊆ log → ∀ g ∈ all, ∀ new,
        (g.Accounted (rows g) txn.work log new →
          g.Accounted (rows g) txn'.work log (new ++ Edit.log edits)) ∧
        (g ∈ fks → g.Accounted (rows g) txn.work log (window ++ new) →
          g.Accounted (rows g) txn'.work log (new ++ Edit.log edits)) := by
  induction fks generalizing txn with
  | nil =>
      cases success
      refine ⟨[], .refl _, fun log _ g _ new => ⟨fun accounted => ?_, fun absent => ?_⟩⟩
      · simpa using accounted
      · cases absent
  | cons f fks ih =>
      unfold enforceRound at success
      have covers : txn.work.Covers := fun name t found => (exact_ name t found).covers
      rcases enforceForeignKey_cases covers with
        ⟨e, failed⟩ | ⟨passed, unreferenced, edits, cascades, grows⟩
      · rw [failed] at success
        cases success
      have sameEdits := cascades.edits_eq
      subst sameEdits
      have step : CascadeStep all start txn ⟨f, window, txn⟩ (enforceForeignKey user window f txn).2 :=
        ⟨rfl, among f List.mem_cons_self, inside, cascades, grows⟩
      have rest : enforceRound user window fks (enforceForeignKey user window f txn).2 =
          (.ok (), txn') := by
        split at success
        · next equal =>
            rw [equal]
            exact success
        · cases success
      rw [roundTurns_cons passed, List.forall_mem_cons] at rights
      obtain ⟨rightHere, rightsLater⟩ := rights
      have exactNext := grows.run.exact exact_
      have rightNext : ∀ g ∈ all, g.Right (rows g) (enforceForeignKey user window f txn).2.work := by
        by_cases last : fks = []
        · subst last
          cases rest
          exact right
        · obtain ⟨turn, member, found⟩ := exists_first_turn last rest
          rw [← found]
          exact rightsLater turn member
      obtain ⟨later, growsLater, accounts⟩ := ih exactNext
        (fun g member => among g (List.mem_cons_of_mem _ member))
        (List.Subset.trans inside grows.drop_subset) rest rightsLater
      refine ⟨_, grows.trans growsLater, fun log logged g member new => ?_⟩
      rw [Edit.log_append] at logged ⊢
      have first := List.Subset.trans (List.subset_append_left _ _) logged
      have second := List.Subset.trans (List.subset_append_right _ _) logged
      have moved : ∀ {w}, g.Accounted (rows g) txn.work log w →
          g.Accounted (rows g) (enforceForeignKey user window f txn).2.work log
            (w ++ Edit.log (Turn.mk f window txn).edits) :=
        fun accounted => accounted.grows grows.run first step.landed exactNext fun _ =>
          rightNext g member
      rw [← List.append_assoc]
      refine ⟨fun accounted => ?_, fun isIn accounted => ?_⟩
      · exact (accounts log second g member _).1 (moved accounted)
      · rcases List.mem_cons.mp isIn with rfl | isLater
        · have hits := fun row hit => List.map_subset _ first (step.hits_logged row hit)
          have settled := accounted.looked (rightHere g member) unreferenced hits
          exact (accounts log second g member _).1 (moved settled)
        · have waiting := moved accounted
          rw [List.append_assoc] at waiting
          exact (accounts log second g member _).2 isLater waiting

/-- The rounds look at every entry. -/
theorem enforceRounds_accounts (fuel : Nat) {from_ : Nat} {log : List Change}
    (exact_ : txn.work.Exact) (after : start ≤ from_)
    (success : enforceRounds user all fuel from_ txn = (.ok (), txn'))
    (rights : ∀ turn ∈ roundsTurns user all fuel from_ txn, ∀ f ∈ all,
      f.Right (rows f) turn.txn.work)
    (logged : txn'.log.drop start ⊆ log)
    (accounted : ∀ g ∈ all, g.Accounted (rows g) txn.work log (txn.log.drop from_))
    (enough : txn.log.drop from_ ≠ [] → 0 < fuel)
    (deletes : HasDelete (txn.log.drop from_) → txn.work.rowCount + 2 ≤ fuel) :
    txn'.work.Exact ∧ ∀ g ∈ all, g.Accounted (rows g) txn'.work log [] ∧
      (txn.log.drop from_ ≠ [] → g.Right (rows g) txn'.work) := by
  induction fuel generalizing txn from_ with
  | zero =>
      have none_ : txn.log.drop from_ = [] := by
        by_contra some_
        exact absurd (enough some_) (Nat.lt_irrefl 0)
      cases success
      rw [none_] at accounted
      exact ⟨exact_, fun g member => ⟨accounted g member, fun some_ => absurd none_ some_⟩⟩
  | succ fuel ih =>
      unfold enforceRounds at success
      unfold roundsTurns at rights
      split at success
      · next more =>
          rw [if_pos more] at rights
          split at success
          · next middle round =>
              simp only [round, List.forall_mem_append] at rights
              obtain ⟨rightsHere, rightsLater⟩ := rights
              have covers : txn.work.Covers := fun name t found => (exact_ name t found).covers
              have inside : txn.log.drop from_ ⊆ txn.log.drop start :=
                (List.drop_suffix_drop_left txn.log after).subset
              obtain ⟨same, growsSame, free, looked⟩ := enforceRound_grows user covers
              rw [round] at growsSame
              have window : middle.log.drop txn.log.length = Edit.log same := by
                rw [growsSame.logged, List.drop_left]
              have edited : middle.log.drop txn.log.length ≠ [] → 0 < fuel := by
                intro some_
                have edited : same ≠ [] := by
                  rintro rfl
                  exact some_ window
                have := deletes (looked edited)
                omega
              have rightMiddle : ∀ f ∈ all, f.Right (rows f) middle.work := by
                intro f member
                have some_ : all ≠ [] := List.ne_nil_of_mem member
                by_cases idle : middle.log.drop txn.log.length = []
                · -- A round that logs nothing leaves the rows as its first turn has found them.
                  obtain ⟨turn, first, found⟩ := exists_first_turn some_ round
                  have turns := enforceRound_run user all covers (fun f member => member) inside
                  rw [round] at turns
                  have sameLog : middle.log = txn.log := by
                    rw [growsSame.logged, ← window, idle, List.append_nil]
                  rw [show middle.work = txn.work from turns.work_of_log sameLog, ← found]
                  exact rightsHere turn first f member
                · obtain ⟨fuel, rfl⟩ := Nat.exists_eq_succ_of_ne_zero (edited idle).ne'
                  have longer : txn.log.length < middle.log.length := by
                    by_contra short
                    exact idle (List.drop_eq_nil_of_le (by omega))
                  unfold enforceRounds at success
                  rw [if_pos longer] at success
                  unfold roundsTurns at rightsLater
                  rw [if_pos longer] at rightsLater
                  split at success
                  · next next_ again =>
                      obtain ⟨turn, first, found⟩ := exists_first_turn some_ again
                      rw [← found]
                      simp only [again, List.forall_mem_append] at rightsLater
                      exact rightsLater.1 turn first f member
                  · cases success
              obtain ⟨edits, grows, accounts⟩ := enforceRound_accounts user exact_
                (fun f member => member) inside round rightsHere rightMiddle
              have sameLog : Edit.log edits = Edit.log same :=
                List.append_cancel_left (grows.logged.symm.trans growsSame.logged)
              have exactMiddle := grows.run.exact exact_
              have later : start ≤ txn.log.length := by omega
              have part : Edit.log edits ⊆ log := by
                have rest := enforceRounds_run user all fuel
                  (fun name t found => (exactMiddle name t found).covers) later
                rw [success] at rest
                refine List.Subset.trans ?_ (List.Subset.trans rest.grows.drop_subset logged)
                rw [grows.logged, List.drop_append_of_le_length later]
                exact List.subset_append_right _ _
              have waiting : ∀ g ∈ all, g.Accounted (rows g) middle.work log
                  (middle.log.drop txn.log.length) := by
                intro g member
                have whole : g.Accounted (rows g) txn.work log (txn.log.drop from_ ++ []) := by
                  rw [List.append_nil]
                  exact accounted g member
                rw [window, ← sameLog]
                exact (accounts log part g member []).2 member whole
              have fewer : HasDelete (middle.log.drop txn.log.length) →
                  middle.work.rowCount + 2 ≤ fuel := by
                rintro ⟨table, id, old, entry⟩
                rw [window] at entry
                have removed := Edit.delete_mem_log entry
                have smaller : middle.work.rowCount < txn.work.rowCount :=
                  (growsSame.run.rowCount free).2 ⟨table, id, old, removed⟩
                have := deletes (looked (List.ne_nil_of_mem removed))
                omega
              obtain ⟨exactLast, settled⟩ := ih exactMiddle later success rightsLater waiting edited fewer
              refine ⟨exactLast, fun g member => ⟨(settled g member).1, fun _ => ?_⟩⟩
              by_cases idle : middle.log.drop txn.log.length = []
              · have stops : txn' = middle := by
                  cases fuel with
                  | zero =>
                      cases success
                      rfl
                  | succ fuel =>
                      have short : ¬ txn.log.length < middle.log.length := by
                        rw [List.drop_eq_nil_iff] at idle
                        omega
                      rw [enforceRounds, if_neg short] at success
                      cases success
                      rfl
                rw [stops]
                exact rightMiddle g member
              · exact (settled g member).2 idle
          · cases success
      · next done =>
          have none_ : txn.log.drop from_ = [] := List.drop_eq_nil_of_le (by omega)
          cases success
          rw [none_] at accounted
          exact ⟨exact_, fun g member => ⟨accounted g member, fun some_ => absurd none_ some_⟩⟩

end Rounds

/-! ## The check of changed rows -/

/-- A row that an entry has left and that is still there has its parent keys. -/
theorem checkParents_ok {user : String} {fks : List ForeignKeyRef} {cat : Catalog} {change : Change}
    (success : checkParents user fks cat change = .ok ()) {values row : Row}
    (image : change.image = some values) (found : cat.rowAt change.address = some row)
    {f : ForeignKeyRef} (member : f ∈ fks) (child : f.child = change.table) {key : String}
    (filed : foreignKey f.columns row = some key) : f.parentHolds cat key = true := by
  by_contra lost
  have missing : (f.child == change.table &&
      (foreignKey f.columns row).any fun key => !f.parentHolds cat key) = true := by
    simpa [child, filed] using lost
  have hit : ∃ g, (fks.find? fun f => f.child == change.table &&
      (foreignKey f.columns row).any fun key => !f.parentHolds cat key) = some g :=
    Option.isSome_iff_exists.mp (List.find?_isSome.mpr ⟨f, member, missing⟩)
  obtain ⟨g, first⟩ := hit
  have foundRow : cat.row change.table change.id = some row := found
  cases change with
  | delete table id old => cases image
  | insert table id values =>
      simp only [checkParents, foundRow, first] at success
      cases success
  | update table id values old =>
      simp only [checkParents, foundRow, first] at success
      cases success

theorem checkAllParents_ok {user : String} {fks : List ForeignKeyRef} {cat : Catalog}
    {log : List Change} (success : checkAllParents user fks cat log = .ok ()) :
    ∀ change ∈ log, checkParents user fks cat change = .ok () := by
  induction log with
  | nil => simp
  | cons change rest ih =>
      unfold checkAllParents at success
      split at success
      · next passed =>
          rw [List.forall_mem_cons]
          exact ⟨passed, ih success⟩
      · cases success

/-- What the updates of a statement write is still there after it. -/
theorem statement_landed {st : DmlState} (ctx : Dml) (sound : st.txn.work.Sound st.nextRowId)
    (stmt : DmlStatement) :
    ∃ edits, st.Extends (ctx.statement stmt st).state edits ∧
      Edit.Landed (ctx.statement stmt st).state.txn.work edits := by
  cases stmt with
  | insert ins =>
      obtain ⟨inserted, extends_, _⟩ := insert_extends sound ins
      refine ⟨_, extends_, fun table id values old member => ?_⟩
      simp only [Edit.log, List.flatMap_map, List.mem_flatMap] at member
      obtain ⟨row, _, entry⟩ := member
      cases List.mem_singleton.mp entry
  | update upd =>
      obtain ⟨changes, extends_, _⟩ := update_extends sound upd
      exact ⟨_, extends_, extends_.grows.run.landed (Txn.nodup_replacing extends_.grows.run)⟩
  | delete del =>
      obtain ⟨rows, extends_, _⟩ := delete_extends sound del
      refine ⟨_, extends_, fun table id values old member => ?_⟩
      simp only [Edit.log, List.flatMap_map, List.mem_flatMap] at member
      obtain ⟨row, _, entry⟩ := member
      cases List.mem_singleton.mp entry

/-- Once it succeeds, the enforcement has accounted for every child row by its parent. -/
theorem enforceForeignKeys_satisfied {user : String} {start : Nat} {txn txn' : Txn}
    (exact_ : txn.work.Exact)
    (right : LooksUpRight (txn.work.foreignKeys.filter (·.enabled)) (enforcementTurns user start txn))
    (success : enforceForeignKeys user start txn = (.ok (), txn'))
    (accounted : ∀ f ∈ txn.work.foreignKeys.filter (·.enabled),
      f.Accounted (Spared (enforcementTurns user start txn) f) txn.work (txn'.log.drop start)
        (txn.log.drop start))
    {cat : Catalog} {edits : List Edit} (run : Edit.Run cat edits txn'.work)
    (logged : Edit.log edits = txn'.log.drop start) :
    ∀ f ∈ txn.work.foreignKeys.filter (·.enabled), f.Satisfied txn'.work := by
  intro f member id row found complete
  have covers : txn.work.Covers := fun name t found => (exact_ name t found).covers
  have turns := enforceForeignKeys_run user start covers
  rw [success] at turns
  have spared := turns.spared_of_complete found complete
  unfold enforceForeignKeys at success
  simp only at success
  split at success
  · next none_ =>
      rw [List.isEmpty_iff.mp none_] at member
      cases member
  split at success
  · next last rounds =>
      obtain ⟨checked, rfl⟩ := Prod.mk.inj success
      obtain ⟨exactLast, settled⟩ := enforceRounds_accounts user _ exact_ (Nat.le_refl start) rounds
        right (List.Subset.refl _) accounted (fun _ => by omega) fun _ => Nat.le_refl _
      obtain ⟨account, rightLast⟩ := settled f member
      obtain ⟨key, filed⟩ := foreignKey_isSome.mpr complete
      rcases account id row key spared found filed with listed | held | ⟨_, absurd_, _⟩
      · have some_ : txn.log.drop start ≠ [] := by
          intro none_
          obtain ⟨-, same, -⟩ := turns.of_no_deletes (by rw [none_]; simp [HasDelete])
          rw [same, none_] at listed
          cases listed
        rw [← logged] at listed
        obtain ⟨change, among, address⟩ := List.mem_map.mp listed
        rw [← address] at found
        obtain ⟨entry, amongLog, sameAddress, image⟩ := run.exists_image among
        rw [found] at image
        rw [logged] at amongLog
        rw [← sameAddress] at found
        have child : f.child = entry.table :=
          (congrArg Prod.fst (sameAddress.trans address)).symm
        have holds := checkParents_ok (checkAllParents_ok checked entry amongLog) image.symm found
          member child filed
        refine rightLast some_ id row spared ?_ key filed holds
        rw [← found, sameAddress, address]
      · exact held
      · cases absurd_
  · cases success

end MockOracle
