import MockOracle.Session.Write

/-!
# Foreign key enforcement

After a statement has run, `enforceForeignKeys` looks at the log entries it wrote. Removed
parent keys are refused or cascade to the child rows that reference them; the cascades log
further entries, which the next round looks at. Then every row the statement inserted or
changed is checked for its parent key.

A step of the enforcement that fails leaves the transaction alone, and one that succeeds
grows it by logged edits. The number of rounds is bounded by the number of rows, since a
round without a deletion before it does nothing.
-/

namespace MockOracle

open Std Semantics

/-! ## The code -/

/-- The error of a foreign key that does not hold. -/
def integrityViolated (user : String) (code : Nat) (name why : String) : OraError :=
  ⟨code, "integrity constraint (" ++ user ++ "." ++ name ++ ") violated - " ++ why⟩

/-- The column as messages spell it. -/
def columnTarget (user table column : String) : String :=
  "(\"" ++ user ++ "\".\"" ++ table ++ "\".\"" ++ column ++ "\")"

/-- The error of SET NULL on a column that may not be NULL. -/
def cannotUpdateToNull (user table column : String) : OraError :=
  ⟨1407, "cannot update " ++ columnTarget user table column ++ " to NULL"⟩

/-- Set columns of a row to NULL. -/
def nullColumns (columns : List Nat) (row : Row) : Row :=
  columns.foldl (fun row c => row.set c .null) row

namespace ForeignKeyRef

/-- The parent key that a change removed by deleting its row. -/
def deletedKey (f : ForeignKeyRef) : Change → Option String
  | .delete table _ old => if table = f.parent then foreignKey f.parentColumns old else none
  | _ => none

/-- The parent key that a change removed by changing it. -/
def updatedKey (f : ForeignKeyRef) : Change → Option String
  | .update table _ values old =>
      if table = f.parent ∧ foreignKey f.parentColumns old ≠ foreignKey f.parentColumns values then
        foreignKey f.parentColumns old
      else none
  | _ => none

/-- Whether a parent row has this key. -/
def parentHolds (f : ForeignKeyRef) (cat : Catalog) (key : String) : Bool :=
  (cat.table f.parent).any fun parent => parent.hasKey f.parentColumns key

/-- The keys that deletions in `window` removed and no other row still holds. -/
def deleted (f : ForeignKeyRef) (cat : Catalog) (window : List Change) : List String :=
  (window.filterMap f.deletedKey).filter fun key => !f.parentHolds cat key

/-- The keys that updates in `window` removed and no other row still holds. -/
def updated (f : ForeignKeyRef) (cat : Catalog) (window : List Change) : List String :=
  (window.filterMap f.updatedKey).filter fun key => !f.parentHolds cat key

/-- The rows of the table that declares the foreign key. -/
def childRows (f : ForeignKeyRef) (cat : Catalog) : List (Nat × Row) :=
  ((cat.table f.child).map fun child => child.rows.toList).getD []

/-- Whether a child row references one of some keys. -/
def references (f : ForeignKeyRef) (keys : List String) (row : Row) : Bool :=
  (foreignKey f.columns row).any fun key => keys.contains key

/-- The child rows that reference a deleted key. -/
def hits (f : ForeignKeyRef) (cat : Catalog) (window : List Change) : List (Nat × Row) :=
  (f.childRows cat).filter fun row => f.references (f.deleted cat window) row.2

/-- The child row with the foreign key's columns set to NULL. -/
def nulling (f : ForeignKeyRef) (row : Nat × Row) : RowChange :=
  ⟨row.1, nullColumns f.columns row.2, row.2⟩

/-- A column of the foreign key that may not become NULL. -/
def fixedColumn (f : ForeignKeyRef) (child : Table) : Option Nat :=
  f.columns.find? fun c => child.required c

end ForeignKeyRef

/-- ON DELETE SET NULL for the child rows `hits`. -/
def setNull (user : String) (f : ForeignKeyRef) (hits : List (Nat × Row)) (txn : Txn) :
    Except OraError Unit × Txn :=
  match txn.work.table f.child with
  | none => (.ok (), txn)
  | some child =>
      match f.fixedColumn child with
      | some c =>
          (.error (cannotUpdateToNull user child.name (((child.columns[c]?).map (·.name)).getD "")),
            txn)
      | none => txn.updateRows user f.child (hits.map f.nulling)

/-- The parent side of one foreign key, for the changes in `window`. -/
def enforceForeignKey (user : String) (window : List Change) (f : ForeignKeyRef) (txn : Txn) :
    Except OraError Unit × Txn :=
  let deleted := f.deleted txn.work window
  let updated := f.updated txn.work window
  if deleted.isEmpty && updated.isEmpty then (.ok (), txn)
  else if (f.childRows txn.work).any fun row => f.references updated row.2 then
    (.error (integrityViolated user 2292 f.name "child record found"), txn)
  else
    let hits := f.hits txn.work window
    if hits.isEmpty then (.ok (), txn)
    else
      match f.onDelete with
      | .restrict => (.error (integrityViolated user 2292 f.name "child record found"), txn)
      | .cascade => (.ok (), txn.deleteRows f.child hits)
      | .setNull => setNull user f hits txn

/-- One round: every foreign key in turn, for the changes in `window`. -/
def enforceRound (user : String) (window : List Change) :
    List ForeignKeyRef → Txn → Except OraError Unit × Txn
  | [], txn => (.ok (), txn)
  | f :: fks, txn =>
      match enforceForeignKey user window f txn with
      | (.ok _, txn) => enforceRound user window fks txn
      | (.error e, txn) => (.error e, txn)

/-- Rounds over the changes that the previous round logged. -/
def enforceRounds (user : String) (fks : List ForeignKeyRef) :
    Nat → Nat → Txn → Except OraError Unit × Txn
  | 0, _, txn => (.ok (), txn)
  | fuel + 1, start, txn =>
      if start < txn.log.length then
        match enforceRound user (txn.log.drop start) fks txn with
        | (.ok _, after) => enforceRounds user fks fuel txn.log.length after
        | (.error e, after) => (.error e, after)
      else (.ok (), txn)

/-- A row that was inserted or changed needs its parent keys. -/
def checkParents (user : String) (fks : List ForeignKeyRef) (cat : Catalog) :
    Change → Except OraError Unit
  | .delete _ _ _ => .ok ()
  | change =>
      match cat.row change.table change.id with
      | none => .ok ()
      | some row =>
          match fks.find? fun f => f.child == change.table &&
              (foreignKey f.columns row).any fun key => !f.parentHolds cat key with
          | some f => .error (integrityViolated user 2291 f.name "parent key not found")
          | none => .ok ()

/-- Check the parents of all rows that the statement and its cascades changed. -/
def checkAllParents (user : String) (fks : List ForeignKeyRef) (cat : Catalog) :
    List Change → Except OraError Unit
  | [] => .ok ()
  | change :: rest =>
      match checkParents user fks cat change with
      | .ok _ => checkAllParents user fks cat rest
      | .error e => .error e

/-- The number of rows in all tables. -/
def Catalog.rowCount (cat : Catalog) : Nat :=
  (cat.tables.toList.map fun entry => entry.2.rows.size).sum

/-- Enforce the foreign keys after a statement whose changes start at `start` in the log. -/
def enforceForeignKeys (user : String) (start : Nat) (txn : Txn) : Except OraError Unit × Txn :=
  let fks := txn.work.foreignKeys.filter (·.enabled)
  if fks.isEmpty then (.ok (), txn)
  else
    match enforceRounds user fks (txn.work.rowCount + 2) start txn with
    | (.ok _, txn) => (checkAllParents user fks txn.work (txn.log.drop start), txn)
    | (.error e, txn) => (.error e, txn)

/-! ## Turns -/

/-- A foreign key that a round has dealt with: the entries it looked at, and the transaction as it
found it. -/
structure Turn where
  key : ForeignKeyRef
  window : List Change
  txn : Txn

namespace Turn

/-- The child rows that the turn deletes or sets to NULL. -/
def hits (turn : Turn) : List (Nat × Row) := turn.key.hits turn.txn.work turn.window

/-- What the turn does to them. -/
def edits (turn : Turn) : List Edit :=
  match turn.key.onDelete with
  | .restrict => []
  | .cascade => turn.hits.map fun row => .delete turn.key.child row.1 row.2
  | .setNull => Txn.replacing turn.key.child (turn.hits.map turn.key.nulling)

end Turn

/-- The turns of a round, up to the first that is refused. -/
def roundTurns (user : String) (window : List Change) : List ForeignKeyRef → Txn → List Turn
  | [], _ => []
  | f :: fks, txn =>
      match enforceForeignKey user window f txn with
      | (.ok _, after) => ⟨f, window, txn⟩ :: roundTurns user window fks after
      | (.error _, _) => []

/-- The turns of all rounds in their order. -/
def roundsTurns (user : String) (fks : List ForeignKeyRef) : Nat → Nat → Txn → List Turn
  | 0, _, _ => []
  | fuel + 1, start, txn =>
      if start < txn.log.length then
        let turns := roundTurns user (txn.log.drop start) fks txn
        match enforceRound user (txn.log.drop start) fks txn with
        | (.ok _, after) => turns ++ roundsTurns user fks fuel txn.log.length after
        | (.error _, _) => turns
      else []

/-- The turns of an enforcement in their order. -/
def enforcementTurns (user : String) (start : Nat) (txn : Txn) : List Turn :=
  roundsTurns user (txn.work.foreignKeys.filter (·.enabled)) (txn.work.rowCount + 2) start txn

/-! ## One foreign key -/

@[simp] theorem length_nullColumns (columns : List Nat) (row : Row) :
    (nullColumns columns row).length = row.length := by
  unfold nullColumns
  induction columns generalizing row with
  | nil => rfl
  | cons c rest ih => rw [List.foldl_cons, ih, List.length_set]

namespace ForeignKeyRef

variable {f : ForeignKeyRef} {cat : Catalog} {window : List Change}

/-- The child rows are the rows of the child table. -/
theorem mem_childRows {t : Table} (found : cat.table f.child = some t) {row : Nat × Row} :
    row ∈ f.childRows cat ↔ t.rows[row.1]? = some row.2 := by
  rw [childRows, found, Option.map_some, Option.getD_some]
  exact ExtTreeMap.mem_toList_iff_getElem?_eq_some

/-- Without the child table there are no child rows. -/
theorem childRows_of_missing (missing : cat.table f.child = none) : f.childRows cat = [] := by
  rw [childRows, missing]
  rfl

/-- No id occurs twice among the child rows. -/
theorem nodup_childRows : ((f.childRows cat).map Prod.fst).Nodup := by
  unfold childRows
  cases cat.table f.child with
  | none => exact List.nodup_nil
  | some t =>
      rw [Option.map_some, Option.getD_some, List.Nodup, List.pairwise_map]
      refine (ExtTreeMap.distinct_keys_toList (t := t.rows)).imp ?_
      intro row other different same
      exact different (by rw [same]; exact compare_self)

/-- No id occurs twice among the rows that are hit. -/
theorem nodup_hits : ((f.hits cat window).map Prod.fst).Nodup :=
  nodup_childRows.sublist ((List.filter_sublist).map Prod.fst)

/-- A hit is a stored child row whose key a deletion removed. -/
theorem mem_hits {t : Table} (found : cat.table f.child = some t) {row : Nat × Row} :
    row ∈ f.hits cat window ↔ t.rows[row.1]? = some row.2 ∧
      ∃ key, foreignKey f.columns row.2 = some key ∧ key ∈ f.deleted cat window := by
  rw [hits, List.mem_filter, mem_childRows found]
  simp [references, Option.any_eq_true]

/-- Without a deleted key no row is hit. -/
theorem hits_of_deleted_nil (none : f.deleted cat window = []) : f.hits cat window = [] := by
  rw [hits, List.filter_eq_nil_iff]
  intro row _
  simp [references, none]

/-- The edits of one foreign key's cascade. -/
inductive Cascades (f : ForeignKeyRef) (cat : Catalog) (window : List Change) :
    List Edit → Prop where
  | idle (none : f.hits cat window = []) : Cascades f cat window []
  | cascade (action : f.onDelete = .cascade) :
      Cascades f cat window ((f.hits cat window).map fun row => .delete f.child row.1 row.2)
  | setNull {child : Table} (action : f.onDelete = .setNull) (found : cat.table f.child = some child)
      (nullable : f.fixedColumn child = none) :
      Cascades f cat window (Txn.replacing f.child ((f.hits cat window).map f.nulling))

end ForeignKeyRef

/-- What a refused step leaves: the rows and the log of before, and where the indexes cover
the rows, everything. -/
structure Refused (txn txn' : Txn) : Prop where
  log : txn'.log = txn.log
  rows : ∀ a, txn'.work.rowAt a = txn.work.rowAt a
  restored : txn.work.Covers → txn' = txn

/-- A refusal that changed nothing has refused the transaction as it is. -/
theorem Refused.refl (txn : Txn) : Refused txn txn := ⟨rfl, fun _ => rfl, fun _ => rfl⟩

/-- ON DELETE SET NULL grows the transaction by one edit or is refused. -/
theorem setNull_cases (user : String) {f : ForeignKeyRef} {txn : Txn} {window : List Change}
    {child : Table} (found : txn.work.table f.child = some child) :
    (∃ e, (setNull user f (f.hits txn.work window) txn).1 = .error e ∧
      Refused txn (setNull user f (f.hits txn.work window) txn).2) ∨
    ((setNull user f (f.hits txn.work window) txn).1 = .ok () ∧ f.fixedColumn child = none ∧
      txn.Grows (Txn.replacing f.child ((f.hits txn.work window).map f.nulling))
        (setNull user f (f.hits txn.work window) txn).2) := by
  have distinct : (((f.hits txn.work window).map f.nulling).map RowChange.id).Nodup := by
    rw [List.map_map]
    exact ForeignKeyRef.nodup_hits
  have olds : ∀ r ∈ (f.hits txn.work window).map f.nulling, child.rows[r.id]? = some r.old := by
    intro r member
    obtain ⟨row, hit, rfl⟩ := List.mem_map.mp member
    exact ((ForeignKeyRef.mem_hits found).mp hit).1
  have width : ∀ r ∈ (f.hits txn.work window).map f.nulling, r.values.length = r.old.length := by
    intro r member
    obtain ⟨row, _, rfl⟩ := List.mem_map.mp member
    exact length_nullColumns _ _
  unfold setNull
  rw [found]
  simp only
  split
  · exact Or.inl ⟨_, rfl, .refl txn⟩
  · next nullable =>
      cases outcome : (txn.updateRows user f.child ((f.hits txn.work window).map f.nulling)).1 with
      | ok _ =>
          exact Or.inr ⟨rfl, nullable, Txn.updateRows_ok user found distinct olds width outcome⟩
      | error e =>
          obtain ⟨log, rows⟩ := Txn.updateRows_error user found olds outcome
          refine Or.inl ⟨e, rfl, log, rows, fun covers => ?_⟩
          obtain ⟨success, _⟩ | ⟨_, failed⟩ :=
            Txn.updateRows_spec user found (covers _ _ found) distinct olds width
          · rw [outcome] at success
            cases success
          · rw [failed]

/-- A foreign key that is refused changes no row. One that is not has no child row of an
updated key, and grows the transaction by its cascade. -/
theorem enforceForeignKey_outcome (user : String) (window : List Change) (f : ForeignKeyRef)
    (txn : Txn) :
    (∃ e, (enforceForeignKey user window f txn).1 = .error e ∧
      Refused txn (enforceForeignKey user window f txn).2) ∨
    ((enforceForeignKey user window f txn).1 = .ok () ∧
      (∀ row ∈ f.childRows txn.work, f.references (f.updated txn.work window) row.2 = false) ∧
      ∃ edits, f.Cascades txn.work window edits ∧
        txn.Grows edits (enforceForeignKey user window f txn).2) := by
  unfold enforceForeignKey
  simp only
  split
  · next nothing =>
      simp only [Bool.and_eq_true, List.isEmpty_iff] at nothing
      refine Or.inr ⟨rfl, fun row _ => ?_, [], .idle ?_, .refl txn⟩
      · simp [ForeignKeyRef.references, nothing.2]
      · exact ForeignKeyRef.hits_of_deleted_nil nothing.1
  · split
    · exact Or.inl ⟨_, rfl, .refl txn⟩
    · next unreferenced =>
        have apart : ∀ row ∈ f.childRows txn.work,
            f.references (f.updated txn.work window) row.2 = false := by
          simpa using unreferenced
        split
        · next none =>
            exact Or.inr ⟨rfl, apart, [], .idle (List.isEmpty_iff.mp none), .refl txn⟩
        · next some_ =>
            obtain ⟨child, found⟩ : ∃ child, txn.work.table f.child = some child := by
              cases found : txn.work.table f.child with
              | some child => exact ⟨child, rfl⟩
              | none =>
                  simp [ForeignKeyRef.hits, ForeignKeyRef.childRows_of_missing found] at some_
            have stored : ∀ row ∈ f.hits txn.work window, child.rows[row.1]? = some row.2 :=
              fun row member => ((ForeignKeyRef.mem_hits found).mp member).1
            split
            · exact Or.inl ⟨_, rfl, .refl txn⟩
            · next action =>
                exact Or.inr ⟨rfl, apart, _, .cascade action,
                  Txn.deleteRows_grows found ForeignKeyRef.nodup_hits stored⟩
            · next action =>
                obtain refused | ⟨success, nullable, grows⟩ := setNull_cases user found
                · exact Or.inl refused
                · exact Or.inr ⟨success, apart, _, .setNull action found nullable, grows⟩

/-- Where the indexes cover the rows, a foreign key that is refused changes nothing. -/
theorem enforceForeignKey_cases {user : String} {window : List Change} {f : ForeignKeyRef}
    {txn : Txn} (covers : txn.work.Covers) :
    (∃ e, enforceForeignKey user window f txn = (.error e, txn)) ∨
    ((enforceForeignKey user window f txn).1 = .ok () ∧
      (∀ row ∈ f.childRows txn.work, f.references (f.updated txn.work window) row.2 = false) ∧
      ∃ edits, f.Cascades txn.work window edits ∧
        txn.Grows edits (enforceForeignKey user window f txn).2) := by
  obtain ⟨e, failed, refused⟩ | success := enforceForeignKey_outcome user window f txn
  · exact Or.inl ⟨e, Prod.ext failed (refused.restored covers)⟩
  · exact Or.inr success

/-- The edits of a cascade are those of its turn. -/
theorem ForeignKeyRef.Cascades.edits_eq {f : ForeignKeyRef} {txn : Txn} {window : List Change}
    {edits : List Edit} (cascades : f.Cascades txn.work window edits) :
    edits = (Turn.mk f window txn).edits := by
  cases cascades with
  | idle none_ =>
      simp only [Turn.edits, Turn.hits, none_]
      split
      · rfl
      · rfl
      · rw [List.map_nil, Txn.replacing, if_pos rfl]
  | cascade action => simp only [Turn.edits, Turn.hits, action]
  | setNull action found nullable => simp only [Turn.edits, Turn.hits, action]

/-! ## Rounds -/

/-- A turn within the enforcement that starts at `start` in the log. -/
structure CascadeStep (fks : List ForeignKeyRef) (start : Nat) (txn : Txn) (turn : Turn)
    (txn' : Txn) : Prop where
  found : turn.txn = txn
  member : turn.key ∈ fks
  inside : turn.window ⊆ txn.log.drop start
  cascades : turn.key.Cascades txn.work turn.window turn.edits
  grows : txn.Grows turn.edits txn'

/-- Turns one after another. -/
abbrev CascadeRun (fks : List ForeignKeyRef) (start : Nat) :=
  Steps (CascadeStep fks start)

/-- The turns of a cascade make the transaction grow by their edits. -/
theorem CascadeRun.grows {fks : List ForeignKeyRef} {turns : List Turn} {start : Nat}
    {txn txn' : Txn} (run : CascadeRun fks start txn turns txn') :
    txn.Grows (turns.flatMap Turn.edits) txn' := by
  induction run with
  | nil => exact .refl _
  | cons head _ ih => exact head.grows.trans ih

/-- A transaction that grows keeps its indexes covering. -/
theorem Txn.Grows.covers {txn txn' : Txn} {edits : List Edit} (grows : txn.Grows edits txn')
    (covers : txn.work.Covers) : txn'.work.Covers := Edit.Run.covers grows.run covers

/-- The entries from a place on are still there when a transaction has grown. -/
theorem Txn.Grows.drop_subset {txn txn' : Txn} {edits : List Edit} (grows : txn.Grows edits txn')
    {start : Nat} : txn.log.drop start ⊆ txn'.log.drop start := by
  rw [grows.logged, List.drop_append]
  exact List.subset_append_left _ _

variable (user : String) (all : List ForeignKeyRef) {start : Nat} {txn : Txn}

/-- The turns of a round are a run of the cascade. -/
theorem enforceRound_run {fks : List ForeignKeyRef} {window : List Change} (covers : txn.work.Covers)
    (among : ∀ f ∈ fks, f ∈ all) (inside : window ⊆ txn.log.drop start) :
    CascadeRun all start txn (roundTurns user window fks txn) (enforceRound user window fks txn).2 := by
  induction fks generalizing txn with
  | nil => exact .nil
  | cons f fks ih =>
      unfold enforceRound roundTurns
      rcases enforceForeignKey_cases covers with ⟨e, failed⟩ | ⟨success, _, edits, cascades, grows⟩
      · rw [failed]
        exact .nil
      · have same := cascades.edits_eq
        subst same
        have step : CascadeStep all start txn ⟨f, window, txn⟩ (enforceForeignKey user window f txn).2 :=
          ⟨rfl, among f List.mem_cons_self, inside, cascades, grows⟩
        have rest := ih (grows.covers covers)
          (fun g member => among g (List.mem_cons_of_mem _ member))
          (List.Subset.trans inside grows.drop_subset)
        split
        · next txn' equal =>
            rw [equal] at rest step
            exact .cons step rest
        · next e txn' equal =>
            rw [equal] at success
            cases success

/-- The turns of all rounds are a run of the cascade. -/
theorem enforceRounds_run (fuel : Nat) {from_ : Nat} (covers : txn.work.Covers) (after : start ≤ from_) :
    CascadeRun all start txn (roundsTurns user all fuel from_ txn)
      (enforceRounds user all fuel from_ txn).2 := by
  induction fuel generalizing txn from_ with
  | zero => exact .nil
  | succ fuel ih =>
      unfold enforceRounds roundsTurns
      split
      · next more =>
          have inside : txn.log.drop from_ ⊆ txn.log.drop start :=
            (List.drop_suffix_drop_left txn.log after).subset
          have first := enforceRound_run user all covers (fun f member => member) inside
          split
          · next txn' equal =>
              rw [equal] at first
              have later : start ≤ txn.log.length := by omega
              exact first.append (ih (first.grows.covers covers) later)
          · next e txn' equal =>
              rw [equal] at first
              exact first
      · exact .nil

/-- Without foreign keys there are no turns. -/
theorem roundsTurns_nil (fuel from_ : Nat) : roundsTurns user [] fuel from_ txn = [] := by
  induction fuel generalizing txn from_ with
  | zero => rfl
  | succ fuel ih =>
      unfold roundsTurns
      split
      · exact ih _
      · rfl

/-- Whatever its outcome, enforcement is a run of its turns. -/
theorem enforceForeignKeys_run (start : Nat) (covers : txn.work.Covers) :
    CascadeRun (txn.work.foreignKeys.filter (·.enabled)) start txn
      (enforcementTurns user start txn) (enforceForeignKeys user start txn).2 := by
  unfold enforceForeignKeys
  simp only
  split
  · next none_ =>
      rw [enforcementTurns, List.isEmpty_iff.mp none_, roundsTurns_nil]
      exact .nil
  · have run := enforceRounds_run user (txn.work.foreignKeys.filter (·.enabled))
      (txn.work.rowCount + 2) covers (Nat.le_refl start)
    rw [enforcementTurns]
    split
    · next txn' equal =>
        rw [equal] at run
        exact run
    · next e txn' equal =>
        rw [equal] at run
        exact run

end MockOracle
