import MockOracle.Eval.Literal
import MockOracle.Eval.Plain

/-!
# GROUP BY

The rows that WHERE accepts are put into groups one after the other, each behind the rows of its key
that came before it. In the end there is one group for each key, in the order in which the keys were
first seen, and it has the rows of that key in their order.
-/

namespace MockOracle

/-! ## Adding rows to groups -/

/-- The rows of a key. -/
def rowsOfKey (keyed : List (String × Row)) (key : String) : List Row :=
  (keyed.filter fun entry => entry.1 == key).map Prod.snd

/-- One group for each key, in the order in which the keys come first. -/
def groupsByKey (keyed : List (String × Row)) : List (String × List Row) :=
  (keyed.map Prod.fst).eraseDups.map fun key => (key, rowsOfKey keyed key)

/-- Adding a row to groups that are listed by distinct keys. -/
theorem addToGroup_map {key : String} {row : Row} {keys : List String} (nodup : keys.Nodup)
    (rowsOf : String → List Row) :
    addToGroup key row (keys.map fun k => (k, rowsOf k)) =
      if key ∈ keys then keys.map fun k => (k, if k = key then rowsOf k ++ [row] else rowsOf k)
      else (keys.map fun k => (k, rowsOf k)) ++ [(key, [row])] := by
  induction keys with
  | nil => rfl
  | cons k rest ih =>
      obtain ⟨fresh, nodup⟩ := List.nodup_cons.mp nodup
      rw [List.map_cons, addToGroup]
      by_cases same : k = key
      · subst same
        rw [if_pos rfl, if_pos List.mem_cons_self, List.map_cons, if_pos rfl]
        congr 1
        refine List.map_congr_left fun other member => ?_
        rw [if_neg]
        rintro rfl
        exact fresh member
      · rw [if_neg same, ih nodup]
        have other : key ∈ k :: rest ↔ key ∈ rest := by
          rw [List.mem_cons]
          exact or_iff_right (Ne.symm same)
        by_cases known : key ∈ rest
        · rw [if_pos known, if_pos (other.mpr known), List.map_cons, if_neg same]
        · rw [if_neg known, if_neg (mt other.mp known)]
          rfl

/-- The rows of a key once another row has been added. -/
theorem rowsOfKey_concat (keyed : List (String × Row)) (key : String) (row : Row) (k : String) :
    rowsOfKey (keyed ++ [(key, row)]) k =
      if k = key then rowsOfKey keyed k ++ [row] else rowsOfKey keyed k := by
  unfold rowsOfKey
  rw [List.filter_append, List.map_append]
  by_cases same : k = key
  · subst same
    simp
  · simp [same, Ne.symm same]

/-- A key that has not come up has no rows. -/
theorem rowsOfKey_eq_nil {keyed : List (String × Row)} {key : String}
    (fresh : key ∉ keyed.map Prod.fst) : rowsOfKey keyed key = [] := by
  unfold rowsOfKey
  rw [List.map_eq_nil_iff, List.filter_eq_nil_iff]
  intro entry member same
  exact fresh (eq_of_beq same ▸ List.mem_map_of_mem member)

/-- Another key is new among the distinct keys, or it is there already. -/
theorem eraseDups_concat (keys : List String) (key : String) :
    (keys ++ [key]).eraseDups = if key ∈ keys then keys.eraseDups else keys.eraseDups ++ [key] := by
  rw [List.eraseDups_append]
  by_cases known : key ∈ keys
  · simp [List.removeAll, known]
  · simp [List.removeAll, known, List.eraseDups_cons]

/-- The distinct keys are distinct. -/
theorem nodup_eraseDups (keys : List String) : keys.eraseDups.Nodup := by
  induction keys using List.reverseRecOn with
  | nil => exact List.nodup_nil
  | append_singleton keys key ih =>
      rw [eraseDups_concat]
      split
      · exact ih
      · next fresh =>
          refine List.nodup_append.mpr ⟨ih, List.nodup_singleton key, ?_⟩
          rintro k known _ last rfl
          rw [List.mem_singleton.mp last] at known
          exact fresh (List.mem_eraseDups.mp known)

/-- One more row goes to the group of its key, or begins it behind the others. -/
theorem addToGroup_groupsByKey (keyed : List (String × Row)) (key : String) (row : Row) :
    addToGroup key row (groupsByKey keyed) = groupsByKey (keyed ++ [(key, row)]) := by
  unfold groupsByKey
  rw [addToGroup_map (nodup_eraseDups _), List.map_append, List.map_singleton, eraseDups_concat]
  simp only [List.mem_eraseDups, rowsOfKey_concat]
  split
  · rfl
  · next fresh =>
      rw [List.map_append, List.map_singleton, if_pos rfl, rowsOfKey_eq_nil fresh]
      congr 1
      refine List.map_congr_left fun k known => ?_
      rw [if_neg]
      rintro rfl
      exact fresh (List.mem_eraseDups.mp known)

/-- No group is empty. -/
theorem ne_nil_of_mem_groupsByKey {keyed : List (String × Row)} {group : String × List Row}
    (member : group ∈ groupsByKey keyed) : group.2 ≠ [] := by
  obtain ⟨key, known, rfl⟩ := List.mem_map.mp member
  obtain ⟨entry, among, rfl⟩ := List.mem_map.mp (List.mem_eraseDups.mp known)
  refine List.ne_nil_of_mem (a := entry.2) (List.mem_map_of_mem (List.mem_filter.mpr ⟨among, ?_⟩))
  exact beq_self_eq_true entry.1

/-- Adding a row to its group adds it to the rows of all groups. -/
theorem addToGroup_perm (key : String) (row : Row) (groups : List (String × List Row)) :
    ((addToGroup key row groups).map Prod.snd).flatten.Perm
      ((groups.map Prod.snd).flatten ++ [row]) := by
  induction groups with
  | nil => exact .refl _
  | cons group rest ih =>
      obtain ⟨k, rows⟩ := group
      rw [addToGroup]
      split
      · simp only [List.map_cons, List.flatten_cons, List.append_assoc]
        exact List.perm_append_comm.append_left rows
      · simp only [List.map_cons, List.flatten_cons, List.append_assoc]
        exact ih.append_left rows

/-- The groups have every row once. -/
theorem groupsByKey_perm (keyed : List (String × Row)) :
    ((groupsByKey keyed).map Prod.snd).flatten.Perm (keyed.map Prod.snd) := by
  induction keyed using List.reverseRecOn with
  | nil => exact .refl _
  | append_singleton keyed entry ih =>
      obtain ⟨key, row⟩ := entry
      rw [← addToGroup_groupsByKey, List.map_append]
      exact (addToGroup_perm key row _).trans (ih.append_right [row])

/-! ## The rows of a SELECT block -/

section

variable {self : Recur} {ex : Ex} {parent : Option Scope} {cols : List RelCol}
variable {groupBy : List Expr} {st st' : EvalState}

/-- The values of the GROUP BY expressions in an accepted row. -/
def groupKey (self : Recur) (ex : Ex) (parent : Option Scope) (cols : List RelCol)
    (groupBy : List Expr) (entry : Int × Row) : EvalM (List Value) :=
  forEach (fun g =>
    if containsAggregate g then throw notAllowed
    else self.eval ex g (.mk cols entry.2 none entry.1 parent)) groupBy

/-- A list of values that the GROUP BY expressions gave in an accepted row. -/
def GroupKey (self : Recur) (ex : Ex) (parent : Option Scope) (cols : List RelCol)
    (groupBy : List Expr) (entry : Int × Row) (key : List Value) : Prop :=
  ∃ before after, groupKey self ex parent cols groupBy entry before = .ok key after

/-- The rows of the entries under the texts of their keys. -/
def keyedRows (accepted : List (Int × Row)) (keys : List (List Value)) : List (String × Row) :=
  (keys.map keyString).zip (accepted.map Prod.snd)

/-- The loop over the accepted rows groups them by their keys. -/
theorem groupRows_groupsByKey {accepted : List (Int × Row)} (before : List (String × Row))
    {groups : List (List Row)}
    (success : groupRows self ex parent cols groupBy accepted (groupsByKey before) st =
      .ok groups st') :
    ∃ keys, List.Forall₂ (GroupKey self ex parent cols groupBy) accepted keys ∧
      groups = (groupsByKey (before ++ keyedRows accepted keys)).map Prod.snd := by
  induction accepted generalizing before st with
  | nil =>
      refine ⟨[], .nil, ?_⟩
      rw [(pure_ok success).1]
      simp [keyedRows]
  | cons entry rest ih =>
      obtain ⟨rownum, row⟩ := entry
      obtain ⟨key, later, evaluated, success⟩ := bind_ok success
      rw [addToGroup_groupsByKey] at success
      obtain ⟨keys, evaluates, rfl⟩ := ih _ success
      refine ⟨key :: keys, .cons ⟨st, later, evaluated⟩ evaluates, ?_⟩
      rw [List.append_assoc]
      rfl

/-- Giving the rows their keys keeps the rows. -/
theorem keyedRows_rows {accepted : List (Int × Row)} {keys : List (List Value)}
    (same : accepted.length = keys.length) :
    (keyedRows accepted keys).map Prod.snd = accepted.map Prod.snd := by
  unfold keyedRows
  rw [List.map_snd_zip]
  simp [same]

/-- GROUP BY puts every accepted row into exactly one group, the one of its key. The groups stand
in the order in which their keys come first and have their rows in the order of the rows; none is
empty. -/
theorem group_by_partitions {accepted : List (Int × Row)} {groups : List (List Row)}
    (success : groupRows self ex parent cols groupBy accepted [] st = .ok groups st') :
    groups.flatten.Perm (accepted.map Prod.snd) ∧ (∀ rows ∈ groups, rows ≠ []) ∧
      ∃ keys, List.Forall₂ (GroupKey self ex parent cols groupBy) accepted keys ∧
        groups = (groupsByKey (keyedRows accepted keys)).map Prod.snd := by
  obtain ⟨keys, evaluates, equal⟩ := groupRows_groupsByKey [] success
  rw [List.nil_append] at equal
  refine ⟨?_, fun rows member => ?_, keys, evaluates, equal⟩
  · rw [equal, ← keyedRows_rows evaluates.length_eq]
    exact groupsByKey_perm _
  · rw [equal] at member
    obtain ⟨group, among, rfl⟩ := List.mem_map.mp member
    exact ne_nil_of_mem_groupsByKey among

end

namespace Grouping

def ex : Ex := ⟨.empty, [], .empty, none⟩

def start : EvalState := ⟨∅, ∅, Literal.env "HR"⟩

/-- Rows of one column, the first and the third with the same value. -/
def rows : List (Int × Row) :=
  [(1, [.varchar2 "X"]), (2, [.varchar2 "Y"]), (3, [.varchar2 "X"])]

def grouped : EStateM.Result OraError EvalState (List (List Row)) :=
  groupRows (Engine.plain.levels 8) ex none [⟨none, "DUMMY", .varchar2 1⟩] [.column none "DUMMY"]
    rows [] start

/-- The groups, when no key failed. -/
def madeGroups : Option (List (List Row)) :=
  match grouped with
  | .ok groups _ => some groups
  | .error _ _ => none

end Grouping

open Grouping in
/-- The third row goes to the group of the first. -/
theorem group_by_partitions_dummy :
    ∃ groups, groups = [[[.varchar2 "X"], [.varchar2 "X"]], [[.varchar2 "Y"]]] ∧
      groups.flatten.Perm (rows.map Prod.snd) ∧ ∀ group ∈ groups, group ≠ [] := by
  have evaluated : madeGroups = some [[[.varchar2 "X"], [.varchar2 "X"]], [[.varchar2 "Y"]]] := by
    decide +kernel
  unfold madeGroups at evaluated
  split at evaluated
  · next groups st' success =>
      have partitions := group_by_partitions success
      cases evaluated
      exact ⟨_, rfl, partitions.1, partitions.2.1⟩
  · cases evaluated

end MockOracle
