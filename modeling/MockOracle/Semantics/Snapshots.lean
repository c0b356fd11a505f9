import MockOracle.Semantics.Execution

/-!
# Transactions on snapshots

Parties change a shared store by transactions. A transaction works on the store as it was when the
transaction began, its origin, and logs its changes. Publishing it applies its log to the store as it
is by then; dropping it applies nothing. So the store is always what the published logs make of the
first one, in the order in which they were published, and a party sees its origin with its own log.
-/

namespace MockOracle.Semantics

/-- The steps of a run can be tagged one by one, if an invariant gives each its tag. -/
theorem Steps.tag {State Label Tag : Type} {Step : State → Label → State → Prop}
    (Tagged : State → Label × Tag → State → Prop) (Inv : State → Prop)
    (tag : ∀ {state label next}, Inv state → Step state label next →
      (∃ t, Tagged state (label, t) next) ∧ Inv next)
    {first last : State} {labels : List Label} (run : Steps Step first labels last)
    (holds : Inv first) :
    (∃ tagged, tagged.map Prod.fst = labels ∧ Steps Tagged first tagged last) ∧ Inv last := by
  induction run with
  | nil => exact ⟨⟨[], rfl, .nil⟩, holds⟩
  | @cons _ label _ _ _ head _ ih =>
      obtain ⟨⟨t, here⟩, kept⟩ := tag holds head
      obtain ⟨⟨tagged, same, rest⟩, after⟩ := ih kept
      exact ⟨⟨(label, t) :: tagged, congrArg (label :: ·) same, .cons here rest⟩, after⟩

/-- A store and the open transactions of its parties, each with its origin and its log. -/
@[ext] structure Shared (Store Change : Type) where
  store : Store
  pending : Nat → Option (Store × List Change)

/-- What a party may do. -/
inductive Deed (Change : Type) where
  | idle
  | write (party : Nat) (changes : List Change)
  | publish (party : Nat)
  | drop (party : Nat)

/-- The deed ends the transaction of a party. -/
def Deed.Ends {Change : Type} (party : Nat) : Deed Change → Prop
  | publish i | drop i => i = party
  | idle | write _ _ => False

namespace Shared

variable {Store Change : Type} (apply : Change → Store → Store)

/-- Apply the changes of a log, in order. -/
def applyAll (log : List Change) (store : Store) : Store :=
  log.foldl (fun store change => apply change store) store

/-- The changes of a party's open transaction. -/
def log (s : Shared Store Change) (i : Nat) : List Change := ((s.pending i).map Prod.snd).getD []

/-- Give a party another transaction, or none. -/
def set (s : Shared Store Change) (i : Nat) (transaction : Option (Store × List Change)) :
    Shared Store Change := { s with pending := Function.update s.pending i transaction }

/-- The next state. The first change of a party opens its transaction. -/
def act (s : Shared Store Change) : Deed Change → Shared Store Change
  | .idle => s
  | .write _ [] => s
  | .write i (change :: more) =>
      let transaction := (s.pending i).getD (s.store, [])
      s.set i (some (transaction.1, transaction.2 ++ change :: more))
  | .publish i => { s.set i none with store := applyAll apply (s.log i) s.store }
  | .drop i => s.set i none

def run (deeds : List (Deed Change)) (s : Shared Store Change) : Shared Store Change :=
  deeds.foldl (act apply) s

/-- What a party sees. -/
def view (s : Shared Store Change) (i : Nat) : Store :=
  match s.pending i with
  | some (origin, log) => applyAll apply log origin
  | none => s.store

/-- The logs that are published, in order. -/
def published : List (Deed Change) → Shared Store Change → List Change
  | [], _ => []
  | .publish i :: rest, s => s.log i ++ published rest (s.act apply (.publish i))
  | deed :: rest, s => published rest (s.act apply deed)

/-- What a party writes. -/
def written (i : Nat) (deeds : List (Deed Change)) : List Change :=
  deeds.flatMap fun deed =>
    match deed with
    | .write j changes => if j = i then changes else []
    | _ => []

variable {apply} {s : Shared Store Change} {i : Nat}

theorem run_append (deeds more : List (Deed Change)) :
    s.run apply (deeds ++ more) = (s.run apply deeds).run apply more := List.foldl_append

theorem written_append (deeds more : List (Deed Change)) :
    written i (deeds ++ more) = written i deeds ++ written i more := List.flatMap_append

@[simp] theorem pending_set_self (transaction : Option (Store × List Change)) :
    (s.set i transaction).pending i = transaction := Function.update_self _ _ _

theorem pending_set_ne {j : Nat} (other : j ≠ i) (transaction : Option (Store × List Change)) :
    (s.set i transaction).pending j = s.pending j := Function.update_of_ne other _ _

@[simp] theorem store_set (transaction : Option (Store × List Change)) :
    (s.set i transaction).store = s.store := rfl

/-- A deed that neither ends a party's transaction nor writes to it leaves it alone. -/
theorem pending_act (deed : Deed Change) (goes : ¬ deed.Ends i) :
    (s.act apply deed).pending i =
      match written i [deed] with
      | [] => s.pending i
      | changes =>
          some (((s.pending i).getD (s.store, [])).1,
            ((s.pending i).getD (s.store, [])).2 ++ changes) := by
  cases deed with
  | idle => rfl
  | write j changes =>
      by_cases own : j = i
      · subst own
        cases changes with
        | nil => simp [act, written]
        | cons change more => simp [act, written]
      · have none : written i [Deed.write j changes] = [] := by simp [written, own]
        rw [none]
        cases changes with
        | nil => rfl
        | cons change more => exact pending_set_ne (Ne.symm own) _
  | publish j => exact pending_set_ne (Ne.symm goes) _
  | drop j => exact pending_set_ne (Ne.symm goes) _

/-- A transaction that is open after a run began in it, on the store as it was then, and its log is
what its party has written since. -/
theorem pending_run (closed : s.pending i = none) {deeds : List (Deed Change)} {origin : Store}
    {log : List Change} (opened : (s.run apply deeds).pending i = some (origin, log)) :
    ∃ before after, deeds = before ++ after ∧ (∀ deed ∈ after, ¬ deed.Ends i) ∧
      (s.run apply before).pending i = none ∧ origin = (s.run apply before).store ∧
      log = written i after := by
  induction deeds using List.reverseRecOn generalizing origin log with
  | nil =>
      rw [show s.run apply [] = s from rfl, closed] at opened
      cases opened
  | append_singleton deeds deed ih =>
      rw [run_append] at opened
      change ((s.run apply deeds).act apply deed).pending i = _ at opened
      by_cases ends : deed.Ends i
      · have none : ((s.run apply deeds).act apply deed).pending i = none := by
          cases deed with
          | publish j =>
              cases (ends : j = i)
              exact pending_set_self _
          | drop j =>
              cases (ends : j = i)
              exact pending_set_self _
          | idle | write => exact ends.elim
        rw [none] at opened
        cases opened
      · rw [pending_act deed ends] at opened
        cases before : (s.run apply deeds).pending i with
        | some transaction =>
            obtain ⟨first, earlier⟩ := transaction
            obtain ⟨prefix_, since, rfl, goes, began, rfl, rfl⟩ := ih before
            refine ⟨prefix_, since ++ [deed], by rw [List.append_assoc], ?_, began, ?_⟩
            · intro other member
              rcases List.mem_append.mp member with old | new
              · exact goes other old
              · rw [List.mem_singleton.mp new]
                exact ends
            · rw [before] at opened
              rw [written_append]
              cases changes : written i [deed] with
              | nil =>
                  rw [changes] at opened
                  cases opened
                  exact ⟨rfl, (List.append_nil _).symm⟩
              | cons change more =>
                  rw [changes] at opened
                  cases opened
                  exact ⟨rfl, rfl⟩
        | none =>
            rw [before] at opened
            cases changes : written i [deed] with
            | nil =>
                rw [changes] at opened
                cases opened
            | cons change more =>
                rw [changes] at opened
                cases opened
                refine ⟨deeds, [deed], rfl, fun other member => ?_, before, rfl, ?_⟩
                · rw [List.mem_singleton.mp member]
                  exact ends
                · exact changes.symm

end Shared

end MockOracle.Semantics
