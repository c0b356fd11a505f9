import Mathlib

/-!
# Reading back what was written

A reader takes a value off the front of its input or fails. It reads a value from a piece of
input when, whatever follows that piece, it returns the value and leaves exactly what follows.
Readers that do so compose, so that a sequence of fields is read back field by field.
-/

namespace MockOracle.Semantics.Codec

variable {σ ε α β ι : Type}

/-- Take a value off the front of the input. -/
abbrev Reader (σ ε : Type) := StateT (List σ) (Except ε)

theorem bind_ok {r : Reader σ ε α} {f : α → Reader σ ε β} {input rest : List σ} {b : β}
    (success : (r >>= f) input = .ok (b, rest)) :
    ∃ a middle, r input = .ok (a, middle) ∧ f a middle = .ok (b, rest) := by
  simp only [bind, StateT.bind, Except.bind] at success
  split at success
  · cases success
  · next result read => exact ⟨result.1, result.2, read, success⟩

theorem map_ok {r : Reader σ ε α} {g : α → β} {input rest : List σ} {b : β}
    (success : (g <$> r) input = .ok (b, rest)) : ∃ a, r input = .ok (a, rest) ∧ b = g a := by
  simp only [Functor.map, StateT.map, bind, Except.bind] at success
  split at success
  · cases success
  · next result read =>
      cases success
      exact ⟨result.1, read, rfl⟩

section Sequences

variable {r : Reader σ ε α} {f : α → Reader σ ε β} {input rest : List σ}

/-- After a first reader the second one goes on with what is left. -/
theorem run_bind_of_ok {a : α} (read : r.run input = .ok (a, rest)) :
    (r >>= f).run input = (f a).run rest := by
  rw [StateT.run_bind, read]
  rfl

/-- A first reader that fails fails the whole. -/
theorem run_bind_of_error {e : ε} (read : r.run input = .error e) :
    (r >>= f).run input = .error e := by
  rw [StateT.run_bind, read]
  rfl

end Sequences

/-- The reader returns the value from this piece of input and leaves what follows it. -/
def Reads (r : Reader σ ε α) (piece : List σ) (a : α) : Prop :=
  ∀ rest, r.run (piece ++ rest) = .ok (a, rest)

namespace Reads

variable {r : Reader σ ε α} {f : α → Reader σ ε β} {first second : List σ} {a : α} {b : β}

theorem pure_ (a : α) : Reads (pure a : Reader σ ε α) [] a := fun _ => rfl

theorem bind_ (reads : Reads r first a) (next : Reads (f a) second b) :
    Reads (r >>= f) (first ++ second) b := by
  intro rest
  rw [List.append_assoc, run_bind_of_ok (reads _)]
  exact next rest

/-- What is computed from a value takes no input. -/
theorem map_ {g : α → β} (reads : Reads r first a) : Reads (g <$> r) first (g a) := by
  intro rest
  rw [StateT.run_map, reads]
  rfl

/-- Fields written one after another are read back one after another. -/
theorem mapM_ {read : ι → Reader σ ε β} {write : ι → List σ} {value : ι → β}
    (each : ∀ i, Reads (read i) (write i) (value i)) (fields : List ι) :
    Reads (fields.mapM read) (fields.flatMap write) (fields.map value) := by
  induction fields with
  | nil => exact pure_ []
  | cons i rest ih =>
      have more : Reads ((value i :: ·) <$> rest.mapM read) (rest.flatMap write)
          (value i :: rest.map value) := ih.map_
      rw [List.mapM_cons, List.flatMap_cons, List.map_cons]
      exact (each i).bind_ (by simpa using more)

end Reads

section Pieces

/-- A piece that is cut off is not empty, and not longer than asked for. -/
def Piece (size : Nat) (piece : List α) : Prop := 0 < piece.length ∧ piece.length ≤ size

/-- Cutting goes on with the piece at hand and the pieces behind it. -/
theorem toChunks_go_pieces {size : Nat} (positive : 0 < size) (xs : List α) (piece : Array α)
    (pieces : Array (List α)) (current : Piece size piece.toList)
    (done : ∀ p ∈ pieces.toList, Piece size p) :
    (List.toChunks.go size xs piece pieces).flatten =
        pieces.toList.flatten ++ (piece.toList ++ xs) ∧
      ∀ p ∈ List.toChunks.go size xs piece pieces, Piece size p := by
  have next : ∀ p ∈ (pieces.push piece.toList).toList, Piece size p := by
    rw [Array.toList_push]
    exact List.forall_mem_append.mpr ⟨done, List.forall_mem_singleton.mpr current⟩
  induction xs generalizing piece pieces with
  | nil =>
      refine ⟨?_, next⟩
      rw [List.toChunks.go, Array.toList_push, List.flatten_append, List.flatten_singleton,
        List.append_nil]
  | cons x xs ih =>
      rw [List.toChunks.go]
      split
      · have one : Piece size ((Array.mkEmpty size).push x).toList := ⟨Nat.one_pos, positive⟩
        obtain ⟨whole, each⟩ := ih _ (pieces.push piece.toList) one next (by
          rw [Array.toList_push]
          exact List.forall_mem_append.mpr ⟨next, List.forall_mem_singleton.mpr one⟩)
        refine ⟨whole.trans ?_, each⟩
        simp
      · next other =>
          have longer : Piece size (piece.push x).toList := by
            have fits := current.2
            simp only [beq_iff_eq] at other
            simp only [Piece, Array.toList_push, List.length_append, List.length_singleton,
              Array.length_toList] at fits ⊢
            omega
          obtain ⟨whole, each⟩ := ih _ pieces longer done (by
            rw [Array.toList_push]
            exact List.forall_mem_append.mpr ⟨done, List.forall_mem_singleton.mpr longer⟩)
          refine ⟨whole.trans ?_, each⟩
          simp

/-- The pieces of a list make up the list. -/
theorem toChunks_pieces {size : Nat} (positive : 0 < size) (xs : List α) :
    (xs.toChunks size).flatten = xs ∧ ∀ piece ∈ xs.toChunks size, Piece size piece := by
  cases xs with
  | nil => exact ⟨by simp [List.toChunks], by simp [List.toChunks]⟩
  | cons x xs =>
      have cut : (x :: xs).toChunks size = List.toChunks.go size xs #[x] #[] := by
        obtain ⟨size, rfl⟩ := Nat.exists_eq_succ_of_ne_zero positive.ne'
        rfl
      have one : Piece size [x] := ⟨Nat.one_pos, positive⟩
      rw [cut]
      exact toChunks_go_pieces positive xs #[x] #[] one (List.forall_mem_nil _)

/-- There are no more pieces than elements. -/
theorem length_toChunks_le {size : Nat} (positive : 0 < size) (xs : List α) :
    (xs.toChunks size).length ≤ xs.length := by
  obtain ⟨whole, pieces⟩ := toChunks_pieces positive xs
  calc (xs.toChunks size).length
      = ((xs.toChunks size).map fun _ => 1).sum := by simp
    _ ≤ ((xs.toChunks size).map List.length).sum :=
        List.sum_le_sum fun piece member => (pieces piece member).1
    _ = xs.length := by rw [← List.length_flatten, whole]

end Pieces

end MockOracle.Semantics.Codec
