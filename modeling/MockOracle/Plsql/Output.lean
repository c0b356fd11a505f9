import MockOracle.Core.Value
import Mathlib.Data.List.Infix
import Mathlib.Tactic.Common

/-!
# DBMS_OUTPUT

The buffer of `exec.rs` that PL/SQL writes lines to and reads them from. It counts the bytes it holds
beside the text; after a call that overflows the limit the count is not that of the text.
-/

namespace MockOracle.Plsql

/-- DBMS_OUTPUT's buffer for one session. -/
structure Output where
  enabled : Bool := false
  lines : List String := []
  partialLine : String := ""
  /-- Bytes held in the buffer, counted against its limit. -/
  bytes : Nat := 0
  deriving DecidableEq, Repr

namespace Output

def limit : Nat := 1000000

def bufferOverflow : OraError :=
  ⟨20000, "ORU-10027: buffer overflow, limit of " ++ toString limit ++ " bytes"⟩

/-- Adds text, and may end the line. The bytes are counted before they are compared with the limit. -/
def put (o : Output) (text : String) (endLine : Bool) : Except OraError Unit × Output :=
  if o.enabled = false then (.ok (), o)
  else if limit < o.bytes + text.utf8ByteSize then
    (.error bufferOverflow, { o with bytes := o.bytes + text.utf8ByteSize })
  else if endLine then
    (.ok (), { o with
      bytes := o.bytes + text.utf8ByteSize
      lines := o.lines ++ [o.partialLine ++ text]
      partialLine := "" })
  else
    (.ok (), { o with
      bytes := o.bytes + text.utf8ByteSize
      partialLine := o.partialLine ++ text })

/-- Removes the oldest complete line, as GET_LINE does. -/
def takeLine (o : Output) : Option String × Output :=
  match o.lines with
  | [] => (none, o)
  | line :: lines => (some line, { o with lines, bytes := o.bytes - line.utf8ByteSize })

/-- The procedures of DBMS_OUTPUT, with what they are given. -/
inductive Call where
  | enable
  | disable
  | put (text : String)
  | putLine (text : String)
  | newLine
  | getLine
  deriving DecidableEq, Repr

/-- The text that a call adds. -/
def Call.text? : Call → Option String
  | put text | putLine text => some text
  | newLine => some ""
  | enable | disable | getLine => none

/-- The result of a call, and the buffer after it. -/
def call (o : Output) : Call → Except OraError (Option String) × Output
  | .enable => (.ok none, { o with enabled := true })
  | .disable => (.ok none, {})
  | .put text => ((o.put text false).1.map fun _ => none, (o.put text false).2)
  | .putLine text => ((o.put text true).1.map fun _ => none, (o.put text true).2)
  | .newLine => ((o.put "" true).1.map fun _ => none, (o.put "" true).2)
  | .getLine => (.ok o.takeLine.1, o.takeLine.2)

/-- The buffer of a new session after a sequence of calls, failed ones among them. -/
def after (calls : List Call) : Output := calls.foldl (fun o c => (o.call c).2) {}

/-- The bytes of the lines and the partial line. -/
def held (o : Output) : Nat :=
  (o.lines.map String.utf8ByteSize).sum + o.partialLine.utf8ByteSize

theorem after_append (calls : List Call) (c : Call) : after (calls ++ [c]) = ((after calls).call c).2 := by
  rw [after, List.foldl_append]
  rfl

/-! ## What calls do -/

variable {o : Output} {c : Call} {text : String}

/-- A call that adds text does so, while the buffer is enabled, if the count stays within the limit. -/
theorem call_text (adds : c.text? = some text) :
    (o.enabled = false ∧ o.call c = (.ok none, o)) ∨
      (o.enabled = true ∧ limit < o.bytes + text.utf8ByteSize ∧
        o.call c = (.error bufferOverflow, { o with bytes := o.bytes + text.utf8ByteSize })) ∨
      (o.enabled = true ∧ o.bytes + text.utf8ByteSize ≤ limit ∧ (o.call c).1 = .ok none ∧
        (o.call c).2.enabled = true ∧ (o.call c).2.bytes = o.bytes + text.utf8ByteSize ∧
        (o.call c).2.held = o.held + text.utf8ByteSize) := by
  obtain ⟨endLine, same⟩ : ∃ endLine,
      o.call c = ((o.put text endLine).1.map fun _ => none, (o.put text endLine).2) := by
    cases c with
    | put => exact ⟨false, by rw [← Option.some.inj adds]; rfl⟩
    | putLine => exact ⟨true, by rw [← Option.some.inj adds]; rfl⟩
    | newLine => exact ⟨true, by rw [← Option.some.inj adds]; rfl⟩
    | enable => cases adds
    | disable => cases adds
    | getLine => cases adds
  rw [same, put]
  by_cases enabled : o.enabled = false
  · rw [if_pos enabled]
    exact Or.inl ⟨enabled, rfl⟩
  rw [if_neg enabled]
  rw [Bool.not_eq_false] at enabled
  refine Or.inr ?_
  by_cases full : limit < o.bytes + text.utf8ByteSize
  · rw [if_pos full]
    exact Or.inl ⟨enabled, full, rfl⟩
  · rw [if_neg full]
    refine Or.inr ⟨enabled, not_lt.mp full, ?_⟩
    cases endLine with
    | true =>
        refine ⟨rfl, enabled, rfl, ?_⟩
        simp only [if_true, held, List.map_append, List.sum_append, String.utf8ByteSize_append,
          List.map_singleton, List.sum_singleton, String.utf8ByteSize_empty]
        omega
    | false =>
        refine ⟨rfl, enabled, rfl, ?_⟩
        simp only [Bool.false_eq_true, if_false, held, String.utf8ByteSize_append]
        omega

/-- Reading a line frees its bytes. -/
theorem call_getLine :
    (o.lines = [] ∧ o.call .getLine = (.ok none, o)) ∨
      ∃ line, (o.call .getLine).1 = .ok (some line) ∧
        (o.call .getLine).2.bytes = o.bytes - line.utf8ByteSize ∧
        (o.call .getLine).2.held + line.utf8ByteSize = o.held := by
  cases lines : o.lines with
  | nil => exact Or.inl ⟨rfl, by simp [call, takeLine, lines]⟩
  | cons line more =>
      refine Or.inr ⟨line, ?_, ?_, ?_⟩
      · simp [call, takeLine, lines]
      · simp [call, takeLine, lines]
      · simp only [call, takeLine, lines, held, List.map_cons, List.sum_cons]
        omega

/-! ## The count along runs -/

/-- What is held is counted, and within the limit. -/
structure Within (o : Output) : Prop where
  counted : o.held ≤ o.bytes
  fits : o.held ≤ limit

theorem Within.call (within : o.Within) (c : Call) : (o.call c).2.Within := by
  cases adds : c.text? with
  | some text =>
      rcases call_text (o := o) adds with ⟨-, same⟩ | ⟨-, -, same⟩ | ⟨-, fits, -, -, bytes, held⟩
      · rw [same]
        exact within
      · rw [same]
        exact ⟨within.counted.trans (Nat.le_add_right _ _), within.fits⟩
      · have := within.counted
        exact ⟨by omega, by omega⟩
  | none =>
      cases c with
      | enable => exact ⟨within.counted, within.fits⟩
      | disable => exact ⟨Nat.le_refl 0, Nat.zero_le limit⟩
      | getLine =>
          rcases call_getLine (o := o) with ⟨-, same⟩ | ⟨line, -, bytes, held⟩
          · rw [same]
            exact within
          · have := within.counted
            have := within.fits
            exact ⟨by omega, by omega⟩
      | put => cases adds
      | putLine => cases adds
      | newLine => cases adds

theorem within_after (calls : List Call) : (after calls).Within := by
  induction calls using List.reverseRecOn with
  | nil => exact ⟨Nat.le_refl 0, Nat.zero_le limit⟩
  | append_singleton calls c ih =>
      rw [after_append]
      exact ih.call c

/-- Text is added to an enabled buffer that has no room for it. -/
def Overflows (o : Output) (c : Call) : Prop :=
  ∃ text, c.text? = some text ∧ o.enabled = true ∧ limit < o.held + text.utf8ByteSize

/-- A call that does not overflow keeps the count that of the text. -/
theorem bytes_call (exact_ : o.bytes = o.held) (room : ¬ o.Overflows c) :
    (o.call c).2.bytes = (o.call c).2.held := by
  cases adds : c.text? with
  | some text =>
      rcases call_text (o := o) adds with ⟨-, same⟩ | ⟨enabled, full, -⟩ | ⟨-, -, -, -, bytes, held⟩
      · rw [same]
        exact exact_
      · exact absurd ⟨text, adds, enabled, exact_ ▸ full⟩ room
      · rw [bytes, held, exact_]
  | none =>
      cases c with
      | enable => exact exact_
      | disable => rfl
      | getLine =>
          rcases call_getLine (o := o) with ⟨-, same⟩ | ⟨line, -, bytes, held⟩
          · rw [same]
            exact exact_
          · omega
      | put => cases adds
      | putLine => cases adds
      | newLine => cases adds

/-- A call that overflows leaves a count above what is held. -/
theorem bytes_call_of_overflows (within : o.Within) (overflows : o.Overflows c) :
    (o.call c).2.bytes ≠ (o.call c).2.held := by
  obtain ⟨text, adds, enabled, full⟩ := overflows
  have counted := within.counted
  have fits := within.fits
  rcases call_text (o := o) adds with ⟨disabled, -⟩ | ⟨-, -, same⟩ | ⟨-, small, -⟩
  · rw [enabled] at disabled
    cases disabled
  · rw [same]
    have held : ({ o with bytes := o.bytes + text.utf8ByteSize } : Output).held = o.held := rfl
    simp only [held]
    omega
  · omega

/-- The count is that of the text after every part of a sequence without overflows. -/
theorem bytes_after {calls : List Call}
    (room : ∀ before c, before ++ [c] <+: calls → ¬ (after before).Overflows c) :
    (after calls).bytes = (after calls).held := by
  induction calls using List.reverseRecOn with
  | nil => rfl
  | append_singleton calls c ih =>
      have earlier := ih fun before d part => room before d (part.trans (List.prefix_append calls [c]))
      rw [after_append]
      exact bytes_call earlier (room calls c List.prefix_rfl)

/-- Where the count is that of the text, a call fails if there is no room for its text. -/
theorem fails_iff (exact_ : o.bytes = o.held) (adds : c.text? = some text) (enabled : o.enabled = true) :
    (o.call c).1 = .error bufferOverflow ↔ limit < o.held + text.utf8ByteSize := by
  rcases call_text (o := o) adds with ⟨disabled, -⟩ | ⟨-, full, same⟩ | ⟨-, small, fine, -⟩
  · rw [enabled] at disabled
    cases disabled
  · rw [same, ← exact_]
    exact ⟨fun _ => full, fun _ => rfl⟩
  · rw [fine, ← exact_]
    exact ⟨nofun, fun full => absurd full (not_lt.mpr small)⟩

/-- The count is that of the text after every call of a sequence, a call that adds text to an enabled
buffer fails if there is no room for it and only then, and a line that is read makes room. -/
structure Exact (calls : List Call) : Prop where
  counter : ∀ before, before <+: calls → (after before).bytes = (after before).held
  fails_iff : ∀ before c text, before ++ [c] <+: calls → c.text? = some text →
    (after before).enabled = true →
      (((after before).call c).1 = .error bufferOverflow ↔
        limit < (after before).held + text.utf8ByteSize)
  reused : ∀ before line, before ++ [Call.getLine] <+: calls →
    ((after before).call .getLine).1 = .ok (some line) →
      (after (before ++ [.getLine])).bytes + line.utf8ByteSize = (after before).bytes

/-- The accounting of a sequence of calls is exact if and only if none of them overflows. -/
theorem output_exact_iff (calls : List Call) :
    Exact calls ↔ ∀ before c, before ++ [c] <+: calls → ¬ (after before).Overflows c := by
  constructor
  · intro exact_ before c part overflows
    have counter := exact_.counter (before ++ [c]) part
    rw [after_append] at counter
    exact bytes_call_of_overflows (within_after before) overflows counter
  · intro room
    have counter (before : List Call) (part : before <+: calls) :
        (after before).bytes = (after before).held :=
      bytes_after fun earlier c part' => room earlier c (part'.trans part)
    have inside {before : List Call} {c : Call} (part : before ++ [c] <+: calls) : before <+: calls :=
      (List.prefix_append before [c]).trans part
    refine ⟨counter, fun before c text part adds enabled => ?_, fun before line part read => ?_⟩
    · exact fails_iff (counter before (inside part)) adds enabled
    · have same := counter before (inside part)
      rw [after_append]
      rcases call_getLine (o := after before) with ⟨-, none⟩ | ⟨line', isLine, bytes, held⟩
      · rw [none] at read
        cases read
      · rw [isLine] at read
        obtain rfl : line' = line := Option.some.inj (Except.ok.inj read)
        omega

/-- Of one text put again and again the buffer holds all, up to its limit. -/
theorem after_replicate {text : String} {n : Nat} (fits : n * text.utf8ByteSize ≤ limit) :
    (after (.enable :: List.replicate n (.put text))).enabled = true ∧
      (after (.enable :: List.replicate n (.put text))).bytes = n * text.utf8ByteSize ∧
      (after (.enable :: List.replicate n (.put text))).held = n * text.utf8ByteSize := by
  induction n with
  | zero =>
      rw [Nat.zero_mul]
      exact ⟨rfl, rfl, rfl⟩
  | succ n ih =>
      rw [Nat.succ_mul] at fits ⊢
      obtain ⟨enabled, counted, holds⟩ := ih (by omega)
      rw [List.replicate_succ', ← List.cons_append, after_append]
      have adds : (Call.put text).text? = some text := rfl
      rcases call_text adds with ⟨disabled, -⟩ | ⟨-, full, -⟩ | ⟨-, -, -, isEnabled, bytes, held⟩
      · rw [enabled] at disabled
        cases disabled
      · omega
      · exact ⟨isEnabled, by rw [bytes, counted], by rw [held, holds]⟩

/-- The last of 100,001 texts of ten bytes overflows. -/
theorem not_exact_after_overflow : ¬ ∀ calls : List Call, Exact calls := by
  intro always
  have fits : 100000 * "0123456789".utf8ByteSize ≤ limit := by decide
  obtain ⟨enabled, -, held⟩ := after_replicate fits
  have counter := (always (.enable :: List.replicate 100001 (.put "0123456789"))).counter _
    List.prefix_rfl
  rw [List.replicate_succ', ← List.cons_append, after_append] at counter
  refine bytes_call_of_overflows (within_after _) ⟨_, rfl, enabled, ?_⟩ counter
  rw [held]
  decide

end Output

end MockOracle.Plsql
