import Mathlib.Data.List.Basic
import Mathlib.Tactic.Common

/-!
# Text by byte offsets

A text is a list of characters, kept in UTF-8. A byte offset is usable where a character starts or
the text ends. Bytes of ASCII characters are found only where these characters start, so that a
scan over bytes that stops at one of them stops between characters.
-/

namespace MockOracle.Semantics.Text

/-- The bytes of a text. -/
def bytes (text : List Char) : List UInt8 := text.flatMap String.utf8EncodeChar

/-- The length of a text in bytes. -/
def size (text : List Char) : Nat := (bytes text).length

/-- The text from a byte offset on; none inside a character or after the end. -/
def dropBytes : List Char → Nat → Option (List Char)
  | text, 0 => some text
  | [], _ + 1 => none
  | c :: rest, i + 1 => if c.utf8Size ≤ i + 1 then dropBytes rest (i + 1 - c.utf8Size) else none

/-- The text between two byte offsets. -/
def slice (text : List Char) (start stop : Nat) : Option (List Char) :=
  if start ≤ stop then do
    let rest ← dropBytes text start
    let after ← dropBytes text stop
    return rest.take (rest.length - after.length)
  else none

/-- The offset of the first place of a text in another. -/
def find (needle : List Char) : List Char → Option Nat
  | [] => if needle = [] then some 0 else none
  | c :: rest =>
      if needle.isPrefixOf (c :: rest) then some 0
      else (find needle rest).map (c.utf8Size + ·)

@[simp] theorem bytes_nil : bytes [] = [] := rfl

@[simp] theorem bytes_cons (c : Char) (rest : List Char) :
    bytes (c :: rest) = String.utf8EncodeChar c ++ bytes rest := rfl

@[simp] theorem bytes_append (left right : List Char) :
    bytes (left ++ right) = bytes left ++ bytes right := List.flatMap_append

@[simp] theorem size_nil : size [] = 0 := rfl

@[simp] theorem size_cons (c : Char) (rest : List Char) :
    size (c :: rest) = c.utf8Size + size rest := by
  simp [size]

@[simp] theorem size_append (left right : List Char) :
    size (left ++ right) = size left + size right := by
  simp [size]

/-- Only the empty text has no bytes. -/
theorem size_eq_zero_iff {text : List Char} : size text = 0 ↔ text = [] := by
  cases text with
  | nil => simp
  | cons c rest =>
      have := c.utf8Size_pos
      simp only [size_cons, reduceCtorEq, iff_false]
      omega

/-- A text has at least as many bytes as characters. -/
theorem length_le_size (text : List Char) : text.length ≤ size text := by
  induction text with
  | nil => exact Nat.le_refl 0
  | cons c rest ih =>
      have := c.utf8Size_pos
      rw [List.length_cons, size_cons]
      omega

@[simp] theorem dropBytes_zero (text : List Char) : dropBytes text 0 = some text := by
  cases text <;> rfl

/-- An offset after a first part is one into the second. -/
theorem dropBytes_size_add (before rest : List Char) (n : Nat) :
    dropBytes (before ++ rest) (size before + n) = dropBytes rest n := by
  induction before with
  | nil => rw [List.nil_append, size_nil, Nat.zero_add]
  | cons c before ih =>
      rw [List.cons_append, size_cons]
      obtain ⟨i, isSize⟩ : ∃ i, c.utf8Size + size before + n = i + 1 := by
        have := c.utf8Size_pos
        exact ⟨c.utf8Size + size before + n - 1, by omega⟩
      rw [isSize, dropBytes, if_pos (by omega), ← isSize, Nat.add_assoc, Nat.add_sub_cancel_left, ih]

/-- At the end of a first part is the second one. -/
theorem dropBytes_size (before rest : List Char) :
    dropBytes (before ++ rest) (size before) = some rest := by
  have := dropBytes_size_add before rest 0
  rwa [Nat.add_zero, dropBytes_zero] at this

/-- What is found at an offset is the rest of the text after that many bytes. -/
theorem dropBytes_eq_some {text rest : List Char} {i : Nat} (found : dropBytes text i = some rest) :
    ∃ before, text = before ++ rest ∧ size before = i := by
  fun_induction dropBytes text i with
  | case1 text =>
      cases found
      exact ⟨[], rfl, rfl⟩
  | case2 => cases found
  | case3 c more i fits ih =>
      obtain ⟨before, rfl, length⟩ := ih found
      refine ⟨c :: before, rfl, ?_⟩
      rw [size_cons, length]
      omega
  | case4 => cases found

/-- What is found stands at its offset. -/
theorem find_eq_some {needle text : List Char} {i : Nat} (found : find needle text = some i) :
    ∃ before after, text = before ++ (needle ++ after) ∧ size before = i := by
  induction text generalizing i with
  | nil =>
      simp only [find] at found
      split at found
      · next none =>
          cases found
          exact ⟨[], [], by rw [none]; rfl, rfl⟩
      · cases found
  | cons c rest ih =>
      rw [find] at found
      split at found
      · next here =>
          obtain ⟨after, isText⟩ := List.isPrefixOf_iff_prefix.mp here
          cases found
          exact ⟨[], after, isText.symm, rfl⟩
      · obtain ⟨j, later, rfl⟩ := Option.map_eq_some_iff.mp found
        obtain ⟨before, after, rfl, rfl⟩ := ih later
        exact ⟨c :: before, after, rfl, size_cons c before⟩

/-- A character is found where there is one. -/
theorem find_singleton_isSome {c : Char} {text : List Char} :
    (find [c] text).isSome ↔ c ∈ text := by
  induction text with
  | nil => simp [find]
  | cons d rest ih =>
      rw [find]
      split
      · next here =>
          have same : c = d := by simpa using here
          simp [same]
      · next other =>
          have different : c ≠ d := by simpa using other
          rw [Option.isSome_map, ih, List.mem_cons]
          exact ⟨Or.inr, fun member => member.resolve_left different⟩

/-- Slicing from the end of a front gives what follows it. -/
theorem slice_size (before middle rest : List Char) :
    slice (before ++ (middle ++ rest)) (size before) (size before + size middle) = some middle := by
  have stop : dropBytes (before ++ (middle ++ rest)) (size before + size middle) = some rest := by
    rw [← List.append_assoc, ← size_append]
    exact dropBytes_size (before ++ middle) rest
  rw [slice, if_pos (by omega), dropBytes_size, stop]
  simp

/-- Bytes of other characters are above those of ASCII. -/
theorem high_of_mem {c : Char} {b : UInt8} (wide : 128 ≤ c.toNat)
    (member : b ∈ String.utf8EncodeChar c) : 128 ≤ b.toNat := by
  have wide : 128 ≤ c.val.toNat := wide
  simp only [String.utf8EncodeChar] at member
  split_ifs at member with one two three
  · omega
  all_goals
    simp only [List.mem_cons, List.not_mem_nil, or_false] at member
    rcases member with rfl | rfl | rfl | rfl <;> simp only [UInt8.toNat_ofNat'] <;> omega

/-- An ASCII character is encoded as itself. -/
theorem utf8EncodeChar_ascii {c : Char} (ascii : c.toNat < 128) :
    String.utf8EncodeChar c = [UInt8.ofNat c.toNat] := by
  have low : c.val.toNat ≤ 0x7f := Nat.le_of_lt_succ ascii
  simp only [String.utf8EncodeChar, if_pos low]
  rfl

/-- Only ASCII characters. -/
def Ascii (text : List Char) : Prop := ∀ c ∈ text, c.toNat < 128

instance (text : List Char) : Decidable (Ascii text) :=
  decidable_of_iff (text.all (fun c => c.toNat < 128) = true) (by simp [Ascii])

/-- An ASCII text is encoded character by character. -/
theorem bytes_ascii {text : List Char} (ascii : Ascii text) :
    bytes text = text.map fun c => UInt8.ofNat c.toNat := by
  induction text with
  | nil => rfl
  | cons c rest ih =>
      rw [bytes_cons, utf8EncodeChar_ascii (ascii c List.mem_cons_self),
        ih fun d member => ascii d (List.mem_cons_of_mem _ member)]
      rfl

/-- The size of an ASCII text is its length. -/
theorem size_ascii {text : List Char} (ascii : Ascii text) : size text = text.length := by
  rw [size, bytes_ascii ascii, List.length_map]

/-- An ASCII byte is where a character starts. -/
theorem start_of_ascii {text : List Char} {i : Nat} {b : UInt8} {after : List UInt8}
    (found : (bytes text).drop i = b :: after) (low : b.toNat < 128) :
    ∃ before c rest, text = before ++ c :: rest ∧ size before = i ∧ c.toNat < 128 ∧
      UInt8.ofNat c.toNat = b ∧ bytes rest = after := by
  induction text generalizing i with
  | nil =>
      rw [bytes_nil, List.drop_nil] at found
      cases found
  | cons c text ih =>
      by_cases inside : i < c.utf8Size
      · rw [bytes_cons, List.drop_append_of_le_length (by simpa using Nat.le_of_lt inside)] at found
        obtain ⟨d, more, encoded⟩ : ∃ d more, (String.utf8EncodeChar c).drop i = d :: more := by
          refine List.exists_cons_of_ne_nil fun none => ?_
          have := List.drop_eq_nil_iff.mp none
          rw [String.length_utf8EncodeChar] at this
          omega
        rw [encoded, List.cons_append] at found
        obtain ⟨rfl, rest⟩ := List.cons.inj found
        have member : d ∈ String.utf8EncodeChar c :=
          List.mem_of_mem_drop (encoded ▸ List.mem_cons_self)
        have ascii : c.toNat < 128 := by
          by_contra wide
          have := high_of_mem (Nat.le_of_not_lt wide) member
          omega
        rw [utf8EncodeChar_ascii ascii] at encoded
        have atStart : i = 0 := by
          by_contra later
          rw [List.drop_eq_nil_of_le (by simp only [List.length_singleton]; omega)] at encoded
          cases encoded
        subst atStart
        obtain ⟨same, rfl⟩ := List.cons.inj encoded
        exact ⟨[], c, text, rfl, rfl, ascii, same, rest⟩
      · obtain ⟨j, rfl⟩ : ∃ j, i = c.utf8Size + j := ⟨i - c.utf8Size, by omega⟩
        rw [bytes_cons, ← String.length_utf8EncodeChar, List.drop_length_add_append] at found
        obtain ⟨before, d, rest, rfl, length, isAscii, same, others⟩ := ih found
        refine ⟨c :: before, d, rest, rfl, ?_, isAscii, same, others⟩
        rw [size_cons, length]

end MockOracle.Semantics.Text
