import MockOracle.Parse.Parser

/-!
# Declared lengths

The types of text with a length, in every spelling, and which lengths the parser takes as they are
written.
-/

namespace MockOracle.Parser

open Semantics

/-- The digits of an integer literal. -/
structure IntegerLiteral where
  digits : List Char
  nonempty : digits ≠ []
  allDigits : Decimal.AllDigits digits

/-- The number that a literal denotes. -/
def IntegerLiteral.value (literal : IntegerLiteral) : Nat := Nat.ofDigitChars 10 literal.digits 0

/-- The token of an integer literal. -/
def IntegerLiteral.tok (literal : IntegerLiteral) : Tok := .number (String.ofList literal.digits)

/-- The names of the VARCHAR2 family. -/
inductive VarcharName where
  | varchar2
  | varchar
  | nvarchar2

/-- The word of a name of the VARCHAR2 family. -/
def VarcharName.word : VarcharName → String
  | varchar2 => "VARCHAR2"
  | varchar => "VARCHAR"
  | nvarchar2 => "NVARCHAR2"

/-- The names of the CHAR family. -/
inductive CharName where
  | char
  | nchar
  | character

/-- The word of a name of the CHAR family. -/
def CharName.word : CharName → String
  | char => "CHAR"
  | nchar => "NCHAR"
  | character => "CHARACTER"

/-- The types of text with a length. -/
inductive TextType where
  | varchar (name : VarcharName)
  | varying (name : CharName)
  | char (name : CharName)

namespace TextType

/-- The words that a type is declared with. -/
def words : TextType → List String
  | varchar name => [name.word]
  | varying name => [name.word, "VARYING"]
  | char name => [name.word]

/-- The largest length of the type. -/
def limit : TextType → Nat
  | varchar _ | varying _ => 32767
  | char _ => 2000

/-- The type with a length. -/
def sized : TextType → Nat → SqlType
  | varchar _ | varying _ => .varchar2
  | char _ => .char

/-- Whether the parser compares the length with the limit. -/
def Limited : TextType → Prop
  | varchar _ | char _ => True
  | varying _ => False

instance (type : TextType) : Decidable type.Limited := by
  cases type <;> unfold Limited <;> infer_instance

end TextType

/-- The units a length may be given in. -/
inductive LengthUnit where
  | byte
  | char

/-- The word of a unit. -/
def LengthUnit.word : LengthUnit → String
  | byte => "BYTE"
  | char => "CHAR"

/-- A length in parentheses with an optional sign and unit. -/
structure DeclaredLength where
  negative : Bool
  literal : IntegerLiteral
  unit : Option LengthUnit

namespace DeclaredLength

/-- The length that is written. -/
def written (declared : DeclaredLength) : Int :=
  if declared.negative then -declared.literal.value else declared.literal.value

/-- The tokens of a declared length, from its parenthesis on. -/
def tokens (declared : DeclaredLength) (rest : List Tok) : List Tok :=
  .symbol "(" :: ((if declared.negative then [.symbol "-"] else []) ++ declared.literal.tok ::
    ((declared.unit.map fun unit => Tok.ident unit.word).toList ++ .symbol ")" :: rest))

end DeclaredLength

/-- The tokens of a type with a length, and more tokens. -/
def TextType.declaration (type : TextType) (declared : DeclaredLength) (rest : List Tok) : List Tok :=
  type.words.map Tok.ident ++ declared.tokens rest

/-- A length between 1 and the limit gives the type with that length, and another an error. -/
def TakenAsWritten (type : TextType) (length : Int) (rest : List Tok)
    (result : Except OraError (SqlType × List Tok)) : Prop :=
  if 1 ≤ length ∧ length ≤ type.limit then result = .ok (type.sized length.toNat, rest)
  else ∃ e, result = .error e

/-- A length over the limit that is a 64-bit integer, and whose last 32 bits are within the limit
where the parser looks at it. -/
def Overlooked (type : TextType) (length : Int) : Prop :=
  type.limit < length ∧ length < 2 ^ 63 ∧ (type.Limited → length % 2 ^ 32 ≤ type.limit)

/-- A literal is read as its value, unless the value exceeds 64 bits. -/
theorem parseI64_literal (literal : IntegerLiteral) :
    parseI64 (String.ofList literal.digits) =
      if literal.value < 2 ^ 63 then some (literal.value : Int) else none := by
  have read : Decimal.readInteger literal.digits = some (literal.value : Int) :=
    Decimal.readInteger_digits literal.nonempty literal.allDigits
  have bounds : BigDecimal.InBits 64 literal.value ↔ literal.value < 2 ^ 63 := by
    rw [BigDecimal.InBits]
    omega
  rw [parseI64, String.toList_ofList, read, Option.filter_some]
  simp only [bounds, decide_eq_true_eq]

/-- Reading an integer gives it if its digits denote a 64-bit integer. -/
theorem integer_tokens (negative : Bool) (literal : IntegerLiteral) (rest : List Tok) :
    integer.run ((if negative then [.symbol "-"] else []) ++ literal.tok :: rest) =
      if literal.value < 2 ^ 63 then
        .ok (if negative then -literal.value else literal.value, rest)
      else .error invalidNumber := by
  have sign : (eatSym "-").run ((if negative then [.symbol "-"] else []) ++ literal.tok :: rest) =
      .ok (negative, literal.tok :: rest) := by
    cases negative with
    | true => exact eat_cons_self _ _
    | false => exact eat_of_ne (by simp [IntegerLiteral.tok])
  have read : advance.run (literal.tok :: rest) = .ok (some literal.tok, rest) := rfl
  rw [integer, Codec.run_bind_of_ok sign, Codec.run_bind_of_ok read]
  simp only [IntegerLiteral.tok, parseI64_literal]
  split_ifs <;> rfl

/-- The unit of a length is read over. -/
theorem lengthUnit_tokens (unit : Option LengthUnit) (rest : List Tok) :
    lengthUnit.run ((unit.map fun u => Tok.ident u.word).toList ++ .symbol ")" :: rest) =
      .ok ((), .symbol ")" :: rest) := by
  cases unit with
  | none => rfl
  | some unit => cases unit <;> rfl

/-- Reading a length gives its last 32 bits. -/
theorem length_tokens (declared : DeclaredLength) (rest : List Tok) :
    length.run (declared.tokens rest) =
      if 2 ^ 63 ≤ declared.literal.value then .error invalidNumber
      else if declared.written ≤ 0 then .error ⟨1724, "zero-length columns are not allowed"⟩
      else .ok (some (declared.written.toNat % 2 ^ 32), rest) := by
  have number := integer_tokens declared.negative declared.literal
    ((declared.unit.map fun u => Tok.ident u.word).toList ++ .symbol ")" :: rest)
  have paren : (eatSym "(").run (declared.tokens rest) = .ok (true, _) := eat_cons_self _ _
  have close : (expectSym ")").run (.symbol ")" :: rest) = .ok ((), rest) := rfl
  rw [length, Codec.run_bind_of_ok paren, if_pos rfl]
  by_cases large : 2 ^ 63 ≤ declared.literal.value
  · rw [if_neg (not_lt.mpr large)] at number
    rw [Codec.run_bind_of_error number, if_pos large]
  · rw [if_pos (not_le.mp large), ← DeclaredLength.written] at number
    rw [Codec.run_bind_of_ok number, Codec.run_bind_of_ok (lengthUnit_tokens _ _),
      Codec.run_bind_of_ok close, if_neg large]
    split_ifs <;> rfl

/-- What the parser does with the length of a type. -/
def TextType.checked (type : TextType) : Option Nat → Parser SqlType
  | none => match type with
      | varchar _ | varying _ => throw missingLeftParen
      | char _ => pure (.char 1)
  | some n => if type.Limited ∧ type.limit < n then throw lengthTooLong else pure (type.sized n)

/-- A name of the VARCHAR2 family reads a length and checks it. -/
theorem typeNamed_varchar (name : VarcharName) :
    typeNamed name.word = length >>= (TextType.varchar name).checked := by
  have same : typeNamed name.word = length >>= fun n => match n with
      | none => throw missingLeftParen
      | some n => if 32767 < n then throw lengthTooLong else pure (.varchar2 n) := by
    cases name <;> rfl
  rw [same]
  congr 1
  ext n : 1
  cases n with
  | none => rfl
  | some n => simp only [TextType.checked, TextType.Limited, TextType.limit, TextType.sized, true_and]

/-- A name of the CHAR family reads a length, after VARYING if it is there, and checks it. -/
theorem typeNamed_char (name : CharName) :
    typeNamed name.word = eatKw "VARYING" >>= fun isVarying =>
      if isVarying then length >>= (TextType.varying name).checked
      else length >>= (TextType.char name).checked := by
  have same : typeNamed name.word = eatKw "VARYING" >>= fun isVarying =>
      if isVarying then length >>= fun n => match n with
        | none => throw missingLeftParen
        | some n => pure (.varchar2 n)
      else length >>= fun n =>
        if 2000 < n.getD 1 then throw lengthTooLong else pure (.char (n.getD 1)) := by
    cases name <;> rfl
  rw [same]
  congr 1
  ext isVarying : 1
  congr 2
  all_goals
    ext n : 1
    cases n with
    | none => rfl
    | some n => simp only [TextType.checked, TextType.Limited, TextType.limit, TextType.sized,
        true_and, Option.getD_some]

/-- A declaration is read as its length, checked for its type. -/
theorem dataType_declaration (type : TextType) (declared : DeclaredLength) (rest : List Tok) :
    dataType.run (type.declaration declared rest) =
      (length >>= type.checked).run (declared.tokens rest) := by
  have first (name : String) (tokens : List Tok) :
      dataType.run (.ident name :: tokens) = (typeNamed name).run tokens := rfl
  cases type with
  | varchar name =>
      exact (first _ _).trans (by rw [typeNamed_varchar]; rfl)
  | varying name =>
      have more : (eatKw "VARYING").run (.ident "VARYING" :: declared.tokens rest) =
          .ok (true, declared.tokens rest) := eat_cons_self _ _
      refine (first _ _).trans ?_
      rw [typeNamed_char]
      exact Codec.run_bind_of_ok more
  | char name =>
      have other : (eatKw "VARYING").run (declared.tokens rest) =
          .ok (false, declared.tokens rest) := eat_of_ne (by simp [DeclaredLength.tokens])
      refine (first _ _).trans ?_
      rw [typeNamed_char]
      exact Codec.run_bind_of_ok other

/-- A length that is no positive 64-bit integer is an error. -/
theorem dataType_refused {type : TextType} {declared : DeclaredLength}
    (unfit : ¬ (0 < declared.written ∧ declared.written < 2 ^ 63)) (rest : List Tok) :
    ∃ e, dataType.run (type.declaration declared rest) = .error e := by
  have read := length_tokens declared rest
  rw [dataType_declaration]
  by_cases large : 2 ^ 63 ≤ declared.literal.value
  · rw [if_pos large] at read
    exact ⟨_, Codec.run_bind_of_error read⟩
  · have small : declared.written < 2 ^ 63 := by
      rw [DeclaredLength.written]
      split_ifs <;> omega
    rw [if_neg large, if_pos (by omega)] at read
    exact ⟨_, Codec.run_bind_of_error read⟩

/-- Of a positive 64-bit integer the parser takes the last 32 bits. -/
theorem dataType_cast {type : TextType} {declared : DeclaredLength}
    (positive : 0 < declared.written) (small : declared.written < 2 ^ 63) (rest : List Tok) :
    dataType.run (type.declaration declared rest) =
      if type.Limited ∧ type.limit < declared.written.toNat % 2 ^ 32 then .error lengthTooLong
      else .ok (type.sized (declared.written.toNat % 2 ^ 32), rest) := by
  have read := length_tokens declared rest
  have unsigned : declared.written = declared.literal.value := by
    rw [DeclaredLength.written] at positive ⊢
    split_ifs at positive ⊢ <;> omega
  rw [if_neg (by omega), if_neg (by omega)] at read
  rw [dataType_declaration, Codec.run_bind_of_ok read, TextType.checked]
  split_ifs <;> rfl

/-- The parser takes a length as it is written unless it is over the limit and overlooked. -/
theorem data_type_taken_as_written_iff (type : TextType) (declared : DeclaredLength)
    (rest : List Tok) :
    TakenAsWritten type declared.written rest (dataType.run (type.declaration declared rest)) ↔
      ¬ Overlooked type declared.written := by
  have limits : type.limit ≤ 32767 := by cases type <;> simp [TextType.limit]
  by_cases fit : 0 < declared.written ∧ declared.written < 2 ^ 63
  · have cast := @dataType_cast type _ fit.1 fit.2 rest
    by_cases within : declared.written ≤ type.limit
    · have same : declared.written.toNat % 2 ^ 32 = declared.written.toNat := by omega
      rw [same, if_neg (by omega)] at cast
      simp only [TakenAsWritten, Overlooked, cast]
      rw [if_pos ⟨by omega, within⟩]
      exact ⟨fun _ overlooked => absurd within (by omega), fun _ => trivial⟩
    · have modulo : (declared.written.toNat % 2 ^ 32 : Nat) = declared.written % 2 ^ 32 := by omega
      simp only [TakenAsWritten, Overlooked, cast, ← modulo, Nat.cast_le]
      rw [if_neg (by omega)]
      by_cases seen : type.Limited ∧ type.limit < declared.written.toNat % 2 ^ 32
      · rw [if_pos seen]
        exact ⟨fun _ overlooked => absurd (overlooked.2.2 seen.1) (not_le.mpr seen.2),
          fun _ => ⟨_, rfl⟩⟩
      · rw [if_neg seen]
        constructor
        · rintro ⟨e, ⟨⟩⟩
        · intro clear
          exact absurd ⟨by omega, fit.2, fun limited => by
            by_contra large
            exact seen ⟨limited, not_le.mp large⟩⟩ clear
  · obtain ⟨e, refused⟩ := @dataType_refused type _ fit rest
    simp only [TakenAsWritten, Overlooked, refused]
    rw [if_neg (by omega)]
    exact ⟨fun _ overlooked => fit ⟨by omega, overlooked.2.1⟩, fun _ => ⟨e, rfl⟩⟩

/-- 2³² is taken for a length of zero. -/
theorem not_taken_as_written :
    ¬ ∀ (type : TextType) (declared : DeclaredLength) (rest : List Tok),
      TakenAsWritten type declared.written rest (dataType.run (type.declaration declared rest)) := by
  intro taken
  have zero : dataType.run [.ident "VARCHAR2", .symbol "(", .number "4294967296", .symbol ")"] =
      .ok (.varchar2 0, []) := by decide
  obtain ⟨e, refused⟩ := taken (.varchar .varchar2)
    ⟨false, ⟨"4294967296".toList, by decide, by decide⟩, none⟩ []
  exact absurd (zero.symm.trans refused) (by simp)

end MockOracle.Parser
