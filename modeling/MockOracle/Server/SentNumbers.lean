import MockOracle.Eval.Decimals
import MockOracle.Server.NumberRange

/-!
# Numbers computed and sent

The result of an arithmetic expression goes to the client as a NUMBER. Products and quotients
are rounded to 40 digits, sums and differences are not, and nothing looks at the magnitude; a
number that cannot be encoded is sent as NULL. Whether that happens is said of the operands: how far
a sum's first one is from the negation of the second, and how large a product is.
-/

namespace MockOracle

open Semantics OraNum

/-! ## Significant digits -/

namespace BigDecimal

end BigDecimal

/-! ## What can be sent -/

namespace OraNum

/-- An encoded number has at least one byte. -/
theorem encode_ne_nil {text : String} {b : List Nat} (encoded : encode text = some b) : b ≠ [] := by
  simp only [encode, Option.bind_eq_bind, Option.bind_eq_some_iff] at encoded
  obtain ⟨e, -, encoded⟩ := encoded
  obtain ⟨-, -, -, ⟨-, rfl⟩ | ⟨-, rfl⟩⟩ := encodeDigits_cases encoded
  · simp
  · unfold wireBytes
    split <;> simp

/-- What comes back was not sent as NULL. -/
theorem ComesBack.written {n : BigDecimal} (back : ComesBack n) : writeNumber (.number n) ≠ [0] := by
  obtain ⟨b, encoded, -⟩ := back
  have nonempty := encode_ne_nil encoded
  simp [writeNumber, encoded, nonempty]

section Held

variable {n : BigDecimal}

end Held

end OraNum

/-! ## Arithmetic expressions -/

/-- The operators between numbers. -/
inductive BinaryOp.Arithmetic : BinaryOp → Prop
  | add : Arithmetic .add
  | sub : Arithmetic .sub
  | mul : Arithmetic .mul
  | div : Arithmetic .div

/-- A value is NULL or a number of at most 40 digits. -/
def Value.Short (v : Value) : Prop := v = .null ∨ ∃ n, v = .number n ∧ n.significantDigits ≤ 40

/-- Expressions of numbers of at most 40 digits: literals, binds, columns and variables, with
`+`, `-`, `*`, `/`, negation and SUM. -/
inductive Arithmetic (eng : Engine) (ex : Ex) : Scope → Expr → Prop
  | literal {scope : Scope} {n : BigDecimal} (short : n.significantDigits ≤ 40) :
      Arithmetic eng ex scope (.literal (.number n))
  | bind {scope : Scope} {i : Nat} (short : (ex.binds.getD i .null).Short) :
      Arithmetic eng ex scope (.bind i)
  | column {scope : Scope} {table : Option String} {name : String}
      (short : ∀ self st v st', resolve eng self ex scope table name st = .ok v st' → v.Short) :
      Arithmetic eng ex scope (.column table name)
  | neg {scope : Scope} {a : Expr} (operand : Arithmetic eng ex scope a) :
      Arithmetic eng ex scope (.neg a)
  | binary {scope : Scope} {op : BinaryOp} {a b : Expr} (arithmetic : op.Arithmetic)
      (left : Arithmetic eng ex scope a) (right : Arithmetic eng ex scope b) :
      Arithmetic eng ex scope (.binary op a b)
  | sum {scope : Scope} {a : Expr} {distinct : Bool}
      (operand : ∀ group, scope.group = some group → ∀ row ∈ group,
        Arithmetic eng ex (scope.inner row) a) :
      Arithmetic eng ex scope (.function "SUM" [a] distinct)

section Arithmetic

variable {eng : Engine} {ex : Ex} {scope : Scope} {self : Recur} {st st' : EvalState}

end Arithmetic

/-! ## Concrete expressions -/

namespace SentNumbers

/-- Nothing is stored and nothing is bound. -/
def ex : Ex := ⟨.empty, [], .empty, none⟩

def start : EvalState := ⟨∅, ∅, Literal.env "HR"⟩

def number (intVal scale : Int) : Expr := .literal (.number ⟨intVal, scale⟩)

/-- The plain engine with a decimal library. -/
def engine : Engine := { Engine.plain with lib := .dividing }

end SentNumbers

end MockOracle
