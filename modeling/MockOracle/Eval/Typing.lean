import MockOracle.Eval.Operators

/-!
# Columns and their types

How names find columns, which type a result column has, and how values are converted to it:
`find_column`, `static_type`, `infer_type`, `union_type` and `coerce_row` of `eval.rs`.
-/

namespace MockOracle

namespace SqlType

/-- An unconstrained NUMBER. -/
def unconstrained : SqlType := .number 0 (-127)

/-- The datetime types. -/
def isDate : SqlType → Bool
  | .date | .timestamp _ => true
  | _ => false

/-- The length of a text type. -/
def textLength : SqlType → Option Nat
  | .varchar2 n | .char n => some n
  | _ => none

end SqlType

/-! ## Names -/

/-- The text after the last point. -/
def shortName (name : String) : String :=
  String.ofList (name.toList.reverse.takeWhile (· ≠ '.')).reverse

/-- ORA-00904 for a column that is not found. -/
def invalidColumn (table : Option String) (name : String) : OraError :=
  match table with
  | some t => .invalidIdentifier ("\"" ++ t ++ "\".\"" ++ name ++ "\"")
  | none => .invalidIdentifier ("\"" ++ name ++ "\"")

/-- Whether a name, perhaps qualified, is this column's. -/
def RelCol.named (table : Option String) (name : String) (c : RelCol) : Bool :=
  c.name == name && (table.isNone || c.qualifier == table)

/-- The position of a column. Two matches are an error. -/
def findColumn (cols : List RelCol) (table : Option String) (name : String) :
    Except OraError (Option Nat) :=
  match cols.zipIdx.filter fun entry => entry.1.named table name with
  | [] => .ok none
  | [entry] => .ok (some entry.2)
  | _ => .error ⟨918, "column ambiguously defined"⟩

/-! ## Expressions without their subqueries -/

/-- The names of the aggregates. -/
def isAggregate (name : String) : Bool :=
  ["COUNT", "SUM", "AVG", "MIN", "MAX", "STDDEV", "VARIANCE", "MEDIAN"].contains name

/-- The direct subexpressions of an expression, not looking into subqueries. -/
def Expr.children : Expr → List Expr
  | .literal _ | .bind _ | .column _ _ | .rowNum | .countStar | .sequence _ _ | .subquery _
  | .exists _ => []
  | .neg a | .not a => [a]
  | .binary _ a b => [a, b]
  | .isNull e _ | .inSubquery e _ _ => [e]
  | .between e low high _ => [e, low, high]
  | .inList e list _ => e :: list
  | .like e pattern escape _ => e :: pattern :: escape.toList
  | .case operand whens else_ =>
      operand.toList ++ whens.flatMap (fun when => [when.1, when.2]) ++ else_.toList
  | .function _ args _ => args

/-- An operand is smaller than its expression. -/
theorem Expr.sizeOf_children {e child : Expr} (member : child ∈ e.children) :
    sizeOf child < sizeOf e := by
  cases e with
  | literal | bind | column | rowNum | countStar | sequence | subquery | «exists» =>
      simp [children] at member
  | neg a | not a =>
      simp only [children, List.mem_singleton] at member
      subst member
      simp
  | binary op a b =>
      simp only [children, List.mem_cons, List.not_mem_nil, or_false] at member
      rcases member with rfl | rfl <;> simp <;> omega
  | isNull a negated =>
      simp only [children, List.mem_singleton] at member
      subst member
      simp
  | inSubquery a query negated =>
      simp only [children, List.mem_singleton] at member
      subst member
      simp
      omega
  | between a low high negated =>
      simp only [children, List.mem_cons, List.not_mem_nil, or_false] at member
      rcases member with rfl | rfl | rfl <;> simp <;> omega
  | inList a list negated =>
      simp only [children, List.mem_cons] at member
      rcases member with rfl | member
      · simp
        omega
      · have := List.sizeOf_lt_of_mem member
        simp
        omega
  | like a pattern escape negated =>
      simp only [children, List.mem_cons, Option.mem_toList] at member
      rcases member with rfl | rfl | member
      · simp
        omega
      · simp
        omega
      · cases member
        simp
        omega
  | case operand whens else_ =>
      simp only [children, List.mem_append, Option.mem_toList, List.mem_flatMap] at member
      rcases member with (member | ⟨⟨w, t⟩, listed, member⟩) | member
      · cases member
        simp
        omega
      · have := List.sizeOf_lt_of_mem listed
        simp only [Prod.mk.sizeOf_spec] at this
        simp only [List.mem_cons, List.not_mem_nil, or_false] at member
        rcases member with rfl | rfl <;> simp <;> omega
      · cases member
        simp
        omega
  | function name args distinct =>
      have := List.sizeOf_lt_of_mem (by simpa [children] using member)
      simp
      omega

/-- Whether an expression has an aggregate call outside any subquery. -/
def containsAggregate : Expr → Bool
  | .countStar => true
  | .function name args _ => isAggregate name || args.attach.any fun a => containsAggregate a.1
  | e => e.children.attach.any fun c => containsAggregate c.1
termination_by e => sizeOf e
decreasing_by
  · have := List.sizeOf_lt_of_mem a.2
    simp
    omega
  · exact Expr.sizeOf_children c.2

/-! ## Types of expressions -/

/-- The length in a CAST target such as `VARCHAR2:20`, as an integer of `bits` bits. -/
def castLength (bits : Nat) (target : String) : Option Nat :=
  if "VARCHAR2:".toList.isPrefixOf target.toList then
    (Semantics.Decimal.readDigits (target.toList.drop 9)).filter (· < 2 ^ bits)
  else none

/-- The type of a CAST to a target. -/
def castType (target : String) : Option SqlType :=
  if target = "NUMBER" then some .unconstrained
  else if target = "DATE" then some .date
  else if target = "TIMESTAMP" then some (.timestamp 6)
  else (castLength 32 target).map .varchar2

/-- The functions that give numbers. -/
def numberFunctions : List String :=
  ["COUNT", "SUM", "AVG", "STDDEV", "VARIANCE", "MEDIAN", "LENGTH", "LENGTHB", "INSTR", "ABS",
    "SIGN", "CEIL", "FLOOR", "MOD", "POWER", "SQRT", "TO_NUMBER", "ASCII", "MONTHS_BETWEEN", "EXP",
    "LN", "LOG", "REMAINDER", "EXTRACT"]

/-- The functions that give dates. -/
def dateFunctions : List String :=
  ["SYSDATE", "CURRENT_DATE", "TO_DATE", "ADD_MONTHS", "LAST_DAY", "NEXT_DAY"]

/-- The functions that give timestamps. -/
def timestampFunctions : List String :=
  ["SYSTIMESTAMP", "CURRENT_TIMESTAMP", "LOCALTIMESTAMP", "TO_TIMESTAMP"]

/-- The functions typed like their first argument. -/
def firstArgumentFunctions : List String := ["MIN", "MAX", "NVL", "COALESCE", "GREATEST", "LEAST"]

/-- The functions that give the type of their argument. -/
def caseFunctions : List String := ["UPPER", "LOWER", "INITCAP"]

/-- The type of a function call, from the type of its first argument. -/
def functionType (name : String) (args : List Expr) (first : Option SqlType) : Option SqlType :=
  if name ∈ numberFunctions then some .unconstrained
  else if name ∈ dateFunctions then some .date
  else if name ∈ timestampFunctions then some (.timestamp 6)
  else if name = "ROUND" ∨ name = "TRUNC" then
    if first.any SqlType.isDate then some .date else some .unconstrained
  else if name ∈ firstArgumentFunctions then first
  else if name ∈ caseFunctions then first.filter fun t => t.textLength.isSome
  else if name = "CAST" then
    match (args[1]? : Option Expr) with
    | some (.literal (.varchar2 target)) => castType target
    | _ => none
  else none

/-- The type of an arithmetic operation, from the types of its operands. -/
def binaryType (op : BinaryOp) (left right : Option SqlType) : Option SqlType :=
  match op with
  | .mul | .div => some .unconstrained
  | .add | .sub =>
      if left.any SqlType.isDate = right.any SqlType.isDate then some .unconstrained else some .date
  | _ => none

mutual

/-- The type an expression has regardless of the data, when that is known. -/
def staticType (cols : List RelCol) : Expr → Option SqlType
  | .column table name =>
      match findColumn cols table name with
      | .ok (some i) => cols[i]?.map RelCol.sqlType
      | _ => none
  | .literal (.number _) | .countStar | .rowNum | .neg _ => some .unconstrained
  | .literal (.date _) => some .date
  | .literal (.timestamp _) => some (.timestamp 9)
  | .binary op a b => binaryType op (staticType cols a) (staticType cols b)
  | .function name args _ => functionType name args (firstType cols args)
  | .case _ whens else_ =>
      ((thenType cols whens).or (elseType cols else_)).filter fun t => t.textLength.isNone
  | _ => none
termination_by structural e => e

/-- The type of the first argument. -/
def firstType (cols : List RelCol) : List Expr → Option SqlType
  | [] => none
  | e :: _ => staticType cols e
termination_by structural es => es

/-- The type of the first branch of a CASE that has one. -/
def thenType (cols : List RelCol) : List (Expr × Expr) → Option SqlType
  | [] => none
  | (_, t) :: rest => (staticType cols t).or (thenType cols rest)
termination_by structural whens => whens

/-- The type of the ELSE of a CASE. -/
def elseType (cols : List RelCol) : Option Expr → Option SqlType
  | none => none
  | some e => staticType cols e
termination_by structural e => e

end

/-- The common type of a column of a set operation. -/
def unionType (a b : SqlType) : Except OraError SqlType :=
  match a, b with
  | .varchar2 0, t | t, .varchar2 0 => .ok t
  | .number _ _, .number _ _ => .ok .unconstrained
  | .varchar2 x, .varchar2 y | .varchar2 x, .char y | .char x, .varchar2 y | .char x, .char y =>
      .ok (.varchar2 (max x y))
  | .date, .date => .ok .date
  | .date, .timestamp _ | .timestamp _, .date | .timestamp _, .timestamp _ => .ok (.timestamp 9)
  | _, _ => .error ⟨1790, "expression must have same datatype as corresponding expression"⟩

/-- The longest text of a column's values, lengths being 32-bit. -/
def maxLength (values : List Value) : Nat :=
  values.foldl (fun length v =>
    match v with
    | .varchar2 s => max length (s.utf8ByteSize % 2 ^ 32)
    | _ => length) 0

/-- The type of the first value that is neither NULL nor a text. -/
def firstKind (values : List Value) : Option SqlType :=
  values.findSome? fun
    | .null | .varchar2 _ => none
    | .number _ => some .unconstrained
    | .date _ => some .date
    | .timestamp _ | .boolean _ => some (.timestamp 9)

/-- The type of a result column: the declared one if there is one, otherwise from the values. -/
def inferType (declared : Option SqlType) (values : List Value) : SqlType :=
  match declared with
  | some t => t
  | none =>
      match firstKind values with
      | some t => if maxLength values = 0 then t else .varchar2 (maxLength values)
      | none => .varchar2 (maxLength values)

/-- Convert a value to the type of a result column. -/
def coerceValue (dates : DateFormats) (env : Env) (t : SqlType) (v : Value) :
    Except OraError Value :=
  match t, v with
  | _, .null => .ok .null
  | _, .boolean _ => .error ⟨902, "invalid datatype"⟩
  | .number _ _, .varchar2 _ => return .number (← convert ⟨0, 0⟩ v.toNumber)
  | .varchar2 _, .number n | .char _, .number n => .ok (Value.varchar (formatNumber n))
  | .varchar2 _, .date d | .char _, .date d => .ok (Value.varchar (dates.format d env.nlsDateFormat))
  | .varchar2 _, .timestamp d | .char _, .timestamp d =>
      .ok (Value.varchar (dates.format d env.nlsTimestampFormat))
  | .date, .timestamp d => .ok (.date ⟨d.timestamp, 0⟩)
  | .timestamp _, .date d => .ok (.timestamp d)
  | .date, .number _ | .timestamp _, .number _ => .error (.inconsistent "DATE" "NUMBER")
  | .number _ _, .date _ | .number _ _, .timestamp _ => .error (.inconsistent "NUMBER" "DATE")
  | .date, .varchar2 _ => return .date (← convert ⟨0, 0⟩ (v.toDatetime dates env.nlsDateFormat))
  | .timestamp _, .varchar2 _ =>
      return .timestamp (← convert ⟨0, 0⟩ (v.toDatetime dates env.nlsTimestampFormat))
  | _, v => .ok v

/-- Convert a row to the types of its columns. -/
def coerceRow (dates : DateFormats) (env : Env) : List RelCol → Row → Except OraError Row
  | c :: cols, v :: row =>
      return (← coerceValue dates env c.sqlType v) :: (← coerceRow dates env cols row)
  | _, _ => .ok []

end MockOracle
