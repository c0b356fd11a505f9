import MockOracle.Core.Value

/-!
# Statements and expressions

The syntax trees of `ast.rs` and `plsql/mod.rs`. Expressions and queries are one
mutual family, and so are statements and PL/SQL blocks, because a block holds SQL
statements and `CREATE PROCEDURE` holds a block.
-/

namespace MockOracle

/-- How a set operation combines the rows of two queries. -/
inductive SetOp where
  | union
  | unionAll
  | intersect
  | minus
  deriving DecidableEq, Repr

/-- The joins of a FROM clause. -/
inductive JoinKind where
  | inner
  | left
  | right
  | full
  | cross
  deriving DecidableEq, Repr

/-- The operators with two operands. -/
inductive BinaryOp where
  | add
  | sub
  | mul
  | div
  | concat
  | eq
  | notEq
  | lt
  | ltEq
  | gt
  | gtEq
  | and
  | or
  deriving DecidableEq, Repr

mutual

/-- Expressions of SQL and PL/SQL. -/
inductive Expr where
  | literal (v : Value)
  /-- A bind variable, by position. -/
  | bind (position : Nat)
  | column (table : Option String) (name : String)
  | neg (e : Expr)
  | not (e : Expr)
  | binary (op : BinaryOp) (left right : Expr)
  | isNull (expr : Expr) (negated : Bool)
  | between (expr low high : Expr) (negated : Bool)
  | inList (expr : Expr) (list : List Expr) (negated : Bool)
  | inSubquery (expr : Expr) (query : Query) (negated : Bool)
  | exists (query : Query)
  | like (expr pattern : Expr) (escape : Option Expr) (negated : Bool)
  | case (operand : Option Expr) (whens : List (Expr × Expr)) (else_ : Option Expr)
  | function (name : String) (args : List Expr) (distinct : Bool)
  | countStar
  | subquery (query : Query)
  | rowNum
  /-- `seq.NEXTVAL` when `next`, otherwise `seq.CURRVAL`. -/
  | sequence (name : String) (next : Bool)

/-- A query: its body, and how its rows are ordered and cut. -/
inductive Query where
  | mk (body : SetExpr) (orderBy : List OrderItem) (offset fetch : Option Expr)

/-- The body of a query: one SELECT, or a set operation over two bodies. -/
inductive SetExpr where
  | select (s : Select)
  | setOp (op : SetOp) (left right : SetExpr)

/-- One SELECT block. -/
inductive Select where
  | mk (distinct : Bool) (items : List SelectItem) (fromItems : List FromItem)
      (where_ : Option Expr) (groupBy : List Expr) (having : Option Expr)

/-- An entry of a SELECT list: an expression with its name, or all columns. -/
inductive SelectItem where
  | expr (expr : Expr) (name : String)
  | star
  | qualifiedStar (qualifier : String)

/-- A table of a FROM clause with those joined to it. -/
inductive FromItem where
  | mk (factor : TableFactor) (joins : List Join)

/-- What a FROM clause reads: a table, a view of its own, or a subquery. -/
inductive TableFactor where
  | table (name : String) (alias_ : Option String)
  | subquery (query : Query) (alias_ : Option String)

/-- A joined table with its condition. -/
inductive Join where
  | mk (kind : JoinKind) (factor : TableFactor) (on : Option Expr)

/-- A key of an ORDER BY clause, with its direction and the place of its NULLs. -/
inductive OrderItem where
  | mk (expr : Expr) (desc : Bool) (nullsFirst : Option Bool)

end

/-- `RETURNING exprs INTO targets`. -/
structure Returning where
  exprs : List Expr
  into : List Expr

/-- Where an INSERT takes its rows from. -/
inductive InsertSource where
  | values (exprs : List Expr)
  | query (q : Query)

/-- INSERT, into all columns or into those named. -/
structure Insert where
  table : String
  columns : Option (List String)
  source : InsertSource
  returning : Option Returning

/-- UPDATE of the rows that a condition selects. -/
structure Update where
  table : String
  alias_ : Option String
  assignments : List (String × Expr)
  where_ : Option Expr
  returning : Option Returning

/-- DELETE of the rows that a condition selects. -/
structure Delete where
  table : String
  alias_ : Option String
  where_ : Option Expr
  returning : Option Returning

/-- An option of CREATE SEQUENCE or ALTER SEQUENCE. -/
inductive SequenceOption where
  | startWith (n : Int)
  | incrementBy (n : Int)
  | minValue (n : Option Int)
  | maxValue (n : Option Int)
  | cycle (on : Bool)
  | restart (start : Option Int)

/-- What deleting a parent row does to the child rows that reference it. -/
inductive OnDelete where
  | restrict
  | cascade
  | setNull
  deriving DecidableEq, Repr

/-- A column of CREATE TABLE. -/
structure ColumnDef where
  name : String
  sqlType : SqlType
  default : Option Expr
  notNull : Bool
  identity : Bool

/-- A constraint as written, with columns by name. `refColumns` is empty when the
statement names only the parent table. -/
inductive TableConstraintKind where
  | primaryKey (columns : List String)
  | unique (columns : List String)
  | check (condition : Expr)
  | foreignKey (columns : List String) (table : String) (refColumns : List String)
      (onDelete : OnDelete)

/-- A constraint of CREATE TABLE or ALTER TABLE, with its state. -/
structure TableConstraint where
  name : Option String
  kind : TableConstraintKind
  enabled : Bool
  validate : Bool

/-- CREATE TABLE, from columns or from a query. -/
structure CreateTable where
  name : String
  columns : List ColumnDef
  constraints : List TableConstraint
  asQuery : Option Query

/-- What an ALTER TABLE does with constraints. -/
inductive AlterTableAction where
  | addConstraints (constraints : List TableConstraint)
  | dropConstraint (name : Option String) (cascade : Bool)
  | setConstraint (name : Option String) (enabled validate cascade : Bool)

/-! ## PL/SQL -/

/-- The type of a variable, as it is declared. -/
inductive TypeRef where
  | sql (t : SqlType)
  | boolean
  | integer
  | typeOf (table : Option String) (name : String)
  | rowType (name : String)

/-- The declaration of a variable. -/
structure VarDecl where
  name : String
  type : TypeRef
  constant : Bool
  notNull : Bool
  default : Option Expr

/-- How a parameter passes its value. -/
inductive ParamMode where
  | in
  | out
  | inOut
  deriving DecidableEq, Repr

/-- A parameter of a routine or of a cursor. -/
structure Param where
  name : String
  mode : ParamMode
  type : TypeRef
  default : Option Expr

/-- The declaration of a cursor. -/
structure CursorDecl where
  name : String
  params : List Param
  query : Query

/-- Where a value is assigned to. -/
inductive Target where
  | var (name : String)
  | field (record field : String)
  | bind (position : Nat)

/-- An argument of a call, by position or by name. -/
structure Arg where
  name : Option String
  value : Expr

/-- What a cursor FOR loop goes through. -/
inductive CursorSource where
  | query (q : Query)
  | named (name : String) (args : List Expr)

mutual

/-- Statements of SQL, as the parser gives them. -/
inductive Statement where
  | query (q : Query)
  | insert (i : Insert)
  | update (u : Update)
  | delete (d : Delete)
  | createTable (ct : CreateTable)
  | dropTable (name : String) (cascadeConstraints : Bool)
  | alterTable (name : String) (action : AlterTableAction)
  | createIndex (name table : String) (columns : List String) (unique : Bool)
  | dropIndex (name : String)
  | truncate (name : String)
  | createSequence (name : String) (options : List SequenceOption)
  | alterSequence (name : String) (options : List SequenceOption)
  | dropSequence (name : String)
  | createRoutine (routine : Routine) (orReplace : Bool)
  | dropRoutine (name : String) (function : Bool)
  | block (b : Block)
  | commit
  | rollback
  | partitionMaintenance (table : Option String)
  | alterSession (name value : String)

/-- A PL/SQL block. -/
inductive Block where
  | mk (decls : List Decl) (body : List Stmt) (handlers : List Handler)

/-- A declaration of a block. -/
inductive Decl where
  | var (v : VarDecl)
  | exception (name : String)
  | exceptionInit (name : String) (code : Nat)
  | cursor (c : CursorDecl)
  | routine (r : Routine)

/-- An exception handler with the names it catches. -/
inductive Handler where
  | mk (exceptions : List String) (body : List Stmt)

/-- Statements of PL/SQL. -/
inductive Stmt where
  | null
  | assign (target : Target) (value : Expr)
  | if (branches : List (Expr × List Stmt)) (else_ : Option (List Stmt))
  | case (operand : Option Expr) (whens : List (Expr × List Stmt)) (else_ : Option (List Stmt))
  | loop (label : Option String) (body : List Stmt)
  | while (label : Option String) (cond : Expr) (body : List Stmt)
  | forRange (label : Option String) (var : String) (reverse : Bool) (low high : Expr)
      (body : List Stmt)
  | forCursor (label : Option String) (var : String) (source : CursorSource) (body : List Stmt)
  | exit (label : Option String) (when : Option Expr)
  | continue (label : Option String) (when : Option Expr)
  | return (value : Option Expr)
  | raise (name : Option String)
  | sql (stmt : Statement) (into : List Target)
  | call (name : String) (args : List Arg)
  | executeImmediate (sql : Expr) (into : List Target) (using_ : List Expr)
  | open (cursor : String) (args : List Expr)
  | fetch (cursor : String) (into : List Target)
  | close (cursor : String)
  | block (b : Block)

/-- A stored or local procedure (`returns = none`) or function. -/
inductive Routine where
  | mk (name : String) (params : List Param) (returns : Option TypeRef) (block : Block)

end

namespace Routine

/-- The name of a routine. -/
def name : Routine → String
  | mk name _ _ _ => name

/-- Whether a routine is a function: it declares what it returns. -/
def isFunction : Routine → Bool
  | mk _ _ returns _ => returns.isSome

end Routine

end MockOracle
