import MockOracle.Semantics.Calendar
import MockOracle.Semantics.Codec
import MockOracle.Semantics.Decimal
import MockOracle.Semantics.Execution
import MockOracle.Semantics.Joins
import MockOracle.Semantics.KeyIndex
import MockOracle.Semantics.Overlay
import MockOracle.Semantics.Rounding
import MockOracle.Semantics.Scanning
import MockOracle.Semantics.Separated
import MockOracle.Semantics.Significant
import MockOracle.Semantics.Snapshots
import MockOracle.Semantics.Sorting
import MockOracle.Semantics.Steady
import MockOracle.Semantics.Stretches
import MockOracle.Semantics.Text
import MockOracle.Semantics.ThreeValued
import MockOracle.Semantics.Traced
import MockOracle.Semantics.Watching
import MockOracle.Core.Ast
import MockOracle.Core.BigDecimal
import MockOracle.Core.Chrono
import MockOracle.Core.KeyText
import MockOracle.Core.Number
import MockOracle.Core.Unicode
import MockOracle.Core.Value
import MockOracle.Catalog.Catalog
import MockOracle.Catalog.IndexContract
import MockOracle.Catalog.Satisfied
import MockOracle.Catalog.Schema
import MockOracle.Catalog.SchemaChange
import MockOracle.Catalog.Table
import MockOracle.Catalog.TableIndex
import MockOracle.Catalog.WellFormed
import MockOracle.Eval.Bounds
import MockOracle.Eval.DateDifference
import MockOracle.Eval.Datetime
import MockOracle.Eval.DatetimeFormats
import MockOracle.Eval.DatetimeKeywords
import MockOracle.Eval.DatetimePanics
import MockOracle.Eval.DatetimeReading
import MockOracle.Eval.DatetimeRoundTrip
import MockOracle.Eval.Decimals
import MockOracle.Eval.Drawless
import MockOracle.Eval.Engine
import MockOracle.Eval.EqualityKeys
import MockOracle.Eval.Evaluate
import MockOracle.Eval.Evaluator
import MockOracle.Eval.Functions
import MockOracle.Eval.Grouping
import MockOracle.Eval.Joins
import MockOracle.Eval.Like
import MockOracle.Eval.Literal
import MockOracle.Eval.Measured
import MockOracle.Eval.Membership
import MockOracle.Eval.NumberColumn
import MockOracle.Eval.NumberFormat
import MockOracle.Eval.NumberFormatDigits
import MockOracle.Eval.NumberFormatTemplate
import MockOracle.Eval.NumberFormatText
import MockOracle.Eval.NumberText
import MockOracle.Eval.Operators
import MockOracle.Eval.Ordering
import MockOracle.Eval.Plain
import MockOracle.Eval.Promise
import MockOracle.Eval.ResultTypes
import MockOracle.Eval.RowSequences
import MockOracle.Eval.Runs
import MockOracle.Eval.Select
import MockOracle.Eval.Sequences
import MockOracle.Eval.SetOperations
import MockOracle.Eval.SteadyQueries
import MockOracle.Eval.Storable
import MockOracle.Eval.StoreValue
import MockOracle.Eval.Typing
import MockOracle.Session.Atomic
import MockOracle.Session.Cascade
import MockOracle.Session.CascadesEnd
import MockOracle.Session.Conform
import MockOracle.Session.Consistent
import MockOracle.Session.Ddl
import MockOracle.Session.DdlContract
import MockOracle.Session.DdlFormed
import MockOracle.Session.DdlRows
import MockOracle.Session.Dml
import MockOracle.Session.ForeignKeys
import MockOracle.Session.Invariant
import MockOracle.Session.Merge
import MockOracle.Session.References
import MockOracle.Session.Replay
import MockOracle.Session.ReplayExact
import MockOracle.Session.Rounds
import MockOracle.Session.RowChecks
import MockOracle.Session.RowIds
import MockOracle.Session.RowNumbers
import MockOracle.Session.Run
import MockOracle.Session.Savepoint
import MockOracle.Session.Sequence
import MockOracle.Session.SequenceHistory
import MockOracle.Session.Session
import MockOracle.Session.Stepwise
import MockOracle.Session.StoredValues
import MockOracle.Session.Txn
import MockOracle.Session.Undo
import MockOracle.Session.Validation
import MockOracle.Session.Write
import MockOracle.System.Atomicity
import MockOracle.System.CommitPaths
import MockOracle.System.Commute
import MockOracle.System.Conform
import MockOracle.System.Consistency
import MockOracle.System.CreateAs
import MockOracle.System.DropConstraint
import MockOracle.System.FailedDdl
import MockOracle.System.Keyed
import MockOracle.System.LostUpdate
import MockOracle.System.References
import MockOracle.System.Restore
import MockOracle.System.Rollback
import MockOracle.System.RowConstraints
import MockOracle.System.RowIds
import MockOracle.System.Sequences
import MockOracle.System.Snapshots
import MockOracle.System.System
import MockOracle.System.Validation
import MockOracle.System.Version
import MockOracle.System.WellFormed
import MockOracle.Server.Binds
import MockOracle.Server.Connection
import MockOracle.Server.CursorIds
import MockOracle.Server.Fetching
import MockOracle.Server.Framing
import MockOracle.Server.Handshake
import MockOracle.Server.Login
import MockOracle.Server.NumberRange
import MockOracle.Server.OraNum
import MockOracle.Server.Rows
import MockOracle.Server.SentNumbers
import MockOracle.Server.Tns
import MockOracle.Server.Ttc
import MockOracle.Parse.ByteLexer
import MockOracle.Parse.ByteLexing
import MockOracle.Parse.DeclaredLengths
import MockOracle.Parse.Lexemes
import MockOracle.Parse.Lexer
import MockOracle.Parse.Lexing
import MockOracle.Parse.Parser
import MockOracle.Parse.Script
import MockOracle.Parse.ScriptTokens
import MockOracle.Parse.Splitting
import MockOracle.Parse.Tiling
import MockOracle.Plsql.Counting
import MockOracle.Plsql.Expressions
import MockOracle.Plsql.Interp
import MockOracle.Plsql.LazyEval
import MockOracle.Plsql.LazyOperands
import MockOracle.Plsql.LazyOperators
import MockOracle.Plsql.Output
import MockOracle.Plsql.StackDiscipline
import MockOracle.Plsql.Statements
import MockOracle.Plsql.TypedVariables
import MockOracle.Plsql.Variables
