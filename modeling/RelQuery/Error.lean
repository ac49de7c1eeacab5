import RelQuery.Expr.Basic
import RelQuery.Join.Kind

/-!
# Errors

An error is a cause with the data that its text shows.  The first family describes problems of the
query or of a storage request.  A `Fault` signals a broken contract between the engine and whoever
built the query or the record; every fault is of the kind `internal`.  An error may be placed in a
table or column, which leaves its innermost cause, the root, unchanged.
-/

namespace RelQuery

/-- Operands or values of the wrong types. -/
inductive TypeMismatch where
  | notBoolean (found : Value)
  | comparison (left right : Option ColumnType)
  | arithmetic (op : ArithmeticOp) (left right : Option ColumnType)
  | aggregate (f : Aggregate) (found : Value)
  | joinKeys (left right : ColumnRef) (leftType rightType : ColumnType)
  deriving DecidableEq

/-- The text of a type mismatch. -/
def TypeMismatch.message : TypeMismatch → String
  | notBoolean found =>
    "expected BOOLEAN, found " ++ Value.typeText found.type? ++ " " ++ found.render
  | comparison left right =>
    "cannot compare " ++ Value.typeText left ++ " with " ++ Value.typeText right
  | arithmetic op left right =>
    "cannot apply " ++ op.symbol ++ " to " ++ Value.typeText left ++ " and " ++
      Value.typeText right
  | aggregate f found =>
    f.name ++ " over " ++ Value.typeText found.type? ++ " value " ++ found.render
  | joinKeys left right leftType rightType =>
    "cannot compare " ++ leftType.name ++ " with " ++ rightType.name ++ " in join condition " ++
      left.render ++ " = " ++ right.render

/-- Integer results outside the signed 64-bit range. -/
inductive Overflow where
  | negation (n : Int64)
  | operation (left : Int64) (op : ArithmeticOp) (right : Int64)
  | count (rows : Nat)
  deriving DecidableEq

/-- The text of an overflow. -/
def Overflow.message : Overflow → String
  | negation n => "-(" ++ Numeral.signedText n.toInt ++ ")"
  | operation left op right =>
    Numeral.signedText left.toInt ++ " " ++ op.symbol ++ " " ++ Numeral.signedText right.toInt
  | count rows => "COUNT of " ++ Numeral.text rows ++ " rows"

/-- Expressions that mean nothing. -/
inductive SyntaxFault where
  | negatedText (s : String)
  | missingArgument (f : Function)
  deriving DecidableEq

/-- The text of a meaningless expression. -/
def SyntaxFault.message : SyntaxFault → String
  | negatedText s => "cannot negate TEXT value '" ++ s ++ "'"
  | missingArgument f => f.name ++ " requires an argument"

/-- The clauses in which an aggregate may be refused. -/
inductive Clause where
  | selection
  | joinCondition
  | groupBy
  | orderBy
  deriving DecidableEq

/-- The keyword of a clause. -/
def Clause.keyword : Clause → String
  | selection => "WHERE"
  | joinCondition => "ON"
  | groupBy => "GROUP BY"
  | orderBy => "ORDER BY"

/-- Aggregates where none may stand. -/
inductive InvalidAggregate where
  | inClause (e : Expr) (clause : Clause)
  | nested (e : Expr)
  | member (e : Expr)
  deriving DecidableEq

/-- The text of a misplaced aggregate. -/
def InvalidAggregate.message : InvalidAggregate → String
  | inClause e clause => e.render ++ " in " ++ clause.keyword
  | nested e => "nested aggregate in " ++ e.render
  | member e => e.render

/-- Join conditions that cannot be executed. -/
inductive UnsupportedJoin where
  | condition (on : Expr)
  | cycle (kind : JoinKind) (left right : FromEntry)
  deriving DecidableEq

/-- The text of an unsupported join condition. -/
def UnsupportedJoin.message : UnsupportedJoin → String
  | condition on => on.render
  | cycle kind left right =>
    kind.name ++ " join between " ++ left.render ++ " and " ++ right.render ++
      " closes a cycle in the join graph"

/-- Storage requests that are refused. -/
inductive InvalidStorage where
  | tableExists (table : String)
  | noColumns (table : String)
  | duplicateColumn (column : String)
  | wrongWidth (table : String) (columns values : Nat)
  | noRow (row : Nat) (table : String)
  | refused (reason : String)
  deriving DecidableEq

/-- The text of a refused storage request. -/
def InvalidStorage.message : InvalidStorage → String
  | tableExists table => "table already exists: " ++ table
  | noColumns table => "table must have at least one column: " ++ table
  | duplicateColumn column => "duplicate column name: " ++ column
  | wrongWidth table columns values =>
    "table " ++ table ++ " has " ++ Numeral.text columns ++ " columns but " ++
      Numeral.text values ++ " values were supplied"
  | noRow row table => "no row " ++ Numeral.text row ++ " in " ++ table
  | refused reason => reason

/-! ### Broken contracts -/

/-- Records that cannot be written or read. -/
inductive CodecFault where
  | textTooLarge
  | indexTooLarge
  | unwritableFunction (f : Function)
  | truncatedRecord
  | truncatedValue
  | truncatedBoolean
  | truncatedColumn
  | truncatedExpression
  | truncatedOperation
  | textLength
  | textEncoding
  | optionMarker
  | indexMarker
  | unknownValue (code : UInt8)
  | unknownType (code : UInt8)
  | unknownOperator (code : UInt8)
  | unknownExpression (code : UInt8)
  | unreadableFunction
  deriving DecidableEq

/-- The text of a codec fault. -/
def CodecFault.message : CodecFault → String
  | textTooLarge => "text too large"
  | indexTooLarge => "column index too large to encode"
  | unwritableFunction f => f.name ++ " expressions cannot be serialized"
  | truncatedRecord => "truncated record"
  | truncatedValue => "truncated value"
  | truncatedBoolean => "truncated boolean"
  | truncatedColumn => "truncated column reference"
  | truncatedExpression => "truncated expression"
  | truncatedOperation => "truncated binary expression"
  | textLength => "invalid text length"
  | textEncoding => "text is not valid UTF-8"
  | optionMarker => "invalid optional string marker"
  | indexMarker => "invalid column index marker"
  | unknownValue code => "unknown value tag " ++ Numeral.text code.toNat
  | unknownType code => "unknown data type tag " ++ Numeral.text code.toNat
  | unknownOperator code => "unknown operator tag " ++ Numeral.text code.toNat
  | unknownExpression code => "unknown expression tag " ++ Numeral.text code.toNat
  | unreadableFunction => "function expressions cannot be deserialized"

/-- Broken contracts, by what was asked for. -/
inductive Fault where
  | codec (fault : CodecFault)
  /- expressions -/
  | noLeftOperand (e : Expr)
  | noRightOperand (e : Expr)
  | unresolvedColumn (column : ColumnRef)
  | undecidedPredicate (e : Expr)
  /- rows -/
  | noPosition (column : ColumnRef)
  | noProjectionPosition (column : ColumnRef)
  | storedPosition (index : Nat) (table : String) (width : Nat)
  | projectedPosition (index width : Nat)
  | candidatePosition (index : Nat) (table : String)
  | columnNotCarried (column : ColumnRef) (table : String)
  | noCandidate (index : Nat) (table : String)
  | vanishedRow (row : Nat) (table : String)
  /- queries and joins -/
  | emptyProjection
  | noTables
  | nothingToJoin
  | unknownJoinTable (table : FromEntry)
  | disconnected (tables : List String)
  | keyMissing (table : String)
  | shortTuple
  | tuplePastTable
  /- grouping -/
  | groupedWidth (values members : Nat)
  | groupKey
  | undecidedHaving (e : Expr)
  /- locks -/
  | notExclusive (session : Nat) (table : String)
  | notLocked (table : String) (session : Nat)
  | notShared (table : String) (session : Nat)
  | locksHeld (session : Nat) (tables : List String)
  deriving DecidableEq

/-- The text of a fault. -/
def Fault.message : Fault → String
  | codec fault => fault.message
  | noLeftOperand e => e.render ++ " has no left operand"
  | noRightOperand e => e.render ++ " has no right operand"
  | unresolvedColumn column => "column " ++ column.render ++ " evaluated before validation"
  | undecidedPredicate e =>
    "join predicate " ++ e.render ++ " unavailable in full evaluation"
  | noPosition column => "column " ++ column.render ++ " has no resolved position"
  | noProjectionPosition column =>
    "projection reference " ++ column.render ++ " has no position"
  | storedPosition index table width =>
    "column position " ++ Numeral.text index ++ " out of range for " ++ table ++ " (" ++
      Numeral.text width ++ " columns)"
  | projectedPosition index width =>
    "projection position " ++ Numeral.text index ++ " out of range (" ++ Numeral.text width ++
      " columns)"
  | candidatePosition index table =>
    "filtered column " ++ Numeral.text index ++ " out of range for " ++ table
  | columnNotCarried column table =>
    "column " ++ column.render ++ " is not carried by the filtered rows of " ++ table
  | noCandidate index table =>
    "row position " ++ Numeral.text index ++ " out of range for " ++ table
  | vanishedRow row table => "row " ++ Numeral.text row ++ " vanished from " ++ table
  | emptyProjection => "query has an empty projection"
  | noTables => "query has no tables"
  | nothingToJoin => "join executor received no tables"
  | unknownJoinTable table => "join clause names unknown table " ++ table.render
  | disconnected tables =>
    "join graph is disconnected; no join clause reaches " ++ String.intercalate ", " tables
  | keyMissing table => "join key missing from " ++ table
  | shortTuple => "join tuple shorter than its key slot"
  | tuplePastTable => "join tuple points past its table"
  | groupedWidth values members =>
    "grouping received a row of " ++ Numeral.text values ++ " values for " ++
      Numeral.text members ++ " projection members"
  | groupKey => "group key outside the projection"
  | undecidedHaving e => "HAVING predicate " ++ e.render ++ " reads outside the projection"
  | notExclusive session table =>
    "session " ++ Numeral.text session ++ " does not hold an exclusive lock on " ++ table
  | notLocked table session =>
    "no lock held on " ++ table ++ " by session " ++ Numeral.text session
  | notShared table session =>
    "no shared lock held on " ++ table ++ " by session " ++ Numeral.text session
  | locksHeld session tables =>
    "session " ++ Numeral.text session ++ " still holds locks on " ++
      String.intercalate ", " tables

/-! ### Errors and their roots -/

/-- Where an error was raised. -/
inductive Place where
  | table (ref : FromEntry)
  | column (owner name : String)
  deriving DecidableEq

/-- The text of a place. -/
def Place.render : Place → String
  | table ref => "table " ++ ref.render
  | column owner name => owner ++ "." ++ name

/-- An error with everything its text shows. -/
inductive Error where
  | columnNotFound (column : ColumnRef)
  | memberNotInRow (e : Expr)
  | ambiguousColumn (name : String)
  | tableNotFound (name : String)
  | duplicateTable (name : String)
  | typeMismatch (cause : TypeMismatch)
  | meaningless (cause : SyntaxFault)
  | divisionByZero
  | overflow (cause : Overflow)
  | conversion (value : Value) (target : ColumnType)
  | ungroupedColumn (name : String)
  | invalidAggregate (cause : InvalidAggregate)
  | missingJoinCondition (kind : JoinKind)
  | unsupportedJoin (cause : UnsupportedJoin)
  | timeout
  | locked (table : String)
  | invalidStorage (cause : InvalidStorage)
  | fault (cause : Fault)
  | within (place : Place) (cause : Error)
  deriving DecidableEq

namespace Error

/-- The families of errors. -/
inductive Kind where
  | columnNotFound
  | ambiguousColumn
  | tableNotFound
  | duplicateTable
  | typeMismatch
  | meaningless
  | divisionByZero
  | overflow
  | conversion
  | ungroupedColumn
  | invalidAggregate
  | missingJoinCondition
  | unsupportedJoin
  | timeout
  | locked
  | invalidStorage
  | internal
  | placed
  deriving DecidableEq

/-- The family an error belongs to. -/
def kind : Error → Kind
  | columnNotFound _ | memberNotInRow _ => .columnNotFound
  | ambiguousColumn _ => .ambiguousColumn
  | tableNotFound _ => .tableNotFound
  | duplicateTable _ => .duplicateTable
  | typeMismatch _ => .typeMismatch
  | meaningless _ => .meaningless
  | divisionByZero => .divisionByZero
  | overflow _ => .overflow
  | conversion .. => .conversion
  | ungroupedColumn _ => .ungroupedColumn
  | invalidAggregate _ => .invalidAggregate
  | missingJoinCondition _ => .missingJoinCondition
  | unsupportedJoin _ => .unsupportedJoin
  | timeout => .timeout
  | locked _ => .locked
  | invalidStorage _ => .invalidStorage
  | fault _ => .internal
  | within .. => .placed

/-- The text of an error. -/
def message : Error → String
  | columnNotFound column => "column not found in table(s): " ++ column.render
  | memberNotInRow e =>
    "column not found in table(s): " ++ e.render ++ " (table not present in row)"
  | ambiguousColumn name => "ambiguous column name: " ++ name
  | tableNotFound name => "table not found: " ++ name
  | duplicateTable name => "table referenced more than once: " ++ name
  | typeMismatch cause => "type mismatch: " ++ cause.message
  | meaningless cause => "syntax error: " ++ cause.message
  | divisionByZero => "division by zero"
  | overflow cause => "integer overflow: " ++ cause.message
  | conversion value target =>
    "cannot convert " ++ Value.typeText value.type? ++ " " ++ value.render ++ " to " ++
      target.name
  | ungroupedColumn name =>
    name ++ " must appear in the GROUP BY clause or be used in an aggregate function"
  | invalidAggregate cause => "invalid use of aggregate: " ++ cause.message
  | missingJoinCondition kind => kind.name ++ " join requires an ON clause"
  | unsupportedJoin cause => "unsupported join condition: " ++ cause.message
  | timeout => "query timed out"
  | locked table => "table is locked: " ++ table
  | invalidStorage cause => "invalid storage operation: " ++ cause.message
  | fault cause => "internal error: " ++ cause.message
  | within place cause => place.render ++ ": " ++ cause.message

/-- The innermost cause. -/
def root : Error → Error
  | within _ cause => cause.root
  | error => error

/-- The innermost cause is a broken contract. -/
def isFault (error : Error) : Bool :=
  error.root.kind == .internal

end Error

/-- A computation that may fail. -/
abbrev Result (α : Type) := Except Error α

/-- The result with its error placed where it was raised. -/
def Result.inPlace {α : Type} (place : Place) (result : Result α) : Result α :=
  result.mapError (Error.within place)

/-- What a call gives together with the state it leaves.  A call that is refused gives no state. -/
def Result.settled {α σ : Type} : Result α × σ → Result (α × σ)
  | (.ok value, state) => .ok (value, state)
  | (.error error, _) => .error error

end RelQuery
