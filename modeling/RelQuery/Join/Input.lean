import RelQuery.Query

/-!
# Join inputs and joined tuples

A join input is a FROM-list entry with the candidate rows that are left of it.  A joined tuple has
one slot per joined table: the position of a candidate, or nothing for the padding of an outer join.
-/

namespace RelQuery

/-- A FROM-list entry with its candidate rows, which carry the given columns in that order. -/
structure JoinInput where
  table : FromEntry
  columns : List ColumnRef
  rows : List Candidate
  deriving DecidableEq

/-- One slot per joined table. -/
abbrev Tuple := List (Option Nat)

/-- The tuples of a join, with the positions of the joined tables in the order of the slots. -/
structure JoinedTuples where
  order : List Nat
  tuples : List Tuple
  deriving DecidableEq

namespace JoinInput

/-- The reference name of the entry. -/
def referenceName (t : JoinInput) : String :=
  t.table.referenceName

/-- The position at which the rows carry a column. -/
def placeOf (t : JoinInput) (column : ColumnRef) : Result Nat :=
  carriedPosition t.referenceName t.columns column

/-- The candidate at a position, as a row. -/
def row (t : JoinInput) (index : Nat) : Result LogicalRow :=
  match t.rows[index]? with
  | some row => .ok (.candidate t.referenceName t.columns row)
  | none => .error (.fault (.noCandidate index t.referenceName))

/-- The row that a slot stands for. -/
def slotRow (t : JoinInput) : Option Nat → Result LogicalRow
  | some index => t.row index
  | none => .ok (.padding t.referenceName)

/-- A table without a name, columns or rows. -/
def vacant : JoinInput where
  table := { name := "", label := none }
  columns := []
  rows := []

/-- The table at a position.  Positions are always those of tables in the list. -/
def atPosition (tables : List JoinInput) (position : Nat) : JoinInput :=
  tables.getD position vacant

/-- The position of the table that a reference means. -/
def indexOf (tables : List JoinInput) (ref : FromEntry) : Result Nat :=
  match tables.findIdx? (·.table.same ref) with
  | some position => .ok position
  | none => .error (.fault (.unknownJoinTable ref))

/-- The position of the first of the tables with the fewest rows. -/
def smallest? (tables : List JoinInput) : Option Nat :=
  tables.findIdx? fun t => tables.all fun other => t.rows.length ≤ other.rows.length

/-- The rows that a tuple stands for. -/
def rowsOf (tables : List JoinInput) (order : List Nat) (tuple : Tuple) :
    Result (List LogicalRow) :=
  (order.zip tuple).mapM fun slot => (atPosition tables slot.1).slotRow slot.2

end JoinInput

/-- The predicate accepts the rows. -/
def Expr.accepts (predicate : Expr) (rows : List LogicalRow) : Result Bool :=
  match predicate.evaluate .full rows with
  | .error error => .error error
  | .ok (.determined value) => value.isTrue
  | .ok .undetermined => .error (.fault (.undecidedPredicate predicate))

/-- The predicate accepts the rows that a tuple stands for. -/
def JoinInput.acceptsTuple (tables : List JoinInput) (order : List Nat) (predicate : Expr)
    (tuple : Tuple) : Result Bool :=
  (rowsOf tables order tuple).bind predicate.accepts

/-- The elements that pass a test which may fail. -/
def filterResult {α : Type} (test : α → Result Bool) : List α → Result (List α)
  | [] => .ok []
  | a :: rest =>
    match test a with
    | .error error => .error error
    | .ok kept => (filterResult test rest).map fun others => if kept then a :: others else others

/-- Drops the tuples that the predicate does not accept.  After a failure no tuple is left. -/
def JoinedTuples.keepAccepted (tables : List JoinInput) (output : JoinedTuples) (predicate : Expr) :
    Resolution JoinedTuples :=
  match filterResult (JoinInput.acceptsTuple tables output.order predicate) output.tuples with
  | .ok kept => .ok { output with tuples := kept }
  | .error error => .error (error, { output with tuples := [] })

end RelQuery
