import RelQuery.Error

/-!
# Logical rows

A logical row is one row as expressions see it: a stored row, the padding that stands for the
missing partner of an outer join, a projected row, or a join candidate that carries only some
columns of its table.  Stored and projected rows are addressed by position; a candidate finds a
column among those it carries.
-/

namespace RelQuery

/-- A stored row under the reference name it was fetched with. -/
structure StoredRow where
  table : String
  id : Nat
  values : Row
  deriving DecidableEq

/-- A row of a table cut down to some of its columns. -/
structure Candidate where
  id : Nat
  values : Row
  deriving DecidableEq

/-- A row as expressions see it. -/
inductive LogicalRow where
  | stored (row : StoredRow)
  | padding (table : String)
  | projected (position : Nat) (values : Row)
  | candidate (table : String) (columns : List ColumnRef) (row : Candidate)
  deriving DecidableEq

/-- The position at which a list of columns carries a column of the named table. -/
def carriedPosition (table : String) (columns : List ColumnRef) (column : ColumnRef) :
    Result Nat :=
  match columns.findIdx? (·.same column) with
  | some position => .ok position
  | none => .error (.fault (.columnNotCarried column table))

/-- The value at a position, or the given fault where there is none. -/
def Row.at (row : Row) (index : Nat) (fault : Fault) : Result Value :=
  match row[index]? with
  | some value => .ok value
  | none => .error (.fault fault)

namespace StoredRow

/-- The value at a position. -/
def valueAt (row : StoredRow) (index : Nat) : Result Value :=
  Row.at row.values index (.storedPosition index row.table row.values.length)

/-- The value of a resolved column. -/
def valueOf (row : StoredRow) (column : ColumnRef) : Result Value :=
  match column.index with
  | some index => row.valueAt index
  | none => .error (.fault (.noPosition column))

end StoredRow

namespace LogicalRow

/-- The row id of rows that are not stored. -/
def paddingId : Nat :=
  0xFFFFFFFFFFFFFFFF

/-- The reference name of the table the row belongs to. -/
def tableName : LogicalRow → String
  | stored row => row.table
  | padding table => table
  | projected .. => ColumnRef.projectionTable
  | candidate table _ _ => table

/-- The id of the row. -/
def rowId : LogicalRow → Nat
  | stored row => row.id
  | padding _ => paddingId
  | projected position _ => position
  | candidate _ _ row => row.id

/-- The value at a position.  Padding is NULL everywhere. -/
def valueAt (row : LogicalRow) (index : Nat) : Result Value :=
  match row with
  | stored row => row.valueAt index
  | padding _ => .ok .null
  | projected _ values => Row.at values index (.projectedPosition index values.length)
  | candidate table _ row => Row.at row.values index (.candidatePosition index table)

/-- The value of a column. -/
def valueOf (row : LogicalRow) (column : ColumnRef) : Result Value :=
  match row with
  | stored row => row.valueOf column
  | padding _ => .ok .null
  | projected _ values =>
    match column.index with
    | some index => Row.at values index (.projectedPosition index values.length)
    | none => .error (.fault (.noProjectionPosition column))
  | candidate table columns cut =>
    (carriedPosition table columns column).bind fun position =>
      Row.at cut.values position (.candidatePosition position table)

end LogicalRow

end RelQuery
