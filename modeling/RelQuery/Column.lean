import RelQuery.Text.Name
import RelQuery.Value.Basic

/-!
# Columns and table definitions

A table definition names and types its columns.  A column reference names a column and, once it is
resolved, knows the table, the declared type and the position of what it refers to.
-/

namespace RelQuery

/-- A declared column. -/
structure Column where
  name : String
  columnType : ColumnType
  deriving DecidableEq

/-- The definition of a table. -/
structure TableSchema where
  name : String
  columns : List Column
  deriving DecidableEq

/-- The position of the first column of the given name. -/
def TableSchema.indexOf? (table : TableSchema) (name : String) : Option Nat :=
  table.columns.findIdx? fun column => Name.same column.name name

/-- A reference to a column. -/
structure ColumnRef where
  /-- The name of the column. -/
  name : String
  /-- The reference name of the owning table, when it is given or resolved. -/
  table : Option String
  /-- The declared type, when it is resolved. -/
  columnType : Option ColumnType
  /-- The position among the owning table's columns, when it is resolved. -/
  index : Option Nat
  deriving DecidableEq

namespace ColumnRef

/-- The table name under which projected rows are addressed. -/
def projectionTable : String :=
  "$projection"

/-- A reference as it is written, before resolution. -/
def written (table : Option String) (name : String) : ColumnRef where
  name := name
  table := table
  columnType := none
  index := none

/-- A reference to a position of projected rows. -/
def toProjection (index : Nat) (name : String) : ColumnRef where
  name := name
  table := some projectionTable
  columnType := none
  index := some index

/-- The table and the position are known. -/
def isLocated (column : ColumnRef) : Bool :=
  column.table.isSome && column.index.isSome

/-- The reference is qualified by the given table name. -/
def qualifiedBy (column : ColumnRef) (table : String) : Bool :=
  column.table.any fun own => Name.same own table

/-- The qualifiers of two references agree. -/
def sameTable : Option String → Option String → Bool
  | some a, some b => Name.same a b
  | none, none => true
  | _, _ => false

/-- The two references agree in name and qualifier. -/
def same (a b : ColumnRef) : Bool :=
  sameTable a.table b.table && Name.same a.name b.name

/-- The text that shows the reference. -/
def render (column : ColumnRef) : String :=
  match column.table with
  | some table => if table = projectionTable then column.name else table ++ "." ++ column.name
  | none => column.name

end ColumnRef

end RelQuery
