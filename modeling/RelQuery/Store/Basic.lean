import RelQuery.Row
import RelQuery.Text.Lowercase
import RelQuery.Value.Convert

/-!
# The row store

The store keeps tables by the lower case of their names and the rows of a table by ids that are
given out in increasing order and never again.  A stored row has one value per column, each NULL or
of the column's declared type.

Each change gives its answer together with the store after it, also where it is refused.  Ids are
natural numbers.  A row that is inserted takes one id, so none reaches 2^64 in a course of fewer
insertions.
-/

namespace RelQuery

/-- A table with its rows in the order of their ids. -/
structure StoredTable where
  definition : TableSchema
  rows : List (Nat × Row)
  nextId : Nat
  deriving DecidableEq

namespace StoredTable

/-- The key under which a table of the given name is kept. -/
def keyOf (name : String) : String :=
  Text.lowercase name

/-- The key of the table. -/
def key (t : StoredTable) : String :=
  keyOf t.definition.name

/-- The row of an id. -/
def row? (t : StoredTable) (id : Nat) : Option Row :=
  (t.rows.find? (·.1 == id)).map Prod.snd

/-- The values converted to the types of the columns. -/
def convertRow (table : String) : List Column → Row → Result Row
  | column :: columns, value :: values => do
    let value ← (value.convert column.columnType).inPlace (.column table column.name)
    let values ← convertRow table columns values
    return value :: values
  | _, _ => .ok []

/-- Tries to store a row, and gives its id.  The table stays as it is until all values are
converted. -/
def tryInsert (t : StoredTable) (values : Row) : Result Nat × StoredTable :=
  let columns := t.definition.columns
  if values.length ≠ columns.length then
    (.error (.invalidStorage (.wrongWidth t.definition.name columns.length values.length)), t)
  else
    match convertRow t.definition.name columns values with
    | .error error => (.error error, t)
    | .ok stored =>
      (.ok t.nextId, { t with rows := t.rows ++ [(t.nextId, stored)], nextId := t.nextId + 1 })

/-- Tries to remove the row of an id from the table, which the caller knows by a name. -/
def tryRemove (t : StoredTable) (name : String) (id : Nat) : Result Unit × StoredTable :=
  (if (t.row? id).isSome then .ok () else .error (.invalidStorage (.noRow id name)),
    { t with rows := t.rows.filter (·.1 != id) })

end StoredTable

/-- The tables of a database. -/
structure Store where
  tables : List StoredTable
  deriving DecidableEq

namespace Store

/-- A store without tables. -/
def empty : Store where
  tables := []

/-- The table of a name, if there is one. -/
def find? (s : Store) (name : String) : Option StoredTable :=
  s.tables.find? (·.key == StoredTable.keyOf name)

/-- The table of a name. -/
def get (s : Store) (name : String) : Result StoredTable :=
  match s.find? name with
  | some table => .ok table
  | none => .error (.tableNotFound name)

/-- The store with one table changed.  The change keeps the table's key. -/
def replace (s : Store) (table : StoredTable) : Store where
  tables := s.tables.map fun other => if other.key = table.key then table else other

/-- The first column whose name, in lower case, was used before. -/
def duplicateColumn? (seen : List String) : List Column → Option Column
  | [] => none
  | column :: rest =>
    let name := Text.lowercase column.name
    if seen.contains name then some column else duplicateColumn? (name :: seen) rest

/-- Goes to the table of a name, and puts what becomes of the table in its place. -/
def inTable {α : Type} (s : Store) (name : String)
    (step : StoredTable → Result α × StoredTable) : Result α × Store :=
  match s.get name with
  | .error error => (.error error, s)
  | .ok table =>
    match step table with
    | (answer, changed) => (answer, s.replace changed)

/-- Tries to add a table without rows. -/
def tryAddTable (s : Store) (definition : TableSchema) : Result Unit × Store :=
  if (s.find? definition.name).isSome then
    (.error (.invalidStorage (.tableExists definition.name)), s)
  else if definition.columns.isEmpty then
    (.error (.invalidStorage (.noColumns definition.name)), s)
  else
    match duplicateColumn? [] definition.columns with
    | some column => (.error (.invalidStorage (.duplicateColumn column.name)), s)
    | none => (.ok (), ⟨s.tables ++ [{ definition, rows := [], nextId := 1 }]⟩)

/-- Adds a table without rows. -/
def addTable (s : Store) (definition : TableSchema) : Result Store :=
  (Result.settled (s.tryAddTable definition)).map Prod.snd

/-- Tries to remove a table with its rows. -/
def tryRemoveTable (s : Store) (name : String) : Result Unit × Store :=
  (if (s.find? name).isSome then .ok () else .error (.tableNotFound name),
    ⟨s.tables.filter fun table => table.key != StoredTable.keyOf name⟩)

/-- Removes a table with its rows. -/
def removeTable (s : Store) (name : String) : Result Store :=
  (Result.settled (s.tryRemoveTable name)).map Prod.snd

/-- The definition of a table. -/
def schemaOf? (s : Store) (name : String) : Option TableSchema :=
  (s.find? name).map StoredTable.definition

/-- The definitions of all tables, in the order of their names. -/
def schemas (s : Store) : List TableSchema :=
  (s.tables.map StoredTable.definition).mergeSort fun a b =>
    compare a.name.toList b.name.toList != .gt

/-- Tries to store a row, and gives its id. -/
def tryAddRow (s : Store) (table : String) (values : Row) : Result Nat × Store :=
  s.inTable table fun found => found.tryInsert values

/-- Stores a row, and gives its id. -/
def addRow (s : Store) (table : String) (values : Row) : Result (Nat × Store) :=
  Result.settled (s.tryAddRow table values)

/-- Tries to remove a row. -/
def tryRemoveRow (s : Store) (table : String) (id : Nat) : Result Unit × Store :=
  s.inTable table fun found => found.tryRemove table id

/-- Removes a row. -/
def removeRow (s : Store) (table : String) (id : Nat) : Result Store :=
  (Result.settled (s.tryRemoveRow table id)).map Prod.snd

/-- How many rows a table has. -/
def countRows (s : Store) (table : String) : Result Nat :=
  (s.get table).map (·.rows.length)

end Store

end RelQuery
