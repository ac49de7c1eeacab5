import RelQuery.Join.Input
import RelQuery.Store.Basic

/-!
# Catalogs

A catalog is what the engine knows of stored rows: the definition of a table, the rows of a table
that a predicate does not rule out, cut down to some columns, and the full row behind an id.  Every
store is a catalog.
-/

namespace RelQuery

/-- Access to tables and their rows. -/
structure Catalog where
  /-- The definition of the table that an entry names. -/
  definition : FromEntry → Result TableSchema
  /-- The rows that a predicate does not rule out, each with the values of the given columns. -/
  survivors : FromEntry → List ColumnRef → Option Expr → Result (List Candidate)
  /-- The stored row of an id. -/
  rowBehind : FromEntry → Nat → Result StoredRow

namespace Store

/-- The rows of a table under a reference name, in the order of their ids. -/
def scan (s : Store) (table : FromEntry) : Result (List StoredRow) :=
  (s.get table.name).map fun found =>
    found.rows.map fun row => ⟨table.referenceName, row.1, row.2⟩

/-- The predicate does not rule the row out: it is TRUE on it or needs other tables. -/
def survives (predicate : Expr) (row : StoredRow) : Result Bool :=
  match predicate.evaluate .prefilter [.stored row] with
  | .error error => .error error
  | .ok (.determined value) => value.isTrue
  | .ok .undetermined => .ok true

/-- The values of some columns of a row. -/
def cut (columns : List ColumnRef) (row : StoredRow) : Result Candidate :=
  (columns.mapM row.valueOf).map fun values => ⟨row.id, values⟩

/-- The rows of a list that a predicate does not rule out, cut to some columns. -/
def candidates (columns : List ColumnRef) (predicate : Option Expr) :
    List StoredRow → Result (List Candidate)
  | [] => .ok []
  | row :: rest => do
    let kept ← match predicate with
      | some predicate => survives predicate row
      | none => .ok true
    if kept then
      let first ← cut columns row
      let others ← candidates columns predicate rest
      return first :: others
    else candidates columns predicate rest

/-- The rows of a table that a predicate does not rule out, cut to some columns. -/
def survivors (s : Store) (table : FromEntry) (columns : List ColumnRef)
    (predicate : Option Expr) : Result (List Candidate) :=
  (s.scan table).bind (candidates columns predicate)

/-- The stored row of an id. -/
def rowBehind (s : Store) (table : FromEntry) (id : Nat) : Result StoredRow := do
  let found ← s.get table.name
  match found.row? id with
  | some values => return ⟨table.referenceName, id, values⟩
  | none => .error (.fault (.vanishedRow id table.name))

/-- The store as a catalog. -/
def catalog (s : Store) : Catalog where
  definition table := (s.get table.name).map StoredTable.definition
  survivors := s.survivors
  rowBehind := s.rowBehind

end Store

end RelQuery
