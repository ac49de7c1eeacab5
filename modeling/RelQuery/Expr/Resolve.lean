import RelQuery.Error

/-!
# Column resolution

A written column is resolved against the tables of a query: exactly one table that its qualifier
allows must have a column of its name.  The resolved reference carries that table's reference name
and the column's declared name, type and position.

A tree is resolved in place from left to right.  Where that fails, the columns before the failure
are already resolved, so a failure comes with the tree as it was left.
-/

namespace RelQuery

/-- The outcome of a change in place: what was changed, also after a failure. -/
abbrev Resolution (α : Type) := Except (Error × α) α

namespace Resolution

/-- What was changed. -/
def changed {α : Type} : Resolution α → α
  | .ok result => result
  | .error (_, result) => result

/-- The result without what a failure left behind. -/
def result {α : Type} (resolution : Resolution α) : Result α :=
  resolution.mapError Prod.fst

/-- The outcome with the changed part put back in its place. -/
def put {α β : Type} (place : α → β) : Resolution α → Resolution β
  | .ok part => .ok (place part)
  | .error (error, part) => .error (error, place part)

end Resolution

namespace ColumnRef

/-- The qualifier allows the table. -/
def allows (column : ColumnRef) (table : BoundEntry) : Bool :=
  column.table.all table.answersTo

/-- The tables that have the column, with its position in each. -/
def owners (column : ColumnRef) (tables : List BoundEntry) : List (BoundEntry × Nat) :=
  (tables.filter column.allows).filterMap fun table =>
    (table.definition.indexOf? column.name).map fun index => (table, index)

/-- The reference to a declared column of a table. -/
def declared (table : BoundEntry) (index : Nat) (column : Column) : ColumnRef where
  name := column.name
  table := some table.referenceName
  columnType := some column.columnType
  index := some index

/-- The resolved reference. -/
def resolve (tables : List BoundEntry) (column : ColumnRef) : Result ColumnRef :=
  match column.owners tables with
  | [] => .error (.columnNotFound column)
  | [(table, index)] =>
    match table.definition.columns[index]? with
    | some definition => .ok (declared table index definition)
    | none => .error (.columnNotFound column)
  | _ :: _ :: _ => .error (.ambiguousColumn column.render)

end ColumnRef

namespace Expr

/-- The expression with its columns resolved. -/
def resolve (tables : List BoundEntry) : Expr → Resolution Expr
  | literal value label => .ok (literal value label)
  | column ref label =>
    match ref.resolve tables with
    | .ok resolved => .ok (column resolved label)
    | .error error => .error (error, column ref label)
  | binary op left right label =>
    match left.resolve tables with
    | .error (error, left) => .error (error, binary op left right label)
    | .ok left => (right.resolve tables).put fun right => binary op left right label
  | negate operand label => (operand.resolve tables).put fun operand => negate operand label
  | call f arg label => (arg.resolve tables).put fun arg => call f arg label
  | bareCall f label =>
    if f.mayBeBare then .ok (bareCall f label)
    else .error (.meaningless (.missingArgument f), bareCall f label)

end Expr

end RelQuery
