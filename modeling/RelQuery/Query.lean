import RelQuery.Projection

/-!
# Queries

A query is a fully bound SELECT: its tables, output expressions and clauses.
-/

namespace RelQuery

/-- A declared join of two FROM-list entries. -/
structure JoinClause where
  left : FromEntry
  right : FromEntry
  kind : JoinKind
  on : Option Expr
  deriving DecidableEq

namespace JoinClause

/-- The same join with its sides exchanged. -/
def turned (clause : JoinClause) : JoinClause where
  left := clause.right
  right := clause.left
  kind := clause.kind.reversed
  on := clause.on

@[simp] theorem turned_turned (clause : JoinClause) : clause.turned.turned = clause := by
  simp [turned]

end JoinClause

/-- A sort expression with its direction. -/
structure SortTerm where
  expr : Expr
  ascending : Bool
  deriving DecidableEq

/-- A SELECT. -/
structure Query where
  tables : List FromEntry
  projection : Projection
  distinct : Bool
  /-- The WHERE predicate. -/
  selection : Option Expr
  groupBy : List Expr
  having : Option Expr
  orderBy : List SortTerm
  joins : List JoinClause
  deriving DecidableEq

/-- The query groups its rows: it has GROUP BY, HAVING or an aggregate among its members. -/
def Query.needsGrouping (query : Query) : Bool :=
  !query.groupBy.isEmpty || query.having.isSome || query.projection.hasAggregate

end RelQuery
