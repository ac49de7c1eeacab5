import RelQuery.Deadline.Watch
import RelQuery.Engine.Plan

/-!
# Candidate rows of the tables

Every table is cut down before the join: to the rows that WHERE does not rule out, and to the
columns that WHERE and the join conditions read.  A table that an outer join may pad keeps all its
rows, since dropping one early would turn a matched row into a padded one.
-/

namespace RelQuery.Plan

/-- The expressions that are evaluated on joined tuples: WHERE and the join conditions. -/
def conditions (plan : Plan) : List Expr :=
  plan.selection.toList ++ plan.joins.filterMap JoinClause.on

/-- The columns that the rows of a table carry through the join: those that the conditions read, or
the first column if they read none. -/
def carriedColumns (plan : Plan) (table : BoundEntry) : List ColumnRef :=
  let reference := table.referenceName
  let found := Expr.addNew [] (plan.conditions.flatMap fun e => e.columnsOf [reference])
  if found.isEmpty then
    (table.definition.columns.head?.map (ColumnRef.declared table 0)).toList
  else found

/-- The clause may pad the table. -/
def pads (clause : JoinClause) (table : FromEntry) : Bool :=
  match clause.kind with
  | .left => clause.right.same table
  | .right => clause.left.same table
  | .full => clause.left.same table || clause.right.same table
  | .cross | .inner => false

/-- The predicate that may rule out rows of a table before the join. -/
def earlyPredicate (plan : Plan) (table : FromEntry) : Option Expr :=
  if plan.joins.any (pads · table) then none else plan.selection

/-- A table with its candidate rows. -/
def candidatesOf (catalog : Catalog) (plan : Plan) (table : BoundEntry) : Result JoinInput :=
  let columns := plan.carriedColumns table
  ((catalog.survivors table.table columns (plan.earlyPredicate table.table)).inPlace
    (.table table.table)).map fun rows => ⟨table.table, columns, rows⟩

/-- All tables with their candidate rows. -/
def candidates (catalog : Catalog) (watch : Watch) (plan : Plan) : Result (List JoinInput) :=
  plan.tables.zipIdx.mapM fun (table, index) => do
    let found ← plan.candidatesOf catalog table
    watch.poll (.filtered index)
    return found

end RelQuery.Plan
