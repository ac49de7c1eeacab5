import RelQuery.Row
import RelQuery.Value.Convert
import RelQuery.Value.Operation

/-!
# Evaluation

An expression is evaluated against a tuple of rows.  In `full` mode every referenced table must be
in the tuple.  In `prefilter` mode, which looks at one table of a join alone, a column of an absent
table is undetermined.  Undetermined is not NULL: it spreads through every operation, except that
AND and OR are decided by an absorbing operand.

Both operands of an operation are always evaluated, the left one first.
-/

namespace RelQuery

/-- How much of the tuple must be present. -/
inductive Coverage where
  | full
  | prefilter
  deriving DecidableEq

/-- The outcome of an evaluation that did not fail. -/
inductive Outcome where
  | determined (value : Value)
  | undetermined
  deriving DecidableEq

namespace Expr

/-- The row that answers to a table name: the first one of that name. -/
def findRow? (table : String) (rows : List LogicalRow) : Option LogicalRow :=
  rows.find? fun row => Name.same row.tableName table

/-- The value of a column in a tuple. -/
def columnOutcome (mode : Coverage) (rows : List LogicalRow) (column : ColumnRef) :
    Result Outcome :=
  match column.table, column.index with
  | some table, some _ =>
    match findRow? table rows with
    | some row => (row.valueOf column).map .determined
    | none =>
      match mode with
      | .prefilter => .ok .undetermined
      | .full => .error (.columnNotFound column)
  | _, _ => .error (.fault (.unresolvedColumn column))

/-- AND or OR of which one operand is undetermined: only an absorbing operand decides. -/
def decideAlone (op : LogicalOp) (known : Value) : Result Outcome :=
  known.truth?.map fun truth =>
    if truth = some (Value.absorbing op) then .determined known else .undetermined

/-- An operation on the outcomes of its operands. -/
def combine (op : BinaryOp) (left right : Outcome) : Result Outcome :=
  match left, right with
  | .determined l, .determined r => (Value.applyOp op l r).map .determined
  | .determined known, .undetermined | .undetermined, .determined known =>
    match op with
    | .logical op => decideAlone op known
    | _ => .ok .undetermined
  | .undetermined, .undetermined => .ok .undetermined

/-- A function applied to the outcome of its argument.  An aggregate passes it on, since folding is
the work of grouping. -/
def applyFunction (f : Function) : Outcome → Result Outcome
  | .undetermined => .ok .undetermined
  | .determined value =>
    match f with
    | .aggregate _ => .ok (.determined value)
    | .conversion target => (value.convert target).map .determined

/-- A function without argument: `COUNT()` outside grouping is NULL. -/
def applyBare (f : Function) : Result Outcome :=
  if f.mayBeBare then .ok (.determined .null) else .error (.meaningless (.missingArgument f))

/-- The outcome of the expression on a tuple of rows. -/
def evaluate (mode : Coverage) (rows : List LogicalRow) : Expr → Result Outcome
  | literal value _ => .ok (.determined value)
  | column ref _ => columnOutcome mode rows ref
  | binary op left right _ =>
    match left.evaluate mode rows with
    | .error error => .error error
    | .ok leftOutcome =>
      match right.evaluate mode rows with
      | .error error => .error error
      | .ok rightOutcome => combine op leftOutcome rightOutcome
  | negate operand _ =>
    match operand.evaluate mode rows with
    | .error error => .error error
    | .ok .undetermined => .ok .undetermined
    | .ok (.determined value) => value.negate.map .determined
  | call f arg _ =>
    match arg.evaluate mode rows with
    | .error error => .error error
    | .ok outcome => applyFunction f outcome
  | bareCall f _ => applyBare f

end Expr

end RelQuery
