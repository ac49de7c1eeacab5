import RelQuery.Engine.Candidates
import RelQuery.Engine.Distinct
import RelQuery.Group.Fold
import RelQuery.Join.Walk
import RelQuery.Lock.Guard

/-!
# Running queries

A query is checked, its tables are locked, and its plan is carried out: the tables are cut down to
candidates and joined, WHERE is applied to the joined tuples, the members are computed from the
stored rows, and then come grouping, HAVING, ORDER BY and DISTINCT.  Whatever the outcome, the locks
are given back.
-/

namespace RelQuery

/-- The answer to a query. -/
structure Answer where
  columns : List String
  rows : List Row
  deriving DecidableEq

/-- The rows of an answer as texts. -/
def Answer.texts (result : Answer) : List (List String) :=
  result.rows.map (·.map Value.render)

namespace Plan

/-- Joins the candidates.  With one table alone WHERE was already applied. -/
def joinCandidates (plan : Plan) (watch : Watch) (interval : Nat) (tables : List JoinInput) :
    Result JoinedTuples := do
  let output ← joinTables tables watch interval plan.joins
  let output ← match plan.selection with
    | some predicate =>
      if 1 < tables.length then (output.keepAccepted tables predicate).result else .ok output
    | none => .ok output
  watch.poll .joined
  return output

/-- The stored row behind a slot, or the padding of an empty one. -/
def fetch (catalog : Catalog) (table : JoinInput) : Option Nat → Result LogicalRow
  | none => .ok (.padding table.referenceName)
  | some index =>
    match table.rows[index]? with
    | none => .error (.fault .tuplePastTable)
    | some row =>
      ((catalog.rowBehind table.table row.id).inPlace (.table table.table)).map .stored

/-- The stored rows behind a tuple. -/
def fetchTuple (catalog : Catalog) (tables : List JoinInput) (order : List Nat)
    (tuple : Tuple) : Result (List LogicalRow) :=
  (order.zip tuple).mapM fun slot => fetch catalog (JoinInput.atPosition tables slot.1) slot.2

/-- The members of the projection on every joined tuple. -/
def memberRows (catalog : Catalog) (watch : Watch) (interval : Nat) (plan : Plan)
    (tables : List JoinInput) (output : JoinedTuples) : Result (List Row) :=
  (output.tuples.zipIdx 1).mapM fun (tuple, count) => do
    watch.pollEvery interval count (.projected count)
    let rows ← fetchTuple catalog tables output.order tuple
    plan.projection.evaluate .prefilter rows

/-- The rows after grouping and HAVING. -/
def group (plan : Plan) (watch : Watch) (rows : List Row) : Result (List Row) :=
  if plan.grouped then do
    let grouped ← foldByKeys plan.projection plan.keys watch rows
    match plan.having with
    | some predicate => keepGroups predicate grouped
    | none => return grouped
  else .ok rows

/-- The rows in the order of ORDER BY, cut to the visible members, and distinct if asked for. -/
def arrange (plan : Plan) (rows : List Row) : Result (List Row) :=
  let sorted := if plan.sortKeys.isEmpty then rows else OrderKey.sortRows plan.sortKeys rows
  let visible := cutToVisible plan.projection sorted
  if plan.distinct then distinctRows visible else .ok visible

/-- Carries the plan out. -/
def run (catalog : Catalog) (watch : Watch) (interval : Nat) (plan : Plan) : Result Answer := do
  watch.poll .resolved
  let tables ← plan.candidates catalog watch
  let output ← plan.joinCandidates watch interval tables
  let rows ← plan.memberRows catalog watch interval tables output
  let rows ← plan.group watch rows
  let rows ← plan.arrange rows
  watch.poll .finished
  return { columns := plan.projection.outputNames, rows }

end Plan

namespace Query

/-- Answers the query while its tables are locked. -/
def answer (catalog : Catalog) (watch : Watch) (interval : Nat) (query : Query) :
    Result Answer :=
  (query.plan catalog).bind (Plan.run catalog watch interval)

/-- Answers the query for a session, with the locks as they are afterwards. -/
def execute (catalog : Catalog) (watch : Watch) (interval session : Nat) (query : Query)
    (locks : LockTable) : Result Answer × LockTable :=
  match query.checkEntries with
  | .error error => (.error error, locks)
  | .ok () =>
    match LockGuard.take session (query.tables.map FromEntry.name) locks with
    | (.error error, locks) => (.error error, locks)
    | (.ok guard, locks) => (query.answer catalog watch interval, guard.giveBack locks)

end Query

end RelQuery
