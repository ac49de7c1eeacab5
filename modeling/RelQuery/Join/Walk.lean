import RelQuery.Join.Step

/-!
# The join walk

Tables are joined one at a time, starting from the smallest.  Each step takes the first declared
clause that connects a joined table with one that is not joined yet, turned so that the joined side
is on its left.  Clauses that are left when all tables are joined close a cycle: they filter the
tuples, and may not be outer.
-/

namespace RelQuery

/-- A declared clause with the positions of its two tables. -/
structure PendingJoin where
  left : Nat
  right : Nat
  clause : JoinClause
  deriving DecidableEq

namespace PendingJoin

/-- The clause with the positions of its tables. -/
def ofClause (tables : List JoinInput) (clause : JoinClause) : Result PendingJoin := do
  let left ← JoinInput.indexOf tables clause.left
  let right ← JoinInput.indexOf tables clause.right
  return ⟨left, right, clause⟩

/-- Exactly one of the two tables is joined. -/
def reaches (order : List Nat) (pending : PendingJoin) : Bool :=
  order.contains pending.left != order.contains pending.right

/-- The table that the clause brings in, and the clause with the joined side on its left. -/
def oriented (order : List Nat) (pending : PendingJoin) : Nat × JoinClause :=
  if order.contains pending.left then (pending.right, pending.clause)
  else (pending.left, pending.clause.turned)

end PendingJoin

/-- The reference names of the tables that are not joined. -/
def unjoined (tables : List JoinInput) (order : List Nat) : List String :=
  ((List.range tables.length).filter fun position => !order.contains position).map fun position =>
    (JoinInput.atPosition tables position).referenceName

/-- The tuples after one more table is brought in by an oriented clause. -/
def joinStep (tables : List JoinInput) (watch : Watch) (interval : Nat) (newTable : Nat)
    (clause : JoinClause) (output : JoinedTuples) : Result (List Tuple) :=
  match clause.kind with
  | .cross => crossStep tables watch interval output.order newTable clause.on output.tuples
  | kind =>
    match clause.on with
    | none => .error (.missingJoinCondition kind)
    | some on => do
      let key ← EqualityKey.ofCondition tables output.order newTable on
      matchStep tables watch interval kind output.order.length newTable key output.tuples

/-- Brings in as many tables as remain. -/
def walk (tables : List JoinInput) (watch : Watch) (interval : Nat) :
    (remaining : Nat) → List PendingJoin → JoinedTuples → Result (List PendingJoin × JoinedTuples)
  | 0, pool, output => .ok (pool, output)
  | remaining + 1, pool, output => do
    watch.poll (.joinStep output.order.length)
    match pool.find? (·.reaches output.order) with
    | none => .error (.fault (.disconnected (unjoined tables output.order)))
    | some pending =>
      let (newTable, clause) := pending.oriented output.order
      let tuples ← joinStep tables watch interval newTable clause output
      walk tables watch interval remaining (pool.eraseP (·.reaches output.order))
        ⟨output.order ++ [newTable], tuples⟩

/-- The tuples that a clause between joined tables keeps. -/
def closeCycle (tables : List JoinInput) (order : List Nat) (tuples : List Tuple)
    (clause : JoinClause) : Result (List Tuple) :=
  if clause.kind.isOuter then
    .error (.unsupportedJoin (.cycle clause.kind clause.left clause.right))
  else
    match clause.on with
    | some on => filterResult (JoinInput.acceptsTuple tables order on) tuples
    | none =>
      if clause.kind = .cross then .ok tuples else .error (.missingJoinCondition clause.kind)

/-- The tuples of the table that the walk starts from. -/
def startOutput (tables : List JoinInput) (start : Nat) : JoinedTuples where
  order := [start]
  tuples :=
    (List.range (JoinInput.atPosition tables start).rows.length).map fun index => [some index]

/-- Joins the tables by the clauses. -/
def joinTables (tables : List JoinInput) (watch : Watch) (interval : Nat)
    (clauses : List JoinClause) : Result JoinedTuples :=
  match JoinInput.smallest? tables with
  | none => .error (.fault .nothingToJoin)
  | some start => do
    let pool ← clauses.mapM (PendingJoin.ofClause tables)
    let (leftover, output) ←
      walk tables watch interval (tables.length - 1) pool (startOutput tables start)
    let tuples ← leftover.foldlM
      (fun tuples pending => closeCycle tables output.order tuples pending.clause) output.tuples
    return { output with tuples }

end RelQuery
