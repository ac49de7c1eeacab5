import RelQuery.Deadline.Watch
import RelQuery.Projection
import RelQuery.Sorting

/-!
# Grouping

Grouping works on projected rows.  The rows are sorted by the key positions and cut where two
neighbours differ in a key; each run is a group, and without keys all rows are one.  A member that
is an aggregate holds its argument in every row and is folded over the group; every other member
keeps the value of the group's first row.
-/

namespace RelQuery

/-- The state of one member of a group while the rows of the group are read. -/
structure MemberFold where
  /-- The aggregate that the member computes, if it is one. -/
  aggregate : Option Aggregate
  /-- The first value, the sum, or the extreme so far. -/
  value : Value
  /-- How many values were not NULL. -/
  nonNull : Nat
  deriving DecidableEq

namespace MemberFold

/-- The state before the first row. -/
def fresh (aggregate : Option Aggregate) : MemberFold where
  aggregate := aggregate
  value := .null
  nonNull := 0

/-- The value may be summed. -/
def isSummable : Value → Bool
  | .integer _ | .real _ => true
  | _ => false

/-- The sum with one more term, where the sum of no terms is NULL. -/
def addTerm (sum term : Value) : Result Value :=
  if sum.isNull then .ok term else Value.applyOp (.arithmetic .add) sum term

/-- The extreme after one more value: the value itself if it lies on the wanted side. -/
def pickExtreme (wanted : Ordering) (extreme value : Value) : Result Value :=
  if extreme.isNull then .ok value
  else (value.compare? extreme).map fun order => if order = some wanted then value else extreme

/-- The accumulated value after one more value that is not NULL.  An average is summed in double
precision. -/
def accumulate (f : Aggregate) (so : Value) (value : Value) : Result Value :=
  match f with
  | .count => .ok so
  | .sum =>
    if isSummable value then addTerm so value
    else .error (.typeMismatch (.aggregate f value))
  | .avg =>
    if isSummable value then (value.convert .real).bind (addTerm so)
    else .error (.typeMismatch (.aggregate f value))
  | .min => pickExtreme .lt so value
  | .max => pickExtreme .gt so value

/-- The state after one more row, which may be the first. -/
def step (acc : MemberFold) (first : Bool) (value : Value) : Result MemberFold :=
  match acc.aggregate with
  | none => .ok (if first then { acc with value } else acc)
  | some f =>
    if value.isNull then .ok acc
    else (accumulate f acc.value value).map fun value =>
      { acc with value, nonNull := acc.nonNull + 1 }

/-- The state of every member after one more row. -/
def stepRow (first : Bool) : List MemberFold → Row → Result (List MemberFold)
  | acc :: accs, value :: values => do
    let acc ← acc.step first value
    let accs ← stepRow first accs values
    return acc :: accs
  | accs, _ => .ok accs

/-- The number of rows as a value. -/
def countOf (rows : Nat) : Result Value :=
  Value.checked (.count rows) rows

/-- The value of a member after so many rows. -/
def close (rows : Nat) (acc : MemberFold) : Result Value :=
  match acc.aggregate with
  | some .count => countOf rows
  | some .avg =>
    Value.applyOp (.arithmetic .divide) acc.value (.real (Binary64.ofInt acc.nonNull))
  | _ => .ok acc.value

end MemberFold

/-- The one row that stands for a group. -/
def foldGroup (aggregates : List (Option Aggregate)) : List Row → Result Row
  | [] => .ok []
  | first :: rest => do
    let start ← MemberFold.stepRow true (aggregates.map MemberFold.fresh) first
    let accs ← rest.foldlM (MemberFold.stepRow false) start
    accs.mapM (MemberFold.close (rest.length + 1))

/-- The row of a group without rows. -/
def emptyGroup (aggregates : List (Option Aggregate)) : Row :=
  aggregates.map fun f => if f = some .count then .integer 0 else .null

/-- The two rows agree in every key. -/
def agreeOn (keys : List Nat) (a b : Row) : Bool :=
  keys.all fun key => (a.getD key .null).alike (b.getD key .null)

/-- The rows in the order of their keys. -/
def sortByKeys (keys : List Nat) (rows : List Row) : List Row :=
  if keys.isEmpty then rows else OrderKey.sortRows (keys.map fun key => ⟨key, true⟩) rows

/-- The groups of sorted rows, each folded to one row. -/
def foldGroups (watch : Watch) (aggregates : List (Option Aggregate)) (groups : List (List Row)) :
    Result (List Row) :=
  groups.zipIdx.mapM fun (group, index) => do
    let row ← foldGroup aggregates group
    watch.poll (.groupClosed index)
    return row

/-- The rows have one value per member and the keys are positions of members. -/
def checkShape (width : Nat) (keys : List Nat) (rows : List Row) : Result Unit :=
  match rows.find? (·.length != width) with
  | some row => .error (.fault (.groupedWidth row.length width))
  | none => if keys.any (width ≤ ·) then .error (.fault .groupKey) else .ok ()

/-- One row per group, in the order of the keys.  No rows make no group, except that without keys
they make one. -/
def foldByKeys (projection : Projection) (keys : List Nat) (watch : Watch) (rows : List Row) :
    Result (List Row) :=
  let aggregates := projection.aggregates
  if rows.isEmpty then .ok (if keys.isEmpty then [emptyGroup aggregates] else [])
  else do
    checkShape projection.length keys rows
    let sorted := sortByKeys keys rows
    watch.poll .sortedKeys
    foldGroups watch aggregates (sorted.splitBy (agreeOn keys))

end RelQuery
