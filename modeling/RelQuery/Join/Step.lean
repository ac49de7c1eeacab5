import RelQuery.Deadline.Watch
import RelQuery.Join.Boundary
import RelQuery.Join.Input
import RelQuery.Value.Compare

/-!
# Join steps

A join step brings one more table into the tuples.  A cross step pairs every tuple with every row
and keeps the pairs that the condition accepts.  A match step finds equal keys: the rows of the new
table are sorted by key, and the partners of a tuple are the run of rows that starts at the boundary
of the keys less than the tuple's and ends before the first key that is not equal to it.  NULL keys
have no partner.
-/

namespace RelQuery

/-- The columns whose equality a match step requires. -/
structure EqualityKey where
  /-- The slot of the joined table in the tuples. -/
  slot : Nat
  /-- The position of the joined table. -/
  existing : Nat
  /-- Where the rows of the joined table carry its column. -/
  existingColumn : Nat
  /-- Where the rows of the new table carry its column. -/
  newColumn : Nat
  deriving DecidableEq

namespace EqualityKey

/-- The types of two key columns can be compared: they are equal, or both are numeric. -/
def checkTypes (left right : ColumnRef) : Result Unit :=
  match left.columnType, right.columnType with
  | some l, some r =>
    if l ≠ r && !(l.isNumeric && r.isNumeric) then
      .error (.typeMismatch (.joinKeys left right l r))
    else .ok ()
  | _, _ => .ok ()

/-- The two columns that the condition equates, that of the named table first. -/
def sides? (name : String) : Expr → Option (ColumnRef × ColumnRef)
  | .binary (.comparison .eq) (.column left _) (.column right _) _ =>
    if left.qualifiedBy name then some (left, right)
    else if right.qualifiedBy name then some (right, left)
    else none
  | _ => none

/-- The key of a condition that equates a column of the new table with one of a joined table. -/
def ofCondition (tables : List JoinInput) (order : List Nat) (newTable : Nat) (on : Expr) :
    Result EqualityKey :=
  let table := JoinInput.atPosition tables newTable
  match sides? table.referenceName on with
  | none => .error (.unsupportedJoin (.condition on))
  | some (newColumn, existingColumn) =>
    let belongs := fun position =>
      existingColumn.qualifiedBy (JoinInput.atPosition tables position).referenceName
    match order.findIdx? belongs with
    | none => .error (.unsupportedJoin (.condition on))
    | some slot => do
      checkTypes newColumn existingColumn
      let existing := order.getD slot 0
      let existingPosition ←
        (JoinInput.atPosition tables existing).placeOf existingColumn
      let newPosition ← table.placeOf newColumn
      return ⟨slot, existing, existingPosition, newPosition⟩

/-- The key value of a tuple, none where the tuple has padding. -/
def probe (tables : List JoinInput) (key : EqualityKey) (tuple : Tuple) :
    Result (Option Value) :=
  match tuple[key.slot]? with
  | none => .error (.fault .shortTuple)
  | some none => .ok none
  | some (some index) => do
    let row ← (JoinInput.atPosition tables key.existing).row index
    return some (← row.valueAt key.existingColumn)

end EqualityKey

/-! ### Match steps -/

/-- The key of one row with the row's position. -/
def keyedRow (t : JoinInput) (column : Nat) (row : Candidate × Nat) : Result (Value × Nat) :=
  match row.1.values[column]? with
  | some value => .ok (value, row.2)
  | none => .error (.fault (.keyMissing t.referenceName))

/-- The keys other than NULL, sorted. -/
def sortKeys (keys : List (Value × Nat)) : List (Value × Nat) :=
  stableSort (fun a b => a.1.sortOrder b.1) (keys.filter fun key => !key.1.isNull)

/-- The keys of a table's rows other than NULL, sorted, each with the position of its row. -/
def sortedKeys (t : JoinInput) (column : Nat) : Result (List (Value × Nat)) :=
  (t.rows.zipIdx.mapM (keyedRow t column)).map sortKeys

/-- The positions of the rows at the start of the list whose key equals the probe. -/
def equalRun (probe : Value) : List (Value × Nat) → Result (List Nat)
  | [] => .ok []
  | (value, index) :: rest =>
    match probe.compare? value with
    | .error error => .error error
    | .ok (some .eq) => (equalRun probe rest).map (index :: ·)
    | .ok _ => .ok []

/-- The positions of the rows whose key equals the probe. -/
def partners (sorted : List (Value × Nat)) : Option Value → Result (List Nat)
  | none => .ok []
  | some probe =>
    if probe.isNull then .ok []
    else
      let start := boundary (fun (key : Value × Nat) => key.1.sortOrder probe == .lt) sorted
      equalRun probe (sorted.drop start)

/-- A tuple with each of its partners, or with padding where it has none and is kept. -/
def extend (kind : JoinKind) (tuple : Tuple) (found : List Nat) : List Tuple :=
  if found.isEmpty && kind.keepsLeft then [tuple ++ [none]]
  else found.map fun index => tuple ++ [some index]

/-- The new rows that no tuple found, each after padding for all the joined tables. -/
def unmatched (width rows : Nat) (found : List (List Nat)) : List Tuple :=
  ((List.range rows).filter fun index => !found.any (·.contains index)).map fun index =>
    List.replicate width none ++ [some index]

/-- The partners of every tuple. -/
def allPartners (tables : List JoinInput) (watch : Watch) (interval width : Nat) (key : EqualityKey)
    (sorted : List (Value × Nat)) (tuples : List Tuple) : Result (List (List Nat)) :=
  (tuples.zipIdx 1).mapM fun (tuple, count) => do
    watch.pollEvery interval count (.probed width count)
    partners sorted (← key.probe tables tuple)

/-- A match step.  The joined tables are on the left of the join. -/
def matchStep (tables : List JoinInput) (watch : Watch) (interval : Nat) (kind : JoinKind)
    (width newTable : Nat) (key : EqualityKey) (tuples : List Tuple) :
    Result (List Tuple) := do
  let table := JoinInput.atPosition tables newTable
  let sorted ← sortedKeys table key.newColumn
  let found ← allPartners tables watch interval width key sorted tuples
  let joined := (tuples.zip found).flatMap fun (tuple, partners) => extend kind tuple partners
  return joined ++ if kind.keepsRight then unmatched width table.rows.length found else []

/-! ### Cross steps -/

/-- Every tuple with every one of so many rows. -/
def allPairs (tuples : List Tuple) (rows : Nat) : List Tuple :=
  tuples.flatMap fun tuple => (List.range rows).map fun index => tuple ++ [some index]

/-- The pair passes, where no condition lets every pair pass. -/
def passesOn (tables : List JoinInput) (order : List Nat) (on : Option Expr) (tuple : Tuple) :
    Result Bool :=
  match on with
  | some on => JoinInput.acceptsTuple tables order on tuple
  | none => .ok true

/-- A cross step. -/
def crossStep (tables : List JoinInput) (watch : Watch) (interval : Nat) (order : List Nat)
    (newTable : Nat) (on : Option Expr) (tuples : List Tuple) : Result (List Tuple) := do
  let width := order.length
  watch.poll (.crossStarted width)
  let pairs := allPairs tuples (JoinInput.atPosition tables newTable).rows.length
  let kept ← filterResult (fun (pair : Tuple × Nat) => do
      watch.pollEvery interval pair.2 (.paired width pair.2)
      passesOn tables (order ++ [newTable]) on pair.1) (pairs.zipIdx 1)
  return kept.map Prod.fst

end RelQuery
