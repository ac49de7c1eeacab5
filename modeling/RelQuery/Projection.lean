import RelQuery.Expr.Evaluate
import RelQuery.Expr.Resolve

/-!
# Projections

A projection is the list of output expressions of a query.  Hidden members follow the visible ones:
they carry values that grouping, HAVING or ORDER BY need and are cut off before the result is
returned.
-/

namespace RelQuery

/-- The output expressions of a query. -/
structure Projection where
  visible : List Expr
  hidden : List Expr
  deriving DecidableEq

namespace Projection

/-- All members, visible ones first. -/
def members (p : Projection) : List Expr :=
  p.visible ++ p.hidden

/-- The number of members. -/
def length (p : Projection) : Nat :=
  p.visible.length + p.hidden.length

/-- There is no member at all. -/
def isEmpty (p : Projection) : Bool :=
  p.length == 0

/-- The member at a position. -/
def get? (p : Projection) (index : Nat) : Option Expr :=
  p.members[index]?

/-- Appends a visible member. -/
def push (p : Projection) (e : Expr) : Projection :=
  { p with visible := p.visible ++ [e] }

/-- Appends a hidden member.  Its position is the former length. -/
def appendHidden (p : Projection) (e : Expr) : Projection :=
  { p with hidden := p.hidden ++ [e] }

/-- The projection without its hidden members. -/
def dropHidden (p : Projection) : Projection :=
  { p with hidden := [] }

/-- Some member holds an aggregate. -/
def hasAggregate (p : Projection) : Bool :=
  p.members.any Expr.hasAggregate

/-- The aggregate computed at each position, if any. -/
def aggregates (p : Projection) : List (Option Aggregate) :=
  p.members.map Expr.aggregate?

/-- The names of the output columns. -/
def outputNames (p : Projection) : List String :=
  p.visible.map Expr.outputName

/-- Looks for a visible member of the given name from `position` on, after `first` was found. -/
def namedPositionFrom (name : String) (first : Option (Nat × Expr)) (position : Nat) :
    List Expr → Result (Option Nat)
  | [] => .ok (first.map Prod.fst)
  | e :: rest =>
    if Name.same e.outputName name then
      match first with
      | none => namedPositionFrom name (some (position, e)) (position + 1) rest
      | some (_, found) =>
        if found.agrees e then namedPositionFrom name first (position + 1) rest
        else .error (.ambiguousColumn name)
    else namedPositionFrom name first (position + 1) rest

/-- The first visible member of the given name.  Members that share it must agree. -/
def namedPosition (p : Projection) (name : String) : Result (Option Nat) :=
  namedPositionFrom name none 0 p.visible

/-- The first member that computes the same as the expression. -/
def agreeing? (p : Projection) (e : Expr) : Option Nat :=
  p.members.findIdx? (·.agrees e)

/-- The position of a member that computes the expression, with the projection in which it has it:
where no member does, a hidden one is added. -/
def positionOf (p : Projection) (e : Expr) : Nat × Projection :=
  match p.agreeing? e with
  | some position => (position, p)
  | none => (p.length, p.appendHidden e)

/-- The members resolved in their order. -/
def resolveList (tables : List BoundEntry) : List Expr → Resolution (List Expr)
  | [] => .ok []
  | e :: rest =>
    match e.resolve tables with
    | .error (error, e) => .error (error, e :: rest)
    | .ok e => (resolveList tables rest).put (e :: ·)

/-- The projection with its columns resolved. -/
def resolve (tables : List BoundEntry) (p : Projection) : Resolution Projection :=
  match resolveList tables p.visible with
  | .error (error, visible) => .error (error, { p with visible })
  | .ok visible => (resolveList tables p.hidden).put fun hidden => { visible, hidden }

/-- The value of one member, which must be determined. -/
def evaluateMember (mode : Coverage) (rows : List LogicalRow) (e : Expr) : Result Value :=
  match e.evaluate mode rows with
  | .error error => .error error
  | .ok (.determined value) => .ok value
  | .ok .undetermined => .error (.memberNotInRow e)

/-- The values of all members on a tuple of rows. -/
def evaluate (p : Projection) (mode : Coverage) (rows : List LogicalRow) : Result Row :=
  p.members.mapM (evaluateMember mode rows)

@[simp] theorem length_members (p : Projection) : p.members.length = p.length := by
  simp [members, length]

theorem length_aggregates (p : Projection) : p.aggregates.length = p.length := by
  rw [aggregates, List.length_map, length_members]

@[simp] theorem members_appendHidden (p : Projection) (e : Expr) :
    (p.appendHidden e).members = p.members ++ [e] := by
  simp [members, appendHidden]

@[simp] theorem visible_appendHidden (p : Projection) (e : Expr) :
    (p.appendHidden e).visible = p.visible := rfl

end Projection

end RelQuery
