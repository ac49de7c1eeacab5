import RelQuery.Projection

/-!
# HAVING

A HAVING predicate is turned into one that reads grouped rows only: an aggregate call becomes a
reference to the member that computes it, which is added hidden where there is none, and any other
part that agrees with a member becomes a reference to it.  A column that is left over is not
grouped.
-/

namespace RelQuery

namespace Projection

/-- A reference to the position that computes the expression. -/
def reference (position : Nat) (e : Expr) : Expr :=
  .column (.toProjection position e.outputName) none

/-- A reference to a new hidden member. -/
def referToHidden (p : Projection) (e : Expr) : Result Expr × Projection :=
  (.ok (reference p.length e), p.appendHidden e)

end Projection

/-- The predicate over grouped rows, with the projection that computes what it reads.  Members added
before a failure stay. -/
def groupedPredicate (having : Expr) (p : Projection) : Result Expr × Projection :=
  match p.agreeing? having with
  | some position => (.ok (Projection.reference position having), p)
  | none =>
    match having with
    | .literal .. => (.ok having, p)
    | .column ref _ => (.error (.ungroupedColumn ref.render), p)
    | .bareCall f _ => if f.isAggregate then p.referToHidden having else (.ok having, p)
    | .call f arg label =>
      if f.isAggregate then
        if arg.hasAggregate then (.error (.invalidAggregate (.nested having)), p)
        else p.referToHidden having
      else
        match groupedPredicate arg p with
        | (.error error, p) => (.error error, p)
        | (.ok arg, p) => (.ok (.call f arg label), p)
    | .negate operand label =>
      match groupedPredicate operand p with
      | (.error error, p) => (.error error, p)
      | (.ok operand, p) => (.ok (.negate operand label), p)
    | .binary op left right label =>
      match groupedPredicate left p with
      | (.error error, p) => (.error error, p)
      | (.ok left, p) =>
        match groupedPredicate right p with
        | (.error error, p) => (.error error, p)
        | (.ok right, p) => (.ok (.binary op left right label), p)

/-- The predicate over grouped rows accepts a row. -/
def acceptsGroup (predicate : Expr) (row : Row) (position : Nat) : Result Bool :=
  match predicate.evaluate .full [.projected position row] with
  | .error error => .error error
  | .ok (.determined value) => value.isTrue
  | .ok .undetermined => .error (.fault (.undecidedHaving predicate))

/-- The grouped rows, from the given position on, that the predicate accepts. -/
def keepGroupsFrom (predicate : Expr) (position : Nat) : List Row → Result (List Row)
  | [] => .ok []
  | row :: rest =>
    match acceptsGroup predicate row position with
    | .error error => .error error
    | .ok kept =>
      (keepGroupsFrom predicate (position + 1) rest).map fun others =>
        if kept then row :: others else others

/-- The grouped rows that the predicate accepts. -/
def keepGroups (predicate : Expr) (rows : List Row) : Result (List Row) :=
  keepGroupsFrom predicate 0 rows

/-- The rows cut back to the visible members. -/
def cutToVisible (projection : Projection) (rows : List Row) : List Row :=
  rows.map (·.take projection.visible.length)

end RelQuery
