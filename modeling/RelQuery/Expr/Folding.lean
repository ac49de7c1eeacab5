import RelQuery.Value.Convert
import RelQuery.Value.Operation

/-!
# Constant folding

Operations on literals are replaced by the literal of their result, from the leaves up.  Aggregates
are kept as they are, and an operation that fails makes the folding fail.
-/

namespace RelQuery.Expr

/-- An operation on folded operands. -/
def foldBinary (op : BinaryOp) (left right : Expr) (label : Option String) : Result Expr :=
  match left.literal?, right.literal? with
  | some l, some r => (Value.applyOp op l r).map fun value => literal value label
  | _, _ => .ok (binary op left right label)

/-- The negation of a folded operand. -/
def foldNegate (operand : Expr) (label : Option String) : Result Expr :=
  match operand.literal? with
  | some value => value.negate.map fun value => literal value label
  | none => .ok (negate operand label)

/-- A function of a folded argument. -/
def foldCall (f : Function) (arg : Expr) (label : Option String) : Result Expr :=
  match f.target?, arg.literal? with
  | some target, some value => (value.convert target).map fun value => literal value label
  | _, _ => .ok (call f arg label)

/-- The expression with its constant parts folded. -/
def foldConstants : Expr → Result Expr
  | literal value label => .ok (literal value label)
  | column ref label => .ok (column ref label)
  | binary op left right label =>
    match left.foldConstants with
    | .error error => .error error
    | .ok left =>
      match right.foldConstants with
      | .error error => .error error
      | .ok right => foldBinary op left right label
  | negate operand label =>
    match operand.foldConstants with
    | .error error => .error error
    | .ok operand => foldNegate operand label
  | call f arg label =>
    match arg.foldConstants with
    | .error error => .error error
    | .ok arg => foldCall f arg label
  | bareCall f label => .ok (bareCall f label)

end RelQuery.Expr
