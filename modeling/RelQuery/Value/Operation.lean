import RelQuery.Value.Arithmetic
import RelQuery.Value.Compare

/-!
# Operations on values

The meaning of every binary operator on two values.  AND and OR are those of three-valued logic,
with NULL as the third truth value.
-/

namespace RelQuery.Value

/-- The truth value of a predicate's result, where none stands for NULL. -/
def truth? : Value → Result (Option Bool)
  | null => .ok none
  | boolean b => .ok (some b)
  | other => .error (.typeMismatch (.notBoolean other))

/-- The result accepts a row: it is TRUE, and neither FALSE nor NULL. -/
def isTrue (value : Value) : Result Bool :=
  value.truth?.map (· == some true)

/-- Two values set side by side as text. -/
def concat : Value → Value → Value
  | null, _ => null
  | _, null => null
  | l, r => text (l.render ++ r.render)

/-- What a comparison makes of an order. -/
def holdsFor (op : ComparisonOp) (order : Ordering) : Bool :=
  match op with
  | .eq => order == .eq
  | .notEq => order != .eq
  | .lt => order == .lt
  | .ltEq => order != .gt
  | .gt => order == .gt
  | .gtEq => order != .lt

/-- The result of a comparison: NULL where there is no order. -/
def comparison (op : ComparisonOp) (l r : Value) : Result Value :=
  (l.compare? r).map fun order? =>
    match order? with
    | some order => boolean (holdsFor op order)
    | none => null

/-- A truth value as a value. -/
def ofTruth : Option Bool → Value
  | some b => boolean b
  | none => null

/-- The truth value that decides an operation alone. -/
def absorbing : LogicalOp → Bool
  | .and => false
  | .or => true

/-- AND and OR: the absorbing operand decides, else both must be known. -/
def connect (op : LogicalOp) (l r : Option Bool) : Option Bool :=
  if l = some (absorbing op) || r = some (absorbing op) then some (absorbing op)
  else if l.isSome && r.isSome then some (!absorbing op)
  else none

/-- A binary operator applied to two values. -/
def applyOp (op : BinaryOp) (l r : Value) : Result Value :=
  match op with
  | .arithmetic op => arithmetic op l r
  | .concat => .ok (concat l r)
  | .comparison op => comparison op l r
  | .logical op =>
    match l.truth? with
    | .error error => .error error
    | .ok left =>
      match r.truth? with
      | .error error => .error error
      | .ok right => .ok (ofTruth (connect op left right))
  | .is => .ok (boolean (l.alike r))
  | .isNot => .ok (boolean !(l.alike r))

end RelQuery.Value
