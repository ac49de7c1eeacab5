import RelQuery.Binary64.Rounding
import RelQuery.Error
import RelQuery.StableSort

/-!
# Comparison of values

Three comparisons serve three purposes.  `compare?` is the comparison of predicates: NULL compares
with nothing, and values of different kinds, numbers apart, cannot be compared.  `alike` is the
equality of group boundaries and of IS, where NULL equals NULL.  `sortOrder` is the order of
sorting, where NULL comes after everything and incomparable values are ordered by kind.
-/

namespace RelQuery.Value

/-- The order of two values of one kind.  No order is found when one of them is NULL or a NaN. -/
def compare? : Value → Value → Result (Option Ordering)
  | null, _ => .ok none
  | _, null => .ok none
  | integer l, integer r => .ok (some (compare l.toInt r.toInt))
  | integer l, real r => .ok ((Binary64.ofInt l.toInt).compare? r)
  | real l, integer r => .ok (l.compare? (Binary64.ofInt r.toInt))
  | real l, real r => .ok (l.compare? r)
  | text l, text r => .ok (some (compare l.toList r.toList))
  | boolean l, boolean r => .ok (some (compare l r))
  | l, r => .error (.typeMismatch (.comparison l.type? r.type?))

/-- The comparison succeeds with the given order. -/
def ordered (order : Ordering) (a b : Value) : Bool :=
  match a.compare? b with
  | .ok (some found) => found == order
  | _ => false

/-- The values are equal; NULL equals nothing. -/
def equal (a b : Value) : Bool :=
  ordered .eq a b

/-- The first value is less; NULL is less than nothing. -/
def isLess (a b : Value) : Bool :=
  ordered .lt a b

/-- The first value is greater; NULL is greater than nothing. -/
def isGreater (a b : Value) : Bool :=
  ordered .gt a b

/-- The values are equal or both are NULL. -/
def alike : Value → Value → Bool
  | null, null => true
  | a, b => a.equal b

/-- The place of a kind among the kinds. -/
def kindOrder : Value → Nat
  | boolean _ => 0
  | integer _ | real _ => 1
  | text _ => 2
  | null => 3

/-- The order of sorting. -/
def sortOrder : Value → Value → Ordering
  | null, null => .eq
  | null, _ => .gt
  | _, null => .lt
  | a, b =>
    match a.compare? b with
    | .ok (some order) => order
    | _ => compare a.kindOrder b.kindOrder

/-- The values in sorted order, equal ones in their given order. -/
def sort (values : List Value) : List Value :=
  stableSort sortOrder values

end RelQuery.Value
