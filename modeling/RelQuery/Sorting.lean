import RelQuery.Value.Compare

/-!
# Sorting of rows

Rows are sorted by some of their positions, the first position that tells them apart deciding.
Sorting keeps the given order of rows that no position tells apart.
-/

namespace RelQuery

/-- A position to sort by, with its direction. -/
structure OrderKey where
  position : Nat
  ascending : Bool
  deriving DecidableEq

namespace OrderKey

/-- The order of two rows at one position. -/
def compare (key : OrderKey) (a b : Row) : Ordering :=
  let order := (a.getD key.position .null).sortOrder (b.getD key.position .null)
  if key.ascending then order else order.swap

/-- The order of two rows: that of the first position at which they differ. -/
def compareAll (a b : Row) : List OrderKey → Ordering
  | [] => .eq
  | key :: rest => (key.compare a b).then (compareAll a b rest)

/-- The rows in sorted order. -/
def sortRows (keys : List OrderKey) (rows : List Row) : List Row :=
  stableSort (fun a b => compareAll a b keys) rows

end OrderKey

end RelQuery
