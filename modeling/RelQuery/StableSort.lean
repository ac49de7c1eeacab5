/-!
# Stable sorting

Short lists are sorted by insertion and longer ones by merging.  Where a comparison orders all
elements, up to ties, both arrive at the one order that keeps ties as they are given.  Reals that
include a NaN, or integers beside doubles, are not ordered by their comparison.  Then a short list
is left as insertion leaves it; the order of a longer one is a convention of this definition, and no
more is to be relied on than that the elements are the same.
-/

namespace RelQuery

variable {α : Type}

/-- The longest lists that are sorted by insertion. -/
def insertionLimit : Nat :=
  20

/-- A sorted list, the last element first, with one more element.  The element goes past those that
it comes before. -/
def insertBackward (cmp : α → α → Ordering) (a : α) : List α → List α
  | [] => [a]
  | b :: rest => if cmp a b = .lt then b :: insertBackward cmp a rest else a :: b :: rest

/-- The elements inserted one after the other. -/
def insertionSort (cmp : α → α → Ordering) (l : List α) : List α :=
  (l.foldl (fun sorted a => insertBackward cmp a sorted) []).reverse

/-- The elements in sorted order, those that tie in their given order. -/
def stableSort (cmp : α → α → Ordering) (l : List α) : List α :=
  if l.length ≤ insertionLimit then insertionSort cmp l
  else l.mergeSort fun a b => (cmp a b).isLE

end RelQuery
