import RelQuery.Binary64.Rounding
import RelQuery.Text.Numeral

/-!
# Decimal text of double-precision numbers

A number without fractional part is written exactly, with one zero after the point.  Any other
finite number is written with the fewest fractional digits that read back to it; of two such
numerals the nearer one is taken, and of two equally near ones the larger.  There is never an
exponent.

A number `x` is the rounding of every real between the midpoints to its two neighbours, the
midpoints included exactly when its magnitude is even.
-/

namespace RelQuery.Binary64

/-- Reading `count * 10 ^ -places` gives the positive double of the given magnitude. -/
def readsBack (magnitude count places : Nat) : Bool :=
  let value := 2 * count * unitsPerOne
  let low := (unitsOf magnitude + unitsOf (magnitude - 1)) * Nat.pow 10 places
  let high := (unitsOf magnitude + unitsOf (magnitude + 1)) * Nat.pow 10 places
  if magnitude % 2 = 0 then low ≤ value && value ≤ high else low < value && value < high

/-- The best multiple of `10 ^ -places` that reads back, if there is one. -/
def candidate? (magnitude places : Nat) : Option Nat :=
  let scaled := unitsOf magnitude * Nat.pow 10 places
  let below := scaled / unitsPerOne
  let above := below + 1
  match readsBack magnitude below places, readsBack magnitude above places with
  | true, true => if 2 * (scaled % unitsPerOne) < unitsPerOne then some below else some above
  | true, false => some below
  | false, true => some above
  | false, false => none

/-- The first number of places from `places` on with a candidate, and that candidate.  The search
stops where the value is exact: a double has at most 1074 fractional digits. -/
def fewestPlaces (magnitude places : Nat) : (remaining : Nat) → Nat × Nat
  | 0 => (unitsOf magnitude * Nat.pow 10 places / unitsPerOne, places)
  | remaining + 1 =>
    match candidate? magnitude places with
    | some count => (count, places)
    | none => fewestPlaces magnitude (places + 1) remaining

/-- The digits of `count * 10 ^ -places`, where `places` is positive. -/
def positional (count places : Nat) : List Char :=
  let fraction := Numeral.digits (count % Nat.pow 10 places)
  Numeral.digits (count / Nat.pow 10 places) ++ '.' ::
    (List.replicate (places - fraction.length) '0' ++ fraction)

/-- The digits of a finite number without its sign. -/
def unsignedDecimal (x : Binary64) : List Char :=
  if x.isIntegral then Numeral.digits (x.units / unitsPerOne) ++ ['.', '0']
  else
    let (count, places) := fewestPlaces x.magnitude 1 1073
    positional count places

/-- The decimal text. -/
def decimal (x : Binary64) : List Char :=
  if x.isNaN then "NaN".toList
  else
    let size := if x.isInfinite then "inf".toList else unsignedDecimal x
    if x.isNegative then '-' :: size else size

end RelQuery.Binary64
