import RelQuery.Binary64.Basic

/-!
# Rounding to double precision

One function rounds an exact quotient of units to the nearest double, a tie to the even neighbour.
The magnitude of a double with significand `m` and a unit of the last place of `2 ^ s` units is
`s * 2 ^ 52 + m`, also when `m` is below `2 ^ 52` (then `s` is zero) and when rounding carried it to
`2 ^ 53`.
-/

namespace RelQuery.Binary64

/-- The quotient rounded to the nearest natural number, a tie to the even one. -/
def nearestEven (num den : Nat) : Nat :=
  let quotient := num / den
  let doubled := 2 * (num % den)
  if doubled < den || (doubled == den && quotient % 2 == 0) then quotient else quotient + 1

/-- How far the unit of the last place lies above the smallest one, for a value of `n` units. -/
def exponentFor (n : Nat) : Nat :=
  Nat.log2 n - 52

/-- The magnitude of the double nearest to `num / den` units. -/
def roundedMagnitude (num den : Nat) : Nat :=
  let exponent := exponentFor (num / den)
  min (exponent * binade + nearestEven num (den * Nat.pow 2 exponent)) infiniteMagnitude

/-- The double nearest to `num / den` units, with the given sign. -/
def ofQuotient (negative : Bool) (num den : Nat) : Binary64 :=
  ofMagnitude negative (roundedMagnitude num den)

/-- The double nearest to an integer. -/
def ofInt (n : Int) : Binary64 :=
  ofQuotient (n < 0) (n.natAbs * unitsPerOne) 1

/-- The integer part of a finite number that lies in the range of signed 64-bit integers. -/
def toInt64? (x : Binary64) : Option Int64 :=
  if x.isFinite && -(0x8000000000000000 * unitsPerOne : Int) ≤ x.signedUnits &&
      x.signedUnits < (0x8000000000000000 * unitsPerOne : Int) then
    some (Int64.ofInt (x.signedUnits.tdiv unitsPerOne))
  else none

end RelQuery.Binary64
