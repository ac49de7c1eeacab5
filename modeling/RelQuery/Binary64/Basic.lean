/-!
# Double-precision numbers

A REAL is a 64-bit word of the IEEE 754 format with eleven exponent bits.  The word is kept as it
is, so that two NaNs with different payloads stay different data.

Every finite number is a whole multiple of `2 ^ -1074`.  `units` is that multiple without its sign,
and all arithmetic is exact arithmetic on units followed by one rounding.
-/

namespace RelQuery

/-- A double-precision number, given by its word. -/
structure Binary64 where
  bits : UInt64
  deriving DecidableEq

namespace Binary64

/-- The number has its sign bit set. -/
def isNegative (x : Binary64) : Bool :=
  0x8000000000000000 ≤ x.bits.toNat

/-- The word without its sign bit.  It grows with the absolute value. -/
def magnitude (x : Binary64) : Nat :=
  x.bits.toNat % 0x8000000000000000

/-- The magnitude of the infinities, above which lie the NaNs. -/
def infiniteMagnitude : Nat :=
  0x7FF0000000000000

/-- The number with the given sign and magnitude. -/
def ofMagnitude (negative : Bool) (magnitude : Nat) : Binary64 :=
  ⟨UInt64.ofNat (if negative then 0x8000000000000000 + magnitude else magnitude)⟩

/-- The number is not a number. -/
def isNaN (x : Binary64) : Bool :=
  infiniteMagnitude < x.magnitude

/-- The number is one of the two infinities. -/
def isInfinite (x : Binary64) : Bool :=
  x.magnitude == infiniteMagnitude

/-- The number is neither infinite nor a NaN. -/
def isFinite (x : Binary64) : Bool :=
  x.magnitude < infiniteMagnitude

/-- The zero with the given sign. -/
def zero (negative : Bool) : Binary64 :=
  ofMagnitude negative 0

/-- The number one. -/
def one : Binary64 :=
  ofMagnitude false 0x3FF0000000000000

/-- The infinity with the given sign. -/
def infinity (negative : Bool) : Binary64 :=
  ofMagnitude negative infiniteMagnitude

/-- The bit that tells quiet NaNs from signalling ones. -/
abbrev quietBit : Nat :=
  0x8000000000000

/-- The quiet NaN without payload and with the given sign. -/
def nan (negative : Bool) : Binary64 :=
  ofMagnitude negative (infiniteMagnitude + quietBit)

/-- The NaN with its quiet bit set. -/
def quiet (x : Binary64) : Binary64 :=
  if x.magnitude / quietBit % 2 = 1 then x
  else ofMagnitude x.isNegative (x.magnitude + quietBit)

/-- The number with the opposite sign bit. -/
def neg (x : Binary64) : Binary64 :=
  ofMagnitude (!x.isNegative) x.magnitude

/-! ### Exact values -/

/-- How many units make one. -/
def unitsPerOne : Nat :=
  Nat.pow 2 1074

/-- How many magnitudes share an exponent: as many as there are fractions of fifty-two bits. -/
abbrev binade : Nat :=
  0x10000000000000

/-- The absolute value of a finite magnitude as a multiple of `2 ^ -1074`. -/
def unitsOf (magnitude : Nat) : Nat :=
  if magnitude < binade then magnitude
  else (binade + magnitude % binade) * Nat.pow 2 (magnitude / binade - 1)

/-- The absolute value of a finite number in units. -/
def units (x : Binary64) : Nat :=
  unitsOf x.magnitude

/-- The value of a finite number in units. -/
def signedUnits (x : Binary64) : Int :=
  if x.isNegative then -(x.units : Int) else x.units

/-- A finite number without a fractional part. -/
def isIntegral (x : Binary64) : Bool :=
  x.isFinite && x.units % unitsPerOne == 0

/-- The value is zero, of either sign. -/
def isZero (x : Binary64) : Bool :=
  x.magnitude == 0

/-! ### Order -/

/-- The place of a number that is not a NaN: the two zeros share one. -/
def rank (x : Binary64) : Int :=
  if x.isNegative then -(x.magnitude : Int) else x.magnitude

/-- The order of two numbers; a NaN is ordered against nothing. -/
def compare? (x y : Binary64) : Option Ordering :=
  if x.isNaN || y.isNaN then none else some (compare x.rank y.rank)

end Binary64

end RelQuery
