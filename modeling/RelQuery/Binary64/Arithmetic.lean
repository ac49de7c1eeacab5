import RelQuery.Binary64.Rounding

/-!
# Arithmetic in double precision

Each operation is exact on units and rounded once.  A NaN operand is the result, made quiet, the
left one first; an operation without a value gives the negative quiet NaN.
-/

namespace RelQuery.Binary64

/-- What an operation without a value gives. -/
def undefinedResult : Binary64 :=
  nan true

/-- Passes a NaN operand on, the left one first. -/
def unlessNaN (x y : Binary64) (result : Binary64) : Binary64 :=
  if x.isNaN then x.quiet else if y.isNaN then y.quiet else result

/-- The sum of two numbers of which none is a NaN. -/
def addNumbers (x y : Binary64) : Binary64 :=
  if x.isInfinite then
    if y.isInfinite && x.isNegative != y.isNegative then undefinedResult else x
  else if y.isInfinite then y
  else
    let sum := x.signedUnits + y.signedUnits
    if sum = 0 then zero (x.isNegative && y.isNegative)
    else ofQuotient (sum < 0) sum.natAbs 1

/-- The sum. -/
def add (x y : Binary64) : Binary64 :=
  unlessNaN x y (addNumbers x y)

/-- The difference. -/
def sub (x y : Binary64) : Binary64 :=
  unlessNaN x y (addNumbers x y.neg)

/-- The product. -/
def mul (x y : Binary64) : Binary64 :=
  let negative := x.isNegative != y.isNegative
  unlessNaN x y <|
    if x.isInfinite || y.isInfinite then
      if x.isZero || y.isZero then undefinedResult else infinity negative
    else ofQuotient negative (x.units * y.units) unitsPerOne

/-- The quotient. -/
def div (x y : Binary64) : Binary64 :=
  let negative := x.isNegative != y.isNegative
  unlessNaN x y <|
    if x.isInfinite then
      if y.isInfinite then undefinedResult else infinity negative
    else if y.isInfinite then zero negative
    else if y.isZero then
      if x.isZero then undefinedResult else infinity negative
    else ofQuotient negative (x.units * unitsPerOne) y.units

/-- The remainder of the division whose quotient is cut off toward zero.  It is always exact and has
the sign of the dividend. -/
def rem (x y : Binary64) : Binary64 :=
  unlessNaN x y <|
    if x.isInfinite || y.isZero then undefinedResult
    else if y.isInfinite then x
    else ofQuotient x.isNegative (x.units % y.units) 1

end RelQuery.Binary64
