import RelQuery.Binary64.Rounding
import RelQuery.Text.Numeral

/-!
# Reading double-precision numbers

The accepted texts are an optional sign followed by `inf`, `infinity` or `nan` in any case, or by a
decimal numeral: digits with at most one point among them, at least one digit, and an optional
exponent.  The value is the double nearest to the numeral, where the digits of the exponent count
only until they write `2 ^ 16` or more.
-/

namespace RelQuery.Binary64

/-- The double nearest to `significand * 10 ^ exponent`. -/
def ofDecimal (negative : Bool) (significand : Nat) (exponent : Int) : Binary64 :=
  if 0 ≤ exponent then
    ofQuotient negative (significand * Nat.pow 10 exponent.toNat * unitsPerOne) 1
  else ofQuotient negative (significand * unitsPerOne) (Nat.pow 10 exponent.natAbs)

/-- How many significant digits are taken as they are.  Every double, and every midpoint between
two neighbours, is written with fewer. -/
def decisiveCount : Nat :=
  800

/-- The digits that decide the nearest double.  Of those past the count it only matters whether one
is not zero, so a single digit stands for all of them. -/
def decisive (digits : List Char) : List Char :=
  if (digits.drop decisiveCount).all (· == '0') then digits.take decisiveCount
  else digits.take decisiveCount ++ ['1']

/-- The double nearest to `digits * 10 ^ exponent`.  A numeral whose leading digit lies far outside
the range of doubles is decided by its place alone. -/
def ofDigits (negative : Bool) (digits : List Char) (exponent : Int) : Binary64 :=
  let significant := digits.dropWhile (· == '0')
  let place := significant.length + exponent
  if significant.isEmpty then zero negative
  else if 310 < place then infinity negative
  else if place < -330 then zero negative
  else
    let kept := decisive significant
    ofDecimal negative (Numeral.value kept) (place - kept.length)

/-- The size of an exponent that `size` becomes with one more digit.  Once it is `2 ^ 16` or more,
further digits are passed over. -/
def extendExponent (size : Nat) (digit : Char) : Nat :=
  if size < 0x10000 then 10 * size + Numeral.digitValue digit else size

/-- The size of an exponent written by one or more digits. -/
def exponentSize? (digits : List Char) : Option Nat :=
  if !digits.isEmpty && digits.all Char.isDigit then some (digits.foldl extendExponent 0) else none

/-- An exponent with an optional sign. -/
def readExponent? : List Char → Option Int
  | '-' :: rest => (exponentSize? rest).map fun size => -(size : Int)
  | '+' :: rest => (exponentSize? rest).map fun size => (size : Int)
  | chars => (exponentSize? chars).map fun size => (size : Int)

/-- The exponent part of a numeral, with nothing after it. -/
def exponent? : List Char → Option Int
  | [] => some 0
  | mark :: rest => if mark = 'e' || mark = 'E' then readExponent? rest else none

/-- The fractional digits at the start of the text and what follows them. -/
def splitFraction : List Char → List Char × List Char
  | '.' :: rest => rest.span Char.isDigit
  | chars => ([], chars)

/-- A decimal numeral without sign. -/
def readUnsigned? (negative : Bool) (chars : List Char) : Option Binary64 :=
  let (whole, afterWhole) := chars.span Char.isDigit
  let (fraction, afterFraction) := splitFraction afterWhole
  let digits := whole ++ fraction
  if digits.isEmpty then none
  else
    (exponent? afterFraction).map fun exponent =>
      ofDigits negative digits (exponent - fraction.length)

/-- A number after its sign. -/
def readMagnitude? (negative : Bool) (chars : List Char) : Option Binary64 :=
  let word := chars.map Char.toLower
  if word = "inf".toList || word = "infinity".toList then some (infinity negative)
  else if word = "nan".toList then some (nan negative)
  else readUnsigned? negative chars

/-- The number written by the text. -/
def read? : List Char → Option Binary64
  | '-' :: rest => readMagnitude? true rest
  | '+' :: rest => readMagnitude? false rest
  | chars => readMagnitude? false chars

end RelQuery.Binary64
