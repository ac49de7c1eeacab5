/-!
# Decimal numerals

Digits of natural numbers and integers, and the readers that accept them: an optional sign and one
or more ASCII digits, nothing else.  A reader has a limit, and refuses a numeral at the first digit
that takes it past the limit, so that no long numeral is ever worked out in full.
-/

namespace RelQuery.Numeral

/-- The digit character of a number below ten. -/
def digitChar (d : Nat) : Char :=
  Char.ofNat ('0'.toNat + d % 10)

/-- The number that a digit character stands for. -/
def digitValue (c : Char) : Nat :=
  c.toNat - '0'.toNat

/-- The decimal digits of a number, without leading zeros. -/
def digits (n : Nat) : List Char :=
  if n < 10 then [digitChar n] else digits (n / 10) ++ [digitChar n]

/-- The number written by a list of digits; no digits write zero. -/
def value (digits : List Char) : Nat :=
  digits.foldl (fun high c => 10 * high + digitValue c) 0

/-- The number written by digits that follow those of `high`, if it is at most `limit`. -/
def readFrom (limit high : Nat) : List Char → Option Nat
  | [] => some high
  | c :: rest =>
    let next := 10 * high + digitValue c
    if c.isDigit && next ≤ limit then readFrom limit next rest else none

/-- The number written by one or more digits, if it is at most `limit`. -/
def read? (limit : Nat) : List Char → Option Nat
  | [] => none
  | chars => readFrom limit 0 chars

/-- The digits of an integer, with `-` before those of a negative one. -/
def signed (n : Int) : List Char :=
  if n < 0 then '-' :: digits n.natAbs else digits n.natAbs

/-- The integer written by one or more digits after an optional sign, if its absolute value is at
most `limit`. -/
def readSigned? (limit : Nat) : List Char → Option Int
  | '-' :: rest => (read? limit rest).map fun n => -(n : Int)
  | '+' :: rest => (read? limit rest).map fun n => (n : Int)
  | chars => (read? limit chars).map fun n => (n : Int)

/-- The natural number written by one or more digits after an optional `+`, if it is at most
`limit`. -/
def readUnsigned? (limit : Nat) : List Char → Option Nat
  | '+' :: rest => read? limit rest
  | chars => read? limit chars

/-- The text of a natural number. -/
def text (n : Nat) : String :=
  String.ofList (digits n)

/-- The text of an integer. -/
def signedText (n : Int) : String :=
  String.ofList (signed n)

end RelQuery.Numeral
