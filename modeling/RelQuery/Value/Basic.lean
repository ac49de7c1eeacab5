import RelQuery.Binary64.Decimal
import RelQuery.Text.Numeral

/-!
# Values

A value is NULL or a scalar of one of the four column types.  Integers are signed 64-bit words and
reals keep their exact word, so equality of values is identity of data.  The equalities that queries
use live in `RelQuery.Value.Compare`.
-/

namespace RelQuery

/-- The declared type of a column. -/
inductive ColumnType where
  | integer
  | real
  | text
  | boolean
  deriving DecidableEq

namespace ColumnType

/-- The name of the type. -/
def name : ColumnType → String
  | .integer => "INTEGER"
  | .real => "REAL"
  | .text => "TEXT"
  | .boolean => "BOOLEAN"

/-- All types, in the order of their codes. -/
def all : List ColumnType :=
  [.integer, .real, .text, .boolean]

/-- A type of numbers. -/
def isNumeric : ColumnType → Bool
  | .integer | .real => true
  | .text | .boolean => false

end ColumnType

/-- A scalar, or NULL. -/
inductive Value where
  | null
  | integer (n : Int64)
  | real (x : Binary64)
  | text (s : String)
  | boolean (b : Bool)
  deriving DecidableEq

/-- The values of one row, in column order. -/
abbrev Row := List Value

namespace Value

/-- The value is NULL. -/
def isNull : Value → Bool
  | null => true
  | _ => false

/-- The type of a value that is not NULL. -/
def type? : Value → Option ColumnType
  | null => none
  | integer _ => some .integer
  | real _ => some .real
  | text _ => some .text
  | boolean _ => some .boolean

/-- The name of a kind of value, where no type means NULL. -/
def typeText : Option ColumnType → String
  | some type => type.name
  | none => "NULL"

/-- The text that shows the value. -/
def render : Value → String
  | null => "NULL"
  | integer n => Numeral.signedText n.toInt
  | real x => String.ofList x.decimal
  | text s => s
  | boolean true => "TRUE"
  | boolean false => "FALSE"

/-- Identity of values, except that reals are compared as numbers: the two zeros are identical and
no NaN is identical to anything. -/
def same : Value → Value → Bool
  | null, null => true
  | integer a, integer b => a == b
  | real a, real b => a.compare? b == some .eq
  | text a, text b => a == b
  | boolean a, boolean b => a == b
  | _, _ => false

end Value

end RelQuery
