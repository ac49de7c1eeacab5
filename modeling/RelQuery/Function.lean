import RelQuery.Value.Basic

/-!
# Built-in functions

A function is an aggregate, which grouping folds over the rows of a group, or a conversion to one of
the column types.
-/

namespace RelQuery

/-- The aggregate functions. -/
inductive Aggregate where
  | count
  | sum
  | avg
  | min
  | max
  deriving DecidableEq

/-- The name of an aggregate function. -/
def Aggregate.name : Aggregate → String
  | .count => "COUNT"
  | .sum => "SUM"
  | .avg => "AVG"
  | .min => "MIN"
  | .max => "MAX"

/-- A function of at most one argument. -/
inductive Function where
  | aggregate (f : Aggregate)
  | conversion (target : ColumnType)
  deriving DecidableEq

namespace Function

/-- The name under which a function is shown. -/
def name : Function → String
  | aggregate f => f.name
  | conversion .integer => "INT"
  | conversion .real => "FLOAT"
  | conversion .text => "STRING"
  | conversion .boolean => "BOOL"

/-- The accepted names: every function under its own, conversions also under that of their target
type. -/
def named : List (String × Function) :=
  [("COUNT", aggregate .count), ("SUM", aggregate .sum), ("AVG", aggregate .avg),
    ("MIN", aggregate .min), ("MAX", aggregate .max),
    ("INT", conversion .integer), ("INTEGER", conversion .integer),
    ("FLOAT", conversion .real), ("REAL", conversion .real),
    ("STRING", conversion .text), ("TEXT", conversion .text),
    ("BOOL", conversion .boolean), ("BOOLEAN", conversion .boolean)]

/-- The function of the given name, written with capital or small ASCII letters. -/
def ofName? (name : String) : Option Function :=
  let capitals := String.ofList (name.toList.map Char.toUpper)
  (named.find? fun entry => entry.1 == capitals).map Prod.snd

/-- The function is an aggregate. -/
def isAggregate : Function → Bool
  | aggregate _ => true
  | conversion _ => false

/-- The aggregate that the function is, if it is one. -/
def aggregate? : Function → Option Aggregate
  | aggregate f => some f
  | conversion _ => none

/-- The type a conversion converts to. -/
def target? : Function → Option ColumnType
  | aggregate _ => none
  | conversion target => some target

/-- Only `COUNT` may stand without an argument. -/
def mayBeBare (f : Function) : Bool :=
  f == aggregate .count

end Function

end RelQuery
