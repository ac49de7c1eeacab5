/-!
# Binary operators
-/

namespace RelQuery

/-- The operators on numbers. -/
inductive ArithmeticOp where
  | add
  | subtract
  | multiply
  | divide
  | modulo
  deriving DecidableEq

/-- The symbol of an arithmetic operator. -/
def ArithmeticOp.symbol : ArithmeticOp → String
  | .add => "+"
  | .subtract => "-"
  | .multiply => "*"
  | .divide => "/"
  | .modulo => "%"

/-- The operators that compare two values of one kind. -/
inductive ComparisonOp where
  | eq
  | notEq
  | lt
  | ltEq
  | gt
  | gtEq
  deriving DecidableEq

/-- The symbol of a comparison. -/
def ComparisonOp.symbol : ComparisonOp → String
  | .eq => "="
  | .notEq => "<>"
  | .lt => "<"
  | .ltEq => "<="
  | .gt => ">"
  | .gtEq => ">="

/-- The two operators of three-valued logic. -/
inductive LogicalOp where
  | and
  | or
  deriving DecidableEq

/-- The word of a logical operator. -/
def LogicalOp.symbol : LogicalOp → String
  | .and => "AND"
  | .or => "OR"

/-- An operator with a left and a right operand. -/
inductive BinaryOp where
  | arithmetic (op : ArithmeticOp)
  | concat
  | comparison (op : ComparisonOp)
  | logical (op : LogicalOp)
  | is
  | isNot
  deriving DecidableEq

namespace BinaryOp

/-- The symbol of an operator. -/
def symbol : BinaryOp → String
  | arithmetic op => op.symbol
  | concat => "||"
  | comparison op => op.symbol
  | logical op => op.symbol
  | is => "IS"
  | isNot => "IS NOT"

/-- All operators, in the order of their codes. -/
def all : List BinaryOp :=
  [arithmetic .add, arithmetic .subtract, arithmetic .multiply, arithmetic .divide,
    arithmetic .modulo, concat, comparison .eq, comparison .notEq, comparison .lt,
    comparison .ltEq, comparison .gt, comparison .gtEq, logical .and, logical .or, is, isNot]

end BinaryOp

end RelQuery
