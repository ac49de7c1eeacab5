import RelQuery.Error

/-!
# Replacing operands
-/

namespace RelQuery.Expr

/-- The operation with another left operand. -/
def replaceLeft (e : Expr) (operand : Expr) : Result Expr :=
  match e with
  | binary op _ right label => .ok (binary op operand right label)
  | _ => .error (.fault (.noLeftOperand e))

/-- The operation with another right operand. -/
def replaceRight (e : Expr) (operand : Expr) : Result Expr :=
  match e with
  | binary op left _ label => .ok (binary op left operand label)
  | _ => .error (.fault (.noRightOperand e))

end RelQuery.Expr
