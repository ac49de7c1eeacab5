import RelQuery.Binary64.Arithmetic
import RelQuery.Error

/-!
# Arithmetic on values

Two integers are combined exactly and the result must fit in 64 bits; once a real is involved the
operation is done in double precision.  NULL with anything is NULL.  Division by zero is an error
for both kinds of numbers.
-/

namespace RelQuery.Value

/-- The integer lies in the signed 64-bit range. -/
def fitsInt64 (n : Int) : Bool :=
  -0x8000000000000000 ≤ n && n < 0x8000000000000000

/-- The integer as a value, if it fits. -/
def checked (cause : Overflow) (n : Int) : Result Value :=
  if fitsInt64 n then .ok (integer (Int64.ofInt n)) else .error (.overflow cause)

/-- Arithmetic on integers.  Quotients are cut off toward zero.  A remainder is refused together
with its quotient, so the least integer has no remainder modulo minus one. -/
def integerArithmetic (op : ArithmeticOp) (l r : Int64) : Result Value :=
  let cause := Overflow.operation l op r
  let quotient := l.toInt.tdiv r.toInt
  match op with
  | .add => checked cause (l.toInt + r.toInt)
  | .subtract => checked cause (l.toInt - r.toInt)
  | .multiply => checked cause (l.toInt * r.toInt)
  | .divide => if r = 0 then .error .divisionByZero else checked cause quotient
  | .modulo =>
    if r = 0 then .error .divisionByZero
    else if fitsInt64 quotient then .ok (integer (Int64.ofInt (l.toInt.tmod r.toInt)))
    else .error (.overflow cause)

/-- Arithmetic in double precision. -/
def realArithmetic (op : ArithmeticOp) (l r : Binary64) : Result Value :=
  match op with
  | .add => .ok (real (l.add r))
  | .subtract => .ok (real (l.sub r))
  | .multiply => .ok (real (l.mul r))
  | .divide => if r.isZero then .error .divisionByZero else .ok (real (l.div r))
  | .modulo => if r.isZero then .error .divisionByZero else .ok (real (l.rem r))

/-- Arithmetic on two values. -/
def arithmetic (op : ArithmeticOp) : Value → Value → Result Value
  | null, _ => .ok null
  | _, null => .ok null
  | integer l, integer r => integerArithmetic op l r
  | integer l, real r => realArithmetic op (Binary64.ofInt l.toInt) r
  | real l, integer r => realArithmetic op l (Binary64.ofInt r.toInt)
  | real l, real r => realArithmetic op l r
  | l, r => .error (.typeMismatch (.arithmetic op l.type? r.type?))

/-- The opposite of a number, or of a truth value. -/
def negate : Value → Result Value
  | null => .ok null
  | integer n => checked (.negation n) (-n.toInt)
  | real x => .ok (real x.neg)
  | boolean b => .ok (boolean !b)
  | text s => .error (.meaningless (.negatedText s))

end RelQuery.Value
