import ClassLang.RuntimeError
import ClassLang.Value

/-!
# Operators on values

Both operands of an operator must have the same type, which is checked first;
then the operator must have a meaning for that type.

* Sums are of numbers and strings, differences and products of numbers. Whole
  numbers give the exact result or an overflow.
* Quotients are of numbers and always have a fraction.
* Equality is of anything, order of numbers, strings (by their characters) and
  truth values.
-/

namespace ClassLang

/-- The error of an operator that has no meaning for a value. -/
def unsupported {α : Type} (operator : String) (operand : Value) : Except RuntimeError α :=
  .error (.unsupportedOperation operator operand.type)

/-- Refuses operands of different types. -/
def checkOperands (e : Expr) (left right : Value) : Except RuntimeError Unit :=
  if left.type = right.type then .ok ()
  else .error (.typeMismatch (.expression e) left.type right.type)

/-- A result of whole-number arithmetic, or the report that there is none. -/
def exactly (e : Expr) : Option Integer → Except RuntimeError Value
  | some n => .ok (.integer n)
  | none => .error (.overflow (.expression e))

/-- The value of `e`, which applies an arithmetical operator or equality to
operands of one type. -/
def BinaryOp.apply (e : Expr) (op : BinaryOp) (left right : Value) : Except RuntimeError Value :=
  match op, left, right with
  | .eq, l, r => .ok (.boolean (l.equals r))
  | .ne, l, r => .ok (.boolean (!l.equals r))
  | .add, .string l, .string r => .ok (.string (l ++ r))
  | .add, .integer l, .integer r => exactly e (l.add? r)
  | .add, .double l, .double r => .ok (.double (l + r))
  | .sub, .integer l, .integer r => exactly e (l.sub? r)
  | .sub, .double l, .double r => .ok (.double (l - r))
  | .mul, .integer l, .integer r => exactly e (l.mul? r)
  | .mul, .double l, .double r => .ok (.double (l * r))
  | .div, .integer l, .integer r =>
    if r.val = 0 then .error (.divisionByZero (.expression e))
    else .ok (.double (Double.ofInteger l / Double.ofInteger r))
  | .div, .double l, .double r =>
    if r == 0.0 then .error (.divisionByZero (.expression e)) else .ok (.double (l / r))
  | op, l, _ => unsupported op.symbol l

/-- Do two things stand in the order that an operator asks for? -/
def RelationOp.holds {α : Type} [LT α] [LE α] [DecidableLT α] [DecidableLE α]
    (op : RelationOp) (left right : α) : Bool :=
  match op with
  | .lt => left < right
  | .gt => left > right
  | .le => left ≤ right
  | .ge => left ≥ right

/-- The value of an operator of order on operands of one type. -/
def RelationOp.apply (op : RelationOp) (left right : Value) : Except RuntimeError Value :=
  match left, right with
  | .integer l, .integer r => .ok (.boolean (op.holds l r))
  | .double l, .double r => .ok (.boolean (op.holds l r))
  | .string l, .string r => .ok (.boolean (op.holds l r))
  | .boolean l, .boolean r => .ok (.boolean (op.holds l r))
  | l, _ => unsupported op.symbol l

end ClassLang
