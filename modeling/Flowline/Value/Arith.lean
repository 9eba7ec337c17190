/-
  Arithmetic on values.

  Integers stay integers and are exact: a result beyond 64 bits is an error.
  As soon as a float takes part, the result is a float; a division always
  gives one.  Truth values count as zero and one next to a number.  Strings
  and lists can be added to their like.

  * `OpFault`: why an operator fails on its operands;
  * `Arith.apply`: the arithmetic operators.
-/
import Flowline.Value
import Flowline.Operator
import Flowline.Error
import Flowline.Number.Double

namespace Flowline

/-! ## Faults -/

/-- Why an operator fails on its operands. -/
inductive OpFault where
  /-- The exact result does not fit into 64 bits. -/
  | overflow (o : Arith)
  /-- The operands are of types that the operator does not take. -/
  | mismatch (o : Arith) (a b : Value)
  /-- The operands are of types that have no order. -/
  | incomparable (a b : Value)
  | divisionByZero
  | zeroToNegative
  | negativeToFraction
  /-- What a failed call left behind decides nothing. -/
  | errorAsCondition (message : String)

/-- The verb of an arithmetic operator. -/
def Arith.verb : Arith → String
  | plus => "add"
  | minus => "subtract"
  | times => "multiply"
  | divide => "divide"
  | power => "raise"

/-- The kind of a fault. -/
def OpFault.kind : OpFault → ErrorKind
  | overflow _ => .overflow
  | divisionByZero | zeroToNegative => .divisionByZero
  | mismatch .. | incomparable .. | negativeToFraction | errorAsCondition _ => .type

/-- The message of a fault. -/
def OpFault.message : OpFault → String
  | overflow o => "integer overflow in " ++ (Operator.arith o).spelling
  | mismatch o a b => "Cannot " ++ o.verb ++ " " ++ a.typeName ++ " and " ++ b.typeName
  | incomparable a b => "Cannot compare " ++ a.typeName ++ " and " ++ b.typeName
  | divisionByZero => "division by zero"
  | zeroToNegative => "0 cannot be raised to a negative power"
  | negativeToFraction => "negative number cannot be raised to a fractional power"
  | errorAsCondition message =>
    "error value cannot be used as a condition (" ++ message ++ ")"

/-! ## Numbers -/

namespace Value

/-- The number that a value counts as; truth values count as zero and one. -/
def number? : Value → Option Float
  | bool b => some (if b then 1.0 else 0.0)
  | v => v.toFloat?

/-- A truth value as an integer; other values as they are. -/
def unbool : Value → Value
  | bool b => int (Whole.ofBool b)
  | v => v

/-- Two values with truth values as integers, if both count as numbers. -/
def promote (a b : Value) : Value × Value :=
  if a.number?.isSome && b.number?.isSome then (a.unbool, b.unbool) else (a, b)

/-- An exact integer, or an overflow of the operator. -/
def ofExact (o : Arith) : Option Int64 → Except OpFault Value
  | some n => .ok (int n)
  | Option.none => .error (.overflow o)

/-- An operation on two values that are numbers. -/
def onFloats (o : Arith) (f : Float → Float → Float) (a b : Value) : Except OpFault Value :=
  match a.toFloat?, b.toFloat? with
  | some p, some q => .ok (float (f p q))
  | _, _ => .error (.mismatch o a b)

/-! ## Operators -/

def add (a b : Value) : Except OpFault Value :=
  match promote a b with
  | (int x, int y) => ofExact .plus (Whole.add? x y)
  | (str x, str y) => .ok (str (x ++ y))
  | (list x, list y) => .ok (list (x ++ y))
  | (x, y) => onFloats .plus (· + ·) x y

def sub (a b : Value) : Except OpFault Value :=
  match promote a b with
  | (int x, int y) => ofExact .minus (Whole.sub? x y)
  | (x, y) => onFloats .minus (· - ·) x y

def mul (a b : Value) : Except OpFault Value :=
  match promote a b with
  | (int x, int y) => ofExact .times (Whole.mul? x y)
  | (x, y) => onFloats .times (· * ·) x y

/-- Division gives a float, also of integers. -/
def div (a b : Value) : Except OpFault Value :=
  match a.number?, b.number? with
  | some p, some q => if q == 0.0 then .error .divisionByZero else .ok (float (p / q))
  | _, _ => .error (.mismatch .divide a b)

/-- The power of two numbers, at least one of them a float or the exponent
    negative. -/
def powFloat (a b : Value) : Except OpFault Value :=
  match a.toFloat?, b.toFloat? with
  | some p, some q =>
    if p == 0.0 && q < 0.0 then .error .zeroToNegative
    else if p < 0.0 && Double.fraction q != 0.0 then .error .negativeToFraction
    else .ok (float (Float.pow p q))
  | _, _ => .error (.mismatch .power a b)

/-- An integer to a natural power is an integer, every other power a float. -/
def pow (a b : Value) : Except OpFault Value :=
  match promote a b with
  | (int x, int y) =>
    if 0 ≤ y.toInt then ofExact .power (Whole.pow? x y.toInt.toNat)
    else powFloat (int x) (int y)
  | (x, y) => powFloat x y

end Value

/-- The arithmetic operators on values. -/
def Arith.apply : Arith → Value → Value → Except OpFault Value
  | plus => Value.add
  | minus => Value.sub
  | times => Value.mul
  | divide => Value.div
  | power => Value.pow

end Flowline
