/-
  What the built-in functions compute.

  A function first counts its arguments, then looks at them from left to right,
  and fails at the first that it cannot take.

  * `Builtin.apply`: the result of a call;
  * `Builtin.prints`: what a call prints.
-/
import Flowline.Builtin.Basic
import Flowline.Decimal.Reader
import Flowline.Text.Blank

namespace Flowline.Builtin

/-! ## Arguments -/

/-- The only argument. -/
def one (f : Builtin) : List Value → Except CallFault Value
  | [v] => .ok v
  | args => .error (.arity f 1 args.length)

/-- The only two arguments. -/
def two (f : Builtin) : List Value → Except CallFault (Value × Value)
  | [a, b] => .ok (a, b)
  | args => .error (.arity f 2 args.length)

/-- One argument, and a second one if it is given. -/
def oneOrTwo (f : Builtin) : List Value → Except CallFault (Value × Option Value)
  | [a] => .ok (a, none)
  | [a, b] => .ok (a, some b)
  | args => .error (.arityRange f 1 2 args.length)

/-- Two arguments, and a third one if it is given. -/
def twoOrThree (f : Builtin) : List Value → Except CallFault (Value × Value × Option Value)
  | [a, b] => .ok (a, b, none)
  | [a, b, c] => .ok (a, b, some c)
  | args => .error (.arityRange f 2 3 args.length)

/-- An argument that is a number. -/
def number (f : Builtin) (v : Value) : Except CallFault Float :=
  match v.toFloat? with
  | some x => .ok x
  | none => .error (.notNumber f v)

/-- An argument that is a size. -/
def count (f : Builtin) : Value → Except CallFault Nat
  | .int n => if 0 ≤ n.toInt then .ok n.toInt.toNat else .error (.notCount f (.int n))
  | v => .error (.notCount f v)

/-- A whole double as an integer. -/
def toInt (f : Builtin) (x : Float) : Except CallFault Value :=
  match Double.toWhole? x with
  | some n => .ok (.int n)
  | none => .error (.noInt f x)

/-! ## Core functions -/

def applyAbs : Value → Except CallFault Value
  | .int n =>
    match Whole.abs? n with
    | some m => .ok (.int m)
    | none => .error .absOverflow
  | .float x => .ok (.float x.abs)
  | v => .error (.notNumber .abs v)

/-- The items that `max` and `min` choose from: those of an only argument that
    is a list, else the arguments. -/
def candidates : List Value → List Value
  | [.list items] => items
  | args => args

/-- Go through items and keep the last one that stood to the best so far as
    wanted. -/
def bestOf (f : Builtin) (want : Ordering) (best : Value) :
    List Value → Except CallFault Value
  | [] => .ok best
  | v :: vs =>
    match v.ordering best with
    | .error fault => .error (.unordered f fault)
    | .ok ord => bestOf f want (if ord = some want then v else best) vs

/-- The greatest or the least item. -/
def extremum (f : Builtin) (want : Ordering) (args : List Value) : Except CallFault Value :=
  match candidates args with
  | [] => .error (.emptySequence f)
  | v :: vs => bestOf f want v vs

/-- The number of digits to round to, an integer of 32 bits. -/
def roundDigits : Value → Except CallFault Int
  | .int d =>
    if -2147483648 ≤ d.toInt ∧ d.toInt < 2147483648 then .ok d.toInt
    else .error .digitsOutOfRange
  | v => .error (.digitsNotInt v)

/-- Round to a whole number, or to a number of decimal digits. -/
def applyRound : Value → Option Value → Except CallFault Value
  | .int n, _ => .ok (.int n)
  | v, digits? => do
    let x ← number .round v
    match digits? with
    | none => toInt .round (Double.roundEven x)
    | some digits =>
      let scale := Double.powInt 10.0 (← roundDigits digits)
      return .float (Double.roundEven (x * scale) / scale)

def applyLen : Value → Except CallFault Value
  | .str s => .ok (.int (Int64.ofNat s.length))
  | .list items => .ok (.int (Int64.ofNat items.length))
  | v => .error (.noLength v)

def applyInt : Value → Except CallFault Value
  | .int n => .ok (.int n)
  | .float x => toInt .int (Double.trunc x)
  | .bool b => .ok (.int (Whole.ofBool b))
  | .str s =>
    match (Decimal.readInt? (Text.trim s)).bind Whole.ofInt? with
    | some n => .ok (.int n)
    | none => .error (.unreadable .int s)
  | v => .error (.noConversion v)

def applyFloat : Value → Except CallFault Value
  | .str s =>
    match Decimal.readFloat? (Text.trim s) with
    | some x => .ok (.float x)
    | none => .error (.unreadable .float s)
  | .bool b => .ok (.float (if b then 1.0 else 0.0))
  | v => do return .float (← number .float v)

/-- Refuse more cells than the limit. -/
def checkSize (f : Builtin) (rows cols : Nat) : Except CallFault Unit :=
  if rows * cols ≤ maxCells then .ok () else .error (.tooLarge f rows cols)

/-- A list of `n` equal items, zeros unless said otherwise. -/
def applyVector (n : Value) (fill : Option Value) : Except CallFault Value := do
  let n ← count .genVector n
  checkSize .genVector 1 n
  return .list (List.replicate n (fill.getD (.int 0)))

/-- A list of equal rows.  An empty row counts as one cell. -/
def applyMatrix (rows cols : Value) (fill : Option Value) : Except CallFault Value := do
  let rows ← count .genMatrix rows
  let cols ← count .genMatrix cols
  checkSize .genMatrix rows (Nat.max cols 1)
  return .list (List.replicate rows (.list (List.replicate cols (fill.getD (.int 0)))))

/-! ## Mathematical functions -/

/-- A function from doubles to doubles. -/
def applyReal (f : Builtin) (g : Float → Float) (v : Value) : Except CallFault Value := do
  return .float (g (← number f v))

/-- A rounding of doubles to integers; integers stay as they are. -/
def applyRounding (f : Builtin) (g : Float → Float) : Value → Except CallFault Value
  | .int n => .ok (.int n)
  | v => do toInt f (g (← number f v))

def applySqrt (v : Value) : Except CallFault Value := do
  let x ← number .sqrt v
  if x < 0.0 then throw (.outsideDomain .sqrt)
  return .float x.sqrt

/-- The natural logarithm, or the one to a given base. -/
def applyLog (v : Value) (base? : Option Value) : Except CallFault Value := do
  let x ← number .log v
  if x ≤ 0.0 then throw (.outsideDomain .log)
  match base? with
  | none => return .float x.log
  | some base =>
    let b ← number .log base
    if b ≤ 0.0 || b == 1.0 then throw (.outsideDomain .log)
    return .float (x.log / b.log)

/-- A function from two doubles to doubles. -/
def applyReal₂ (f : Builtin) (g : Float → Float → Float) (a b : Value) :
    Except CallFault Value := do
  return .float (g (← number f a) (← number f b))

/-! ## Calls -/

/-- The result of a call. -/
def apply (f : Builtin) (args : List Value) : Except CallFault Value :=
  match f with
  | abs => do applyAbs (← one f args)
  | float => do applyFloat (← one f args)
  | genMatrix => do
    let (rows, cols, fill) ← twoOrThree f args
    applyMatrix rows cols fill
  | genVector => do
    let (n, fill) ← oneOrTwo f args
    applyVector n fill
  | int => do applyInt (← one f args)
  | len => do applyLen (← one f args)
  | max => extremum f .gt args
  | min => extremum f .lt args
  | print => .ok .none
  | round => do
    let (v, digits) ← oneOrTwo f args
    applyRound v digits
  | str => do return .str (← one f args).text
  | ceil => do applyRounding f Float.ceil (← one f args)
  | cos => do applyReal f Float.cos (← one f args)
  | exp => do applyReal f Float.exp (← one f args)
  | floor => do applyRounding f Float.floor (← one f args)
  | hypot => do
    let (a, b) ← two f args
    applyReal₂ f Double.hypot a b
  | log => do
    let (v, base) ← oneOrTwo f args
    applyLog v base
  | pow => do
    let (a, b) ← two f args
    applyReal₂ f Float.pow a b
  | sin => do applyReal f Float.sin (← one f args)
  | sqrt => do applySqrt (← one f args)
  | tan => do applyReal f Float.tan (← one f args)

/-- What a call prints: `print` writes its arguments, divided by spaces, on a
    line of their own. -/
def prints (f : Builtin) (args : List Value) : String :=
  match f with
  | print => " ".intercalate (args.map Value.text) ++ "\n"
  | _ => ""

end Flowline.Builtin
