/-
  The built-in functions and their faults.

  * `Builtin`: the core functions and the mathematical ones, with their names;
  * `CallFault`: why a built-in function refuses its arguments.
-/
import Flowline.Value.Compare

namespace Flowline

/-- The built-in functions. -/
inductive Builtin where
  | abs
  | float
  | genMatrix
  | genVector
  | int
  | len
  | max
  | min
  | print
  | round
  | str
  | ceil
  | cos
  | exp
  | floor
  | hypot
  | log
  | pow
  | sin
  | sqrt
  | tan
  deriving DecidableEq

namespace Builtin

/-- The name under which a function is called. -/
def name : Builtin → String
  | abs => "abs"
  | float => "float"
  | genMatrix => "gen_matrix"
  | genVector => "gen_vector"
  | int => "int"
  | len => "len"
  | max => "max"
  | min => "min"
  | print => "print"
  | round => "round"
  | str => "str"
  | ceil => "ceil"
  | cos => "cos"
  | exp => "exp"
  | floor => "floor"
  | hypot => "hypot"
  | log => "log"
  | pow => "pow"
  | sin => "sin"
  | sqrt => "sqrt"
  | tan => "tan"

/-- The core functions. -/
def core : List Builtin :=
  [abs, float, genMatrix, genVector, int, len, max, min, print, round, str]

/-- The mathematical functions. -/
def math : List Builtin :=
  [ceil, cos, exp, floor, hypot, log, pow, sin, sqrt, tan]

/-- The largest number of cells that `gen_vector` and `gen_matrix` build,
    `2^24`. -/
def maxCells : Nat :=
  16777216

end Builtin

/-! ## Faults -/

/-- Why a built-in function refuses its arguments. -/
inductive CallFault where
  | arity (f : Builtin) (expected got : Nat)
  | arityRange (f : Builtin) (least most got : Nat)
  | notNumber (f : Builtin) (v : Value)
  | notCount (f : Builtin) (v : Value)
  | absOverflow
  | emptySequence (f : Builtin)
  /-- Two items have no order. -/
  | unordered (f : Builtin) (fault : OpFault)
  | digitsOutOfRange
  | digitsNotInt (v : Value)
  /-- A double that is no integer of 64 bits. -/
  | noInt (f : Builtin) (x : Float)
  | noLength (v : Value)
  /-- A text that spells no number. -/
  | unreadable (f : Builtin) (s : String)
  | noConversion (v : Value)
  | tooLarge (f : Builtin) (rows cols : Nat)
  | outsideDomain (f : Builtin)

/-- What a fault says about the function. -/
def CallFault.message : CallFault → String
  | arity f expected got => s!"{f.name}() expects {expected} argument(s), got {got}"
  | arityRange f least most got =>
    s!"{f.name}() expects {least} to {most} arguments, got {got}"
  | notNumber f v => s!"{f.name}() expects a number, got {v.typeName}"
  | notCount f v => s!"{f.name}() expects a non-negative int, got {v.text}"
  | absOverflow => "abs() overflow"
  | emptySequence f => s!"{f.name}() arg is an empty sequence"
  | unordered f fault => s!"{f.name}(): {fault.message}"
  | digitsOutOfRange => "round() digits out of range"
  | digitsNotInt v => s!"round() digits must be int, got {v.typeName}"
  | noInt f x => s!"{f.name}() cannot convert {Decimal.text x} to int"
  | noLength v => s!"len() expects str or list, got {v.typeName}"
  | unreadable f s => s!"{f.name}() cannot parse '{s}'"
  | noConversion v => s!"int() cannot convert {v.typeName}"
  | tooLarge f rows cols =>
    s!"{f.name}() size {rows}x{cols} exceeds the limit of {Builtin.maxCells} elements"
  | outsideDomain f => s!"{f.name}() math domain error"

/-- A fault as an error. -/
def CallFault.toError (f : CallFault) : Error :=
  { kind := .callFailure, message := f.message }

end Flowline
