/-
  Values of the language.

  * `Value`: integers, floats, truth values, strings, lists, the absent value,
    and the value that a failed call leaves behind;
  * `Value.text`: how a value is printed;
  * `Value.isTruthy`, `Value.toFloat?`: its two views as a condition and as a
    number.
-/
import Flowline.Decimal.Notation
import Flowline.Number.Whole

namespace Flowline

/-- A value. -/
inductive Value where
  | int (n : Int64)
  | float (x : Float)
  | bool (b : Bool)
  | str (s : String)
  | list (items : List Value)
  /-- The absent value, as of a conditional that takes no branch. -/
  | none
  /-- What a failed call leaves behind when its fault does not end the line. -/
  | error (message : String)

namespace Value

/-- The name of the type of a value. -/
def typeName : Value → String
  | int _ => "int"
  | float _ => "float"
  | bool _ => "bool"
  | str _ => "str"
  | list _ => "list"
  | none => "None"
  | error _ => "error"

/-- Whether a value counts as true: numbers other than zero, and strings and
    lists that are not empty. -/
def isTruthy : Value → Bool
  | int n => n != 0
  | float x => x != 0.0
  | bool b => b
  | str s => s != ""
  | list items => !items.isEmpty
  | none | error _ => false

/-- The number that an integer or a float is. -/
def toFloat? : Value → Option Float
  | int n => some (Whole.toFloat n)
  | float x => some x
  | _ => Option.none

/-- Whether a value is what a failed call left behind. -/
def isError : Value → Bool
  | error _ => true
  | _ => false

/-! ## Texts -/

mutual
/-- The text of a value, with the given quote around a string. -/
def render (quote : String) : Value → String
  | int n => Whole.text n
  | float x => Decimal.text x
  | bool b => if b then "True" else "False"
  | str s => quote ++ s ++ quote
  | list [] => "[]"
  | list (v :: vs) => renderRest ("[" ++ v.render "'") vs
  | none => "None"
  | error _ => "Error"

/-- The text of a list from its second item on, after the text before it. -/
def renderRest (before : String) : List Value → String
  | [] => before ++ "]"
  | v :: vs => renderRest (before ++ ", " ++ v.render "'") vs
end

/-- The text of a value: a string by itself, and between quotes in a list. -/
def text (v : Value) : String :=
  v.render ""

/-! ## Sameness -/

mutual
/-- Whether two values are the same in kind and content. -/
def same : Value → Value → Bool
  | int m, int n => m == n
  | float x, float y => x == y
  | bool a, bool b => a == b
  | str s, str t => s == t
  | list xs, list ys => sameAll xs ys
  | none, none => true
  | error s, error t => s == t
  | _, _ => false

/-- Whether two lists of values are the same, value by value. -/
def sameAll : List Value → List Value → Bool
  | [], [] => true
  | x :: xs, y :: ys => same x y && sameAll xs ys
  | _, _ => false
end

end Value

end Flowline
