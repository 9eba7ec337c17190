/-
  Comparisons and truth of values.

  Numbers and truth values are equal when they count as the same double, lists
  when their items are equal, and values of different classes never.  Two
  integers are ordered exactly, strings by their characters, and a number
  against another kind of number as doubles; a float that is not a number is
  neither less nor greater than anything.

  * `Value.equal`, `Value.ordering`: equality and order;
  * `Comparison.apply`: the comparison operators;
  * `Value.truth`: the truth of a condition.
-/
import Flowline.Value.Arith

namespace Flowline

namespace Value

/-! ## Equality -/

mutual
/-- Equality across kinds. -/
def equal : Value → Value → Bool
  | list xs, list ys => equalAll xs ys
  | str s, str t => s == t
  | none, none => true
  | error s, error t => s == t
  | a, b =>
    match a.number?, b.number? with
    | some p, some q => p == q
    | _, _ => false

/-- Equality of lists, item by item. -/
def equalAll : List Value → List Value → Bool
  | [], [] => true
  | x :: xs, y :: ys => equal x y && equalAll xs ys
  | _, _ => false
end

/-! ## Order -/

/-- The order of two doubles, if both are numbers. -/
def floatOrdering (p q : Float) : Option Ordering :=
  if p < q then some .lt
  else if p == q then some .eq
  else if q < p then some .gt
  else Option.none

/-- The order of two values, absent if one of them is not a number. -/
def ordering (a b : Value) : Except OpFault (Option Ordering) :=
  match a, b with
  | int x, int y => .ok (some (compareOfLessAndEq x.toInt y.toInt))
  | str s, str t => .ok (some (compareOfLessAndEq s t))
  | bool x, bool y =>
    .ok (some (compareOfLessAndEq (Whole.ofBool x).toInt (Whole.ofBool y).toInt))
  | a, b =>
    match a.number?, b.number? with
    | some p, some q => .ok (floatOrdering p q)
    | _, _ => .error (.incomparable a b)

end Value

/-- Whether an order satisfies a comparison; equality and its negation are not
    decided by the order alone. -/
def Comparison.admits : Comparison → Ordering → Bool
  | gt, o => o == .gt
  | lt, o => o == .lt
  | ge, o => o != .lt
  | le, o => o != .gt
  | eq, o => o == .eq
  | ne, o => o != .eq

/-- The comparison operators on values.  What a failed call left behind
    compares with nothing. -/
def Comparison.apply (o : Comparison) (a b : Value) : Except OpFault Bool :=
  if a.isError || b.isError then .error (.incomparable a b)
  else
    match o with
    | eq => .ok (a.equal b)
    | ne => .ok (!a.equal b)
    | o => do
      match ← a.ordering b with
      | some ord => return o.admits ord
      | none => return false

/-- The truth of a condition.  What a failed call left behind has none. -/
def Value.truth : Value → Except OpFault Bool
  | error message => .error (.errorAsCondition message)
  | v => .ok v.isTruthy

end Flowline
