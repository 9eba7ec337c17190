/-
  The shortest decimal text of a binary number.

  A positive double is `m · 2^q` with `m < 2^53`.  The reals that round to it
  form an interval around it, whose ends belong to it exactly when `m` is even.
  A decimal with the fewest digits in that interval, nearest to the double
  among those, is what is written; everything is decided in exact arithmetic
  on natural numbers.

  * `Binary.ofFloat x`: the decomposition of the magnitude of a finite `x`;
  * `Scaled`: a decimal `coefficient · 10^exponent`;
  * `Binary.shortest`: the fewest digits that read back.
-/

namespace Flowline.Decimal

/-! ## Binary magnitudes -/

/-- The magnitude `m · 2^q` of a double. -/
structure Binary where
  /-- The significand, below `2^53`. -/
  m : Nat
  /-- The binary exponent, at least `-1074`. -/
  q : Int
  /-- The magnitude is the least of its binade, so that the next lower double
      is only half as far away as the next higher one. -/
  narrow : Bool

/-- The least significand of a double that is not subnormal, `2^52`. -/
def leastNormal : Nat :=
  4503599627370496

/-- The magnitude of a finite double: the 52 low bits are its fraction, and the
    11 bits above them its exponent. -/
def Binary.ofFloat (x : Float) : Binary :=
  let bits := x.toBits.toNat
  let field : Nat := bits / leastNormal % 2048
  let fraction : Nat := bits % leastNormal
  if field = 0 then { m := fraction, q := -1074, narrow := false }
  else
    { m := fraction + leastNormal
      q := (field : Int) - 1075
      narrow := fraction == 0 && field != 1 }

/-- Whether the sign bit, the highest one, is set. -/
def isSigned (x : Float) : Bool :=
  x.toBits.toNat / leastNormal / 2048 == 1

/-! ## Decimal grids -/

/-- The decimal `coefficient · 10^exponent`. -/
structure Scaled where
  coefficient : Nat
  exponent : Int

/-- The number of decimal digits, none for zero. -/
def digitCount (n : Nat) : Nat :=
  if n = 0 then 0 else (Nat.toDigits 10 n).length

/-- The exponent of the leading decimal digit of the ratio of two positive
    numbers: the `e` with `10^e ≤ num / den < 10^(e+1)`. -/
def leadingExponent (num den : Nat) : Int :=
  if den ≤ num then (digitCount (num / den) : Int) - 1
  else -(digitCount ((den - 1) / num) : Int)

/-- The value, the two ends of its interval and their common denominator, all
    on the grid of step `10^k`. -/
structure Interval where
  low : Nat
  value : Nat
  high : Nat
  den : Nat
  /-- The ends belong to the interval. -/
  closed : Bool

/-- The interval of a binary magnitude, in units of one. -/
def Binary.interval (b : Binary) : Interval :=
  let up := Nat.pow 2 (b.q - 2).toNat
  { low := (4 * b.m - if b.narrow then 1 else 2) * up
    value := 4 * b.m * up
    high := (4 * b.m + 2) * up
    den := Nat.pow 2 (2 - b.q).toNat
    closed := b.m % 2 == 0 }

/-- The same interval in units of `10^k`. -/
def Interval.rescale (i : Interval) (k : Int) : Interval :=
  let up := Nat.pow 10 (-k).toNat
  { i with
    low := i.low * up
    value := i.value * up
    high := i.high * up
    den := i.den * Nat.pow 10 k.toNat }

/-- Whether a whole number of units lies in the interval. -/
def Interval.holds (i : Interval) (c : Nat) : Bool :=
  if i.closed then i.low ≤ c * i.den && c * i.den ≤ i.high
  else i.low < c * i.den && c * i.den < i.high

/-- The whole number in the interval that is nearest to the value, if one of
    the value's two neighbours is in it; of two equally near ones the higher. -/
def Interval.nearest? (i : Interval) : Option Nat :=
  let d := i.value / i.den
  match i.holds d, i.holds (d + 1) with
  | true, true =>
    if 2 * i.value < (2 * d + 1) * i.den then some d else some (d + 1)
  | true, false => some d
  | false, true => some (d + 1)
  | false, false => none

/-- The decimal with the fewest digits that reads back as the given magnitude;
    seventeen digits always suffice. -/
def Binary.shortest (b : Binary) : Scaled :=
  let i := b.interval
  let lead := leadingExponent i.value i.den
  let attempt (n : Nat) : Option Scaled :=
    let k := lead - n
    (i.rescale k).nearest?.map fun c => { coefficient := c, exponent := k }
  ((List.range 17).findSome? attempt).getD { coefficient := 0, exponent := 0 }

end Flowline.Decimal
