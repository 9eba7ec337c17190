/-
  Operations on doubles that are fixed by a rule of their own.

  * `trunc`, `fraction`: the part before the point, and what is left;
  * `roundEven`: the nearest whole number, a half to the even one;
  * `powInt`: an integer power by repeated squaring, rounded at every step;
  * `hypot`: the length of a hypotenuse, rounded once;
  * `toWhole?`: the 64-bit integer equal to a whole double.
-/
import Flowline.Decimal.Shortest

namespace Flowline.Double

/-! ## Parts and rounding -/

/-- The part before the point, with its sign. -/
def trunc (x : Float) : Float :=
  if x < 0 then x.ceil else x.floor

/-- What is left without the part before the point. -/
def fraction (x : Float) : Float :=
  x - trunc x

/-- The nearest whole number, a half to the even one. -/
def roundEven (x : Float) : Float :=
  if (fraction x).abs == 0.5 then 2.0 * (x / 2.0).round else x.round

/-- The integer equal to a whole double, if it has 64 bits. -/
def toWhole? (x : Float) : Option Int64 :=
  if x.isFinite && -9223372036854775808.0 ≤ x && x < 9223372036854775808.0 then
    some x.toInt64
  else none

/-! ## Integer powers -/

/-- Repeated squaring: `r` times the power of `a`, over the binary digits of
    the exponent from the lowest on, as many as the first argument allows. -/
def powLoop : Nat → Float → Float → Nat → Float
  | 0, r, _, _ => r
  | fuel + 1, r, a, n =>
    let r := if n % 2 = 1 then r * a else r
    if n / 2 = 0 then r else powLoop fuel r (a * a) (n / 2)

/-- The power with an integer exponent; a negative one gives the reciprocal.
    The exponent `n` has `log2 n + 1` binary digits. -/
def powInt (a : Float) (n : Int) : Float :=
  let r := powLoop (n.natAbs.log2 + 1) 1.0 a n.natAbs
  if n < 0 then 1.0 / r else r

/-! ## Hypotenuse -/

/-- The whole part of the square root. -/
def isqrt (n : Nat) : Nat :=
  if n = 0 then 0
  else
    let r := 2 * isqrt (n / 4)
    if (r + 1) * (r + 1) ≤ n then r + 1 else r
termination_by n
decreasing_by omega

/-- The double nearest to `n / 2^k`. -/
def ofDyadic (n k : Nat) : Float :=
  Float.ofScientific (n * Nat.pow 5 k) true k

/-- The length of the hypotenuse over two finite sides.  The sum of the squares
    is exact, its root is taken to sixty-four more bits than are kept, and one
    more bit records whether anything was cut off. -/
def hypotFinite (x y : Float) : Float :=
  let a := Decimal.Binary.ofFloat x
  let b := Decimal.Binary.ofFloat y
  let q := min a.q b.q
  let m := a.m * Nat.pow 2 (a.q - q).toNat
  let n := b.m * Nat.pow 2 (b.q - q).toNat
  let wide := (m * m + n * n) * Nat.pow 4 64
  let root := isqrt wide
  let sticky := 2 * root + if root * root = wide then 0 else 1
  ofDyadic (sticky * Nat.pow 2 q.toNat) (65 + (-q).toNat)

/-- The length of the hypotenuse: infinite if one side is, even if the other
    is not a number. -/
def hypot (x y : Float) : Float :=
  if x.isInf || y.isInf then 1.0 / 0.0
  else if x.isNaN || y.isNaN then 0.0 / 0.0
  else hypotFinite x y

end Flowline.Double
