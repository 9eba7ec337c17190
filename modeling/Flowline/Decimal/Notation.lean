/-
  How a double is written.

  * `Format`: the decisions of a number format, as one record;
  * `Format.write`: the text of a double under these decisions;
  * `plain`: the format of this language, used for values, token texts and
    node labels alike.
-/
import Flowline.Decimal.Shortest

namespace Flowline.Decimal

/-- The decisions that fix the text of a double once its digits are known. -/
structure Format where
  /-- The least exponent of the leading digit that is written without an
      exponent. -/
  least : Int
  /-- The greatest exponent of the leading digit that is written without an
      exponent. -/
  greatest : Int
  /-- What stands between digits and exponent. -/
  mark : String
  notANumber : String
  infinite : String

/-- Decimal digits of a coefficient, without zeros at the end. -/
def significant (n : Nat) : List Char :=
  ((Nat.toDigits 10 n).reverse.dropWhile (· == '0')).reverse

/-- Digits with a point in them: the leading digit has weight `10^lead`, and
    at least one digit follows the point. -/
def positional (digits : List Char) (lead : Int) : List Char :=
  if lead < 0 then
    '0' :: '.' :: (List.replicate (-lead - 1).toNat '0' ++ digits)
  else
    let whole := lead.toNat + 1
    let fraction := digits.drop whole
    (digits.take whole ++ List.replicate (whole - digits.length) '0') ++
      '.' :: (if fraction.isEmpty then ['0'] else fraction)

/-- One digit before the point, the others (if any) after it, and the exponent. -/
def scientific (mark : String) (digits : List Char) (lead : Int) : List Char :=
  let fraction := digits.drop 1
  digits.take 1 ++ (if fraction.isEmpty then [] else '.' :: fraction) ++
    mark.toList ++ (toString lead).toList

/-- The text of a positive decimal. -/
def Format.magnitude (f : Format) (d : Scaled) : List Char :=
  let lead := d.exponent + (Nat.toDigits 10 d.coefficient).length - 1
  let digits := significant d.coefficient
  if f.least ≤ lead ∧ lead ≤ f.greatest then positional digits lead
  else scientific f.mark digits lead

/-- The text of a double. -/
def Format.write (f : Format) (x : Float) : String :=
  if x.isNaN then f.notANumber
  else
    let sign := if isSigned x then "-" else ""
    if x.isInf then sign ++ f.infinite
    else
      let b := Binary.ofFloat x
      if b.m = 0 then sign ++ "0.0"
      else sign ++ String.ofList (f.magnitude b.shortest)

/-- Numbers from `0.0001` up to sixteen digits before the point are written
    out with at least one digit after the point; others take an exponent after
    the letter `e`, without a plus sign. -/
def plain : Format where
  least := -4
  greatest := 15
  mark := "e"
  notANumber := "NaN"
  infinite := "inf"

/-- The text of a double in the format of this language. -/
def text (x : Float) : String :=
  plain.write x

end Flowline.Decimal
