/-
  How a number is read from a text.

  A decimal is digits with at most one point among them and at least one digit,
  followed by an optional exponent; a whole number is digits alone.  Both take
  an optional sign.  A decimal is rounded to the nearest double, a half to the
  even neighbour.

  * `ofDigits`: the number that digits spell;
  * `nearest`: the double nearest to `coefficient · 10^exponent`;
  * `readFloat?`: decimals, `inf`, `infinity` and `nan` in any case;
  * `readInt?`: whole numbers of any size.
-/
import Flowline.Decimal.Shortest

namespace Flowline.Decimal

/-! ## Digits -/

/-- The number that decimal digits spell. -/
def ofDigits (ds : List Char) : Nat :=
  ds.foldl (fun n c => 10 * n + (c.toNat - '0'.toNat)) 0

/-- The double nearest to `coefficient · 10^exponent`.  Beyond three hundred
    and ten digits before the point there is only infinity, and past three
    hundred and thirty zeros after it only zero. -/
def nearest (coefficient : Nat) (exponent : Int) : Float :=
  let lead := exponent + digitCount coefficient
  if coefficient = 0 ∨ lead < -330 then 0.0
  else if 310 < lead then 1.0 / 0.0
  else Float.ofScientific coefficient (exponent < 0) exponent.natAbs

/-- The double that digits with an optional fraction spell. -/
def ofFraction (whole fraction : List Char) : Float :=
  nearest (ofDigits (whole ++ fraction)) (-fraction.length)

/-! ## Signs, decimals and whole numbers -/

/-- Split off an optional sign; `true` stands for minus. -/
def splitSign : List Char → Bool × List Char
  | '-' :: cs => (true, cs)
  | '+' :: cs => (false, cs)
  | cs => (false, cs)

/-- A non-empty run of digits and nothing else. -/
def readDigits? (cs : List Char) : Option Nat :=
  if cs ≠ [] ∧ cs.all Char.isDigit then some (ofDigits cs) else none

/-- A whole number with an optional sign. -/
def readInt? (s : String) : Option Int :=
  match splitSign s.toList with
  | (true, cs) => (readDigits? cs).map fun n => -(n : Int)
  | (false, cs) => (readDigits? cs).map fun n => (n : Int)

/-- The exponent at the end of a decimal: nothing, or the letter `e` in either
    case and a signed run of digits. -/
def readExponent? : List Char → Option Int
  | [] => some 0
  | c :: cs =>
    if c = 'e' ∨ c = 'E' then readInt? (String.ofList cs) else none

/-- A decimal without sign. -/
def readMagnitude? (cs : List Char) : Option Float :=
  let whole := cs.takeWhile Char.isDigit
  let rest := cs.dropWhile Char.isDigit
  let (fraction, rest) :=
    match rest with
    | '.' :: rest => (rest.takeWhile Char.isDigit, rest.dropWhile Char.isDigit)
    | rest => ([], rest)
  if whole = [] ∧ fraction = [] then none
  else
    (readExponent? rest).map fun e =>
      nearest (ofDigits (whole ++ fraction)) (e - fraction.length)

/-- A double with an optional sign. -/
def readFloat? (s : String) : Option Float :=
  let (minus, cs) := splitSign s.toList
  let magnitude :=
    match String.ofList (cs.map Char.toLower) with
    | "inf" | "infinity" => some (1.0 / 0.0)
    | "nan" => some (0.0 / 0.0)
    | _ => readMagnitude? cs
  magnitude.map fun x => if minus then -x else x

end Flowline.Decimal
