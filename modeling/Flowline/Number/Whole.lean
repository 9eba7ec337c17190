/-
  Integers of the language: whole numbers of 64 bits, computed exactly.

  An operation is carried out on unbounded integers and its result is
  accepted if it fits, so nothing ever wraps.

  * `ofInt?`: the 64-bit integer with the given value, if there is one;
  * `add?`, `sub?`, `mul?`, `pow?`, `abs?`: exact results that fit;
  * `toFloat`: the nearest double.
-/

namespace Flowline.Whole

/-- One more than the greatest integer, `2^63`. -/
abbrev limit : Int :=
  9223372036854775808

/-- The 64-bit integer with the given value, if there is one. -/
def ofInt? (n : Int) : Option Int64 :=
  if (Int64.ofInt n).toInt = n then some (Int64.ofInt n) else none

def add? (a b : Int64) : Option Int64 :=
  ofInt? (a.toInt + b.toInt)

def sub? (a b : Int64) : Option Int64 :=
  ofInt? (a.toInt - b.toInt)

def mul? (a b : Int64) : Option Int64 :=
  ofInt? (a.toInt * b.toInt)

def abs? (a : Int64) : Option Int64 :=
  ofInt? a.toInt.natAbs

/-- Repeated squaring: `product` times the power of `base`, over the binary digits
    of the exponent from the lowest on, or nothing as soon as a factor or a
    product does not fit.  The square after the last digit is not taken. -/
def powLoop (product base : Int64) (exponent : Nat) : Option Int64 := do
  let product ← if exponent % 2 = 1 then mul? product base else some product
  if exponent / 2 = 0 then some product
  else
    let square ← mul? base base
    powLoop product square (exponent / 2)
termination_by exponent
decreasing_by omega

/-- The number of exponents of 32 bits, `2^32`. -/
abbrev exponentLimit : Nat :=
  4294967296

/-- The power with a natural exponent.  The bases zero, one and minus one have
    powers in range whatever the exponent: all that counts is whether it is zero,
    or even.  Of the other bases, an exponent beyond 32 bits is not tried. -/
def pow? (base : Int64) (exponent : Nat) : Option Int64 :=
  let b := base.toInt
  if b = 0 then some (if exponent = 0 then 1 else 0)
  else if b = 1 then some 1
  else if b = -1 then some (if exponent % 2 = 0 then 1 else -1)
  else if exponent < exponentLimit then powLoop 1 base exponent
  else none

/-- The double nearest to an integer. -/
def toFloat (n : Int64) : Float :=
  let magnitude := (UInt64.ofNat n.toInt.natAbs).toFloat
  if n.toInt < 0 then -magnitude else magnitude

/-- The text of an integer. -/
def text (n : Int64) : String :=
  toString n.toInt

/-- One for true, zero for false. -/
def ofBool (b : Bool) : Int64 :=
  if b then 1 else 0

theorem ofInt?_eq_some_iff {n : Int} {a : Int64} : ofInt? n = some a ↔ a.toInt = n := by
  unfold ofInt?
  constructor
  · intro h
    split at h
    next hn =>
      simp only [Option.some.injEq] at h
      rw [← h, hn]
    next => simp at h
  · rintro rfl
    rw [Int64.ofInt_toInt, if_pos rfl]

/-- The integers that have 64 bits are those from `-2^63` up to `2^63 - 1`. -/
theorem ofInt?_eq_none_iff {n : Int} : ofInt? n = none ↔ n < -limit ∨ limit ≤ n := by
  constructor
  · intro h
    rcases Int.lt_or_le n (-limit) with hlo | hlo
    · exact .inl hlo
    rcases Int.lt_or_le n limit with hhi | hhi
    · rw [ofInt?_eq_some_iff.2 (Int64.toInt_ofInt_of_le hlo hhi)] at h
      cases h
    · exact .inr hhi
  · intro h
    cases ha : ofInt? n with
    | none => rfl
    | some a =>
      have hn := ofInt?_eq_some_iff.1 ha
      have hlo := a.le_toInt
      have hhi := a.toInt_lt
      simp only [limit] at h
      omega

end Flowline.Whole
