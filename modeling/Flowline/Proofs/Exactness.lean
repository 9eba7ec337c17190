/-
  The operators on integers and truth values.

  * `Value.integer?`: the integer that a value counts as;
  * `Arith.Exact n r`: the outcome `r` is the integer `n` if that fits into 64
    bits, and an overflow if it does not;
  * `Value.powFloat_zero`: zero has no power with a negative exponent, however
    large;
  * `Arith.exact_of_integers`: `+`, `-`, `*` and `^` are exact, or they overflow.
-/
import Flowline.Proofs.Integers
import Flowline.Proofs.Doubles
import Mathlib

namespace Flowline

/-! ## Outcomes -/

/-- The integer that a value counts as: itself, or zero or one for a truth value. -/
def Value.integer? : Value → Option Int64
  | int n => some n
  | bool b => some (Whole.ofBool b)
  | _ => Option.none

/-- An operator fails with an error of the given kind. -/
def Arith.Fails (kind : ErrorKind) (r : Except OpFault Value) : Prop :=
  ∃ f : OpFault, r = .error f ∧ f.kind = kind

/-- The outcome is the integer `n` if that fits into 64 bits, and an overflow if it
    does not. -/
structure Arith.Exact (n : Int) (r : Except OpFault Value) : Prop where
  fits : -2 ^ 63 ≤ n → n ≤ 2 ^ 63 - 1 → ∃ k : Int64, k.toInt = n ∧ r = .ok (.int k)
  overflows : n < -2 ^ 63 ∨ 2 ^ 63 - 1 < n → Arith.Fails .overflow r

theorem Arith.exact_ofExact (o : Arith) (n : Int) :
    Arith.Exact n (Value.ofExact o (Whole.ofInt? n)) where
  fits hlo hhi := by
    obtain ⟨k, hk, hsome⟩ := Whole.exists_ofInt?_of_inRange (n := n)
      ⟨by simpa [Whole.limit] using hlo, by rw [Whole.limit]; omega⟩
    exact ⟨k, hk, by rw [hsome]; rfl⟩
  overflows h := by
    rw [Whole.ofInt?_eq_none_iff.2 (by rw [Whole.limit]; omega)]
    exact ⟨_, rfl, rfl⟩

/-! ## Operators -/

section
variable {a b : Value} {x y : Int64} (ha : a.integer? = some x) (hb : b.integer? = some y)
include ha hb

theorem Value.promote_of_integer? : Value.promote a b = (.int x, .int y) := by
  cases a <;> cases ha <;> cases b <;> cases hb <;> rfl

theorem IntOp.apply_of_integer? (o : IntOp) :
    o.arith.apply a b = o.arith.apply (.int x) (.int y) := by
  cases o <;>
    simp only [IntOp.arith, Arith.apply, Value.add, Value.sub, Value.mul,
      Value.promote_of_integer? ha hb, Value.promote_int]

theorem Arith.apply_power_of_integer? :
    Arith.power.apply a b = Arith.power.apply (.int x) (.int y) := by
  simp only [Arith.apply, Value.pow, Value.promote_of_integer? ha hb, Value.promote_int]

end

/-- No power with a negative exponent is an integer. -/
theorem Value.powFloat_ne_int (a b : Value) (k : Int64) : Value.powFloat a b ≠ .ok (.int k) := by
  rw [Value.powFloat]
  split
  next =>
    split
    next => exact nofun
    next => split <;> exact nofun
  next => exact nofun

/-- A power with a negative exponent is taken on doubles. -/
theorem Arith.apply_power_neg (x y : Int64) (hy : y.toInt < 0) :
    Arith.power.apply (.int x) (.int y) = Value.powFloat (.int x) (.int y) := by
  rw [Arith.apply, Value.pow, Value.promote_int]
  simp only [if_neg hy.not_ge]

/-- Zero has no power with a negative exponent, however large: no negative integer
    is rounded to zero. -/
theorem Value.powFloat_zero {x y : Int64} (hx : x.toInt = 0) (hy : y.toInt < 0) :
    Value.powFloat (.int x) (.int y) = .error .zeroToNegative := by
  have hzero : (Whole.toFloat 0 == 0.0) = true := by decide +kernel
  obtain rfl : x = 0 := Int64.toInt_inj.1 hx
  simp only [Value.powFloat, Value.toFloat?, hzero, Whole.toFloat_lt_zero hy]
  rfl

/-- **The operators on integers and truth values are exact, or they overflow.**  A
    sum, a difference, a product and a power with a natural exponent are the exact
    results that fit into 64 bits; any other result is an overflow.  A power with a
    negative exponent is never an integer, and that of zero is a division by
    zero. -/
theorem Arith.exact_of_integers {a b : Value} {x y : Int64} (ha : a.integer? = some x)
    (hb : b.integer? = some y) :
    (Arith.Exact (x.toInt + y.toInt) (Arith.plus.apply a b) ∧
      Arith.Exact (x.toInt - y.toInt) (Arith.minus.apply a b) ∧
      Arith.Exact (x.toInt * y.toInt) (Arith.times.apply a b)) ∧
    (0 ≤ y.toInt → Arith.Exact (x.toInt ^ y.toInt.toNat) (Arith.power.apply a b)) ∧
    (y.toInt < 0 → (x.toInt = 0 → Arith.Fails .divisionByZero (Arith.power.apply a b)) ∧
      ∀ k : Int64, Arith.power.apply a b ≠ .ok (.int k)) := by
  have hjoin (o : IntOp) : Arith.Exact (o.apply x.toInt y.toInt) (o.arith.apply a b) := by
    rw [o.apply_of_integer? ha hb, o.apply_int]
    exact Arith.exact_ofExact _ _
  refine ⟨⟨hjoin .plus, hjoin .minus, hjoin .times⟩, ?_⟩
  rw [Arith.apply_power_of_integer? ha hb]
  constructor
  · intro hy
    rw [Arith.apply_power_int x y hy]
    exact Arith.exact_ofExact _ _
  · intro hy
    rw [Arith.apply_power_neg x y hy]
    exact ⟨fun hx => ⟨_, Value.powFloat_zero hx hy, rfl⟩, Value.powFloat_ne_int _ _⟩

/-- The least integer is a power: of its magnitude only the negative one fits.  And
    a truth value counts as zero next to the most negative exponent. -/
theorem Arith.exact_of_integers_least :
    ((Value.int (-2)).integer? = some (-2) ∧ (Value.int 63).integer? = some 63 ∧
      Arith.power.apply (.int (-2)) (.int 63) = .ok (.int Int64.minValue)) ∧
    ((Value.bool false).integer? = some 0 ∧
      (Value.int Int64.minValue).integer? = some Int64.minValue ∧
      Arith.Fails .divisionByZero (Arith.power.apply (.bool false) (.int Int64.minValue))) := by
  refine ⟨⟨rfl, rfl, ?_⟩, rfl, rfl, ?_⟩
  · obtain ⟨-, hpower, -⟩ := Arith.exact_of_integers (a := .int (-2)) (b := .int 63) rfl rfl
    obtain ⟨k, hk, hresult⟩ := (hpower (by decide)).fits (by decide) (by decide)
    obtain rfl : k = Int64.minValue := Int64.toInt_inj.1 hk
    exact hresult
  · obtain ⟨-, -, hneg⟩ :=
      Arith.exact_of_integers (a := .bool false) (b := .int Int64.minValue) rfl rfl
    exact (hneg (by decide)).1 rfl

end Flowline
