/-
  Arithmetic on integers is exact, or it overflows.

  * `Whole.InRange`: the integers that fit into 64 bits;
  * `Whole.powLoop_eq`: repeated squaring meets a factor or a product that does
    not fit only on the way to a power that does not;
  * `Whole.pow?_eq`: the bases and exponents that are set apart lose no power
    that fits;
  * `IntOp`: the operators `+`, `-` and `*`, on unbounded integers;
  * `IntOp.apply_int`, `Arith.apply_power_int`: the operators on integers are
    the exact results that fit.
-/
import Flowline.Value.Arith
import Mathlib.Algebra.Order.Ring.Int
import Mathlib.Algebra.Ring.Parity

namespace Flowline

/-! ## Range -/

/-- An integer fits into 64 bits. -/
def Whole.InRange (n : Int) : Prop :=
  -Whole.limit ≤ n ∧ n < Whole.limit

theorem Whole.inRange_toInt (a : Int64) : Whole.InRange a.toInt :=
  ⟨a.le_toInt, a.toInt_lt⟩

theorem Whole.exists_ofInt?_of_inRange {n : Int} (h : Whole.InRange n) :
    ∃ a : Int64, a.toInt = n ∧ Whole.ofInt? n = some a := by
  have ha : (Int64.ofInt n).toInt = n := Int64.toInt_ofInt_of_le h.1 h.2
  exact ⟨Int64.ofInt n, ha, Whole.ofInt?_eq_some_iff.2 ha⟩

theorem Whole.ofInt?_eq_none {n : Int} (h : ¬ Whole.InRange n) : Whole.ofInt? n = none := by
  rw [Whole.ofInt?_eq_none_iff]
  rw [Whole.InRange, not_and_or, not_le, not_lt] at h
  exact h

/-! ## Powers -/

/-- What does not fit does not fit any more when it is multiplied by a factor
    beyond one in magnitude. -/
theorem Whole.not_inRange_mul {m n : Int} (hm : ¬ Whole.InRange m) (hn : 2 ≤ n.natAbs) :
    ¬ Whole.InRange (m * n) := by
  have hlarge : 2 ^ 63 ≤ m.natAbs := by
    rw [Whole.InRange, Whole.limit] at hm
    omega
  have hmul : 2 ^ 63 * 2 ≤ (m * n).natAbs := by
    rw [Int.natAbs_mul]
    exact Nat.mul_le_mul hlarge hn
  rw [Whole.InRange, Whole.limit]
  omega

/-- A square that does not fit exceeds the limit, which is no square, so no
    multiple of it fits. -/
theorem Whole.not_inRange_mul_square {m b : Int} (hm : m ≠ 0) (hb : ¬ Whole.InRange (b * b)) :
    ¬ Whole.InRange (m * (b * b)) := by
  have hroot : 3037000500 ≤ b.natAbs := by
    by_contra hsmall
    have hsquare : b.natAbs * b.natAbs ≤ 3037000499 * 3037000499 :=
      Nat.mul_le_mul (by omega) (by omega)
    rw [← Int.natAbs_mul] at hsquare
    rw [Whole.InRange, Whole.limit] at hb
    omega
  have hmul : 1 * (3037000500 * 3037000500) ≤ (m * (b * b)).natAbs := by
    rw [Int.natAbs_mul, Int.natAbs_mul]
    exact Nat.mul_le_mul (Int.natAbs_pos.2 hm) (Nat.mul_le_mul hroot hroot)
  rw [Whole.InRange, Whole.limit]
  omega

/-- A product and what is computed from it, when a product that does not fit belongs
    to a result that does not. -/
theorem Whole.mul?_bind {a b : Int64} {f : Int64 → Option Int64} {n : Int}
    (hfit : ∀ p : Int64, p.toInt = a.toInt * b.toInt → f p = Whole.ofInt? n)
    (hover : ¬ Whole.InRange (a.toInt * b.toInt) → ¬ Whole.InRange n) :
    (Whole.mul? a b >>= f) = Whole.ofInt? n := by
  rw [Whole.mul?]
  by_cases h : Whole.InRange (a.toInt * b.toInt)
  · obtain ⟨p, hp, hsome⟩ := Whole.exists_ofInt?_of_inRange h
    rw [hsome]
    exact hfit p hp
  · rw [Whole.ofInt?_eq_none h, Whole.ofInt?_eq_none (hover h)]
    rfl

/-- **Repeated squaring loses no power that fits.** -/
theorem Whole.powLoop_eq {product base : Int64} (k : Nat) (hp : product.toInt ≠ 0)
    (hb : 2 ≤ base.toInt.natAbs) :
    Whole.powLoop product base k = Whole.ofInt? (product.toInt * base.toInt ^ k) := by
  induction k using Nat.strong_induction_on generalizing product base with
  | _ k ih =>
  have hb₀ : base.toInt ≠ 0 := Int.natAbs_pos.1 (by omega)
  have hsq : 2 ≤ (base.toInt * base.toInt).natAbs := by
    rw [Int.natAbs_mul]
    exact Nat.le_trans hb (Nat.le_mul_of_pos_left _ (by omega))
  -- the digits above the lowest one go over the square
  have hrest (p : Int64) (hp : p.toInt ≠ 0) :
      (if k / 2 = 0 then some p else do
        let square ← Whole.mul? base base
        Whole.powLoop p square (k / 2)) =
        Whole.ofInt? (p.toInt * (base.toInt * base.toInt) ^ (k / 2)) := by
    split
    next hk => rw [hk, pow_zero, mul_one, Whole.ofInt?_eq_some_iff.2 rfl]
    next hk =>
      refine Whole.mul?_bind (fun square hsquare => ?_) (fun hover => ?_)
      · rw [ih (k / 2) (by omega) hp (by rwa [hsquare]), hsquare]
      · obtain ⟨j, hj⟩ := Nat.exists_eq_succ_of_ne_zero hk
        rw [hj, pow_succ, ← mul_assoc]
        exact Whole.not_inRange_mul_square
          (mul_ne_zero hp (pow_ne_zero _ (mul_ne_zero hb₀ hb₀))) hover
  have hdigits : base.toInt ^ k = base.toInt ^ (k % 2) * (base.toInt * base.toInt) ^ (k / 2) := by
    rw [← pow_two, ← pow_mul, ← pow_add, Nat.mod_add_div]
  rw [Whole.powLoop, hdigits]
  split
  next hodd =>
    rw [hodd, pow_one, ← mul_assoc]
    refine Whole.mul?_bind (fun p hprod => ?_) (fun hover => ?_)
    · rw [← hprod]
      exact hrest p (hprod ▸ mul_ne_zero hp hb₀)
    · rcases Nat.eq_zero_or_pos (k / 2) with hk | hk
      · rwa [hk, pow_zero, mul_one]
      · refine Whole.not_inRange_mul hover ?_
        rw [Int.natAbs_pow]
        exact Nat.le_trans hsq (Nat.le_self_pow hk.ne' _)
  next heven =>
    rw [Nat.mod_two_ne_one.1 heven, pow_zero, one_mul]
    exact hrest product hp

/-- A base beyond one in magnitude leaves the range with its sixty-fourth power
    at the latest. -/
theorem Whole.not_inRange_pow {b : Int} {k : Nat} (hb : 2 ≤ b.natAbs) (hk : 64 ≤ k) :
    ¬ Whole.InRange (b ^ k) := by
  have hgrow : 2 ^ 64 ≤ (b ^ k).natAbs := by
    rw [Int.natAbs_pow]
    calc 2 ^ 64 ≤ 2 ^ k := Nat.pow_le_pow_right (by decide) hk
      _ ≤ b.natAbs ^ k := Nat.pow_le_pow_left hb k
  rw [Whole.InRange, Whole.limit]
  omega

/-- **A power is exact, or it does not fit.** -/
theorem Whole.pow?_eq (base : Int64) (k : Nat) :
    Whole.pow? base k = Whole.ofInt? (base.toInt ^ k) := by
  rw [Whole.pow?]
  split
  next h =>
    rw [h]
    rcases Nat.eq_zero_or_pos k with rfl | hk
    · rfl
    · rw [if_neg (by omega), zero_pow (by omega)]
      rfl
  next h₀ =>
    split
    next h =>
      rw [h, one_pow]
      rfl
    next h₁ =>
      split
      next h =>
        rw [h]
        rcases Nat.even_or_odd k with hk | hk
        · rw [if_pos (Nat.even_iff.1 hk), hk.neg_one_pow]
          rfl
        · rw [if_neg (by rw [Nat.odd_iff.1 hk]; decide), hk.neg_one_pow]
          rfl
      next h₂ =>
        split
        next =>
          have hone : (1 : Int64).toInt = 1 := rfl
          rw [Whole.powLoop_eq k (by decide) (by omega), hone, one_mul]
        next hk =>
          rw [Whole.exponentLimit] at hk
          rw [Whole.ofInt?_eq_none (Whole.not_inRange_pow (by omega) (by omega))]

/-! ## Operators -/

/-- The operators that join integers to integers. -/
inductive IntOp where
  | plus
  | minus
  | times

/-- The operator of the language. -/
def IntOp.arith : IntOp → Arith
  | plus => .plus
  | minus => .minus
  | times => .times

/-- The operator on unbounded integers. -/
def IntOp.apply : IntOp → Int → Int → Int
  | plus, a, b => a + b
  | minus, a, b => a - b
  | times, a, b => a * b

@[simp] theorem Value.promote_int (a b : Int64) :
    Value.promote (.int a) (.int b) = (.int a, .int b) :=
  rfl

/-- Two integers are joined exactly, or they overflow. -/
theorem IntOp.apply_int (o : IntOp) (a b : Int64) :
    o.arith.apply (.int a) (.int b) =
      Value.ofExact o.arith (Whole.ofInt? (o.apply a.toInt b.toInt)) := by
  cases o <;> rfl

/-- An integer is raised to a natural power exactly, or it overflows. -/
theorem Arith.apply_power_int (a b : Int64) (hb : 0 ≤ b.toInt) :
    Arith.power.apply (.int a) (.int b) =
      Value.ofExact .power (Whole.ofInt? (a.toInt ^ b.toInt.toNat)) := by
  rw [Arith.apply, Value.pow, Value.promote_int]
  simp only [if_pos hb, Whole.pow?_eq]

end Flowline
