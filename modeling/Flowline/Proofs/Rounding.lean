/-
  The double nearest to an integer, as the integer grows.

  An integer with more bits than a mantissa is cut to the width of a mantissa,
  with one bit for the first digit cut off and one for the rest.  What is left
  is weighed in quarters; a greater integer weighs no less, and rounds to no
  less.  So integers that are ordered keep their order as doubles, if perhaps
  not strictly.

  * `Double.weight`, `Double.roundedMantissa_mono`: what is cut off is rounded
    to no less if it weighs no less;
  * `Whole.rank_toFloat_mono`: a greater integer counts as no lesser double;
  * `Whole.rank_toFloat_lt`, `Whole.floatOrdering_toFloat`: next to a small
    integer the order stays strict.
-/
import Flowline.Proofs.Doubles

namespace Flowline

open Float.Model.UnpackedFloat

namespace Double

/-! ## Rounding a mantissa -/

/-- A mantissa with its round bit and its sticky bit, in quarters. -/
def weight (em : ExtendedMantissa) : Nat :=
  4 * em.mantissa + 2 * em.roundBit.toNat + em.stickyBit.toNat

theorem weight_shiftRightOne (em : ExtendedMantissa) :
    weight em.shiftRightOne = 2 * (weight em / 4) + min 1 (weight em % 4) := by
  obtain ⟨m, round, sticky⟩ := em
  have hodd : (m % 2 != 0).toNat = m % 2 := by
    rcases Nat.mod_two_eq_zero_or_one m with h | h <;> rw [h] <;> rfl
  simp only [weight, ExtendedMantissa.shiftRightOne, hodd]
  cases round <;> cases sticky <;> simp only [Bool.or_self, Bool.or_true, Bool.or_false,
    Bool.toNat_true, Bool.toNat_false] <;> omega

theorem weight_shiftRight_mono {a b : ExtendedMantissa} (h : weight a ≤ weight b) (k : Nat) :
    weight (a >>> k) ≤ weight (b >>> k) := by
  induction k with
  | zero => exact h
  | succ k ih =>
    show weight (a >>> k).shiftRightOne ≤ weight (b >>> k).shiftRightOne
    rw [weight_shiftRightOne, weight_shiftRightOne]
    omega

/-- A half is rounded up exactly if the mantissa is odd. -/
theorem roundedMantissa_eq (em : ExtendedMantissa) :
    em.roundedMantissa = (weight em + 1 + em.mantissa % 2) / 4 := by
  obtain ⟨m, round, sticky⟩ := em
  cases round <;> cases sticky <;> simp only [weight, ExtendedMantissa.roundedMantissa,
    ExtendedMantissa.accuracy, Accuracy.roundToNearestEven, Bool.toNat_true, Bool.toNat_false] <;>
    omega

theorem roundedMantissa_mono {a b : ExtendedMantissa} (h : weight a ≤ weight b) :
    a.roundedMantissa ≤ b.roundedMantissa := by
  rw [roundedMantissa_eq, roundedMantissa_eq]
  apply Nat.div_le_div_right
  have hround := Bool.toNat_le a.roundBit
  have hround' := Bool.toNat_le b.roundBit
  have hsticky := Bool.toNat_le a.stickyBit
  have hsticky' := Bool.toNat_le b.stickyBit
  unfold weight at h ⊢
  -- The parity counts for one quarter, and different mantissas are as far apart.
  rcases Nat.lt_or_ge a.mantissa b.mantissa with hlt | hge
  · omega
  · have heq : a.mantissa = b.mantissa := by omega
    omega

/-! ## Rounding a natural number -/

theorem log2_mono {m n : Nat} (hm : 0 < m) (h : m ≤ n) : m.log2 ≤ n.log2 :=
  (Nat.le_log2 (by omega)).2 ((Nat.log2_self_le hm.ne').trans h)

/-- Among numbers of one width, a greater one has no lesser mantissa. -/
theorem nearestMantissa_mono {m n : Nat} (hm : 0 < m) (h : m ≤ n) (hlog : m.log2 = n.log2) :
    nearestMantissa m ≤ nearestMantissa n := by
  have hwidth {k : Nat} (hk : 0 < k) : k < 2 ^ 53 ↔ k.log2 < 53 := (Nat.log2_lt hk.ne').symm
  unfold nearestMantissa
  rcases Nat.lt_or_ge n (2 ^ 53) with hn | hn
  · have hm' : m < 2 ^ 53 := h.trans_lt hn
    rw [if_pos hm', if_pos hn, fullMantissa, fullMantissa, hlog, Nat.shiftLeft_eq, Nat.shiftLeft_eq]
    exact Nat.mul_le_mul_right _ h
  · have hm' : ¬ m < 2 ^ 53 := by rw [hwidth hm, hlog, ← hwidth (by omega)]; exact hn.not_gt
    rw [if_neg hm', if_neg hn.not_gt, hlog]
    refine roundedMantissa_mono (weight_shiftRight_mono ?_ _)
    simpa [weight, ExtendedMantissa.ofMantissaAndAccuracy] using h

/-- What a number is rounded to grows with the exponent, and for one exponent with
    the mantissa. -/
theorem Carried.mono {r r' m m' : Nat} {e₀ e₀' e e' : Int} (h : Carried r e₀ m e)
    (h' : Carried r' e₀' m' e') (hr' : 2 ^ 52 ≤ r')
    (hle : e₀ < e₀' ∨ e₀ = e₀' ∧ r ≤ r') : e < e' ∨ e = e' ∧ m ≤ m' := by
  unfold Carried at h h'
  omega

theorem place_le_place {c e m c' e' m' : Int} :
    place c e m ≤ place c' e' m' ↔ c < c' ∨ c = c' ∧ (e < e' ∨ e = e' ∧ m ≤ m') := by
  simp only [place, Prod.Lex.toLex_le_toLex]

end Double

/-! ## Rounding an integer -/

namespace Whole

variable {x y : Int64}

/-- A greater magnitude has no lesser exponent, and for one exponent no lesser
    mantissa. -/
theorem carried_mono {a b m n : Nat} {e f : Int} (ha : 0 < a) (hab : a ≤ b)
    (h : Double.Carried (Double.nearestMantissa a) (a.log2 - 52) m e)
    (h' : Double.Carried (Double.nearestMantissa b) (b.log2 - 52) n f) :
    e < f ∨ e = f ∧ m ≤ n := by
  have hlog := Double.log2_mono ha hab
  refine h.mono h' (Double.nearestMantissa_bounds (ha.trans_le hab)).1 ?_
  rcases hlog.lt_or_eq with hlt | heq
  · exact .inl (by omega)
  · exact .inr ⟨by rw [heq], Double.nearestMantissa_mono ha hab heq⟩

/-- **A greater integer counts as no lesser double.** -/
theorem rank_toFloat_mono (h : x.toInt ≤ y.toInt) :
    Double.rank (toFloat x) ≤ Double.rank (toFloat y) := by
  obtain ⟨m, e, hx, hrankx⟩ := exists_rank_toFloat x
  obtain ⟨n, f, hy, hranky⟩ := exists_rank_toFloat y
  rw [hrankx, hranky, Double.place_le_place]
  rcases Int.lt_trichotomy x.toInt 0 with hx0 | hx0 | hx0
  · rw [Int.sign_eq_neg_one_of_neg hx0]
    rcases Int.lt_or_le y.toInt 0 with hy0 | hy0
    · -- Of two negative integers, the greater one has the lesser magnitude.
      have := carried_mono (by omega) (by omega) (hy hy0.ne) (hx hx0.ne)
      rw [Int.sign_eq_neg_one_of_neg hy0]
      omega
    · have := Int.sign_nonneg_iff.2 hy0
      omega
  · rw [hx0]
    rcases Int.lt_or_eq_of_le (hx0.symm.le.trans h) with hy0 | hy0
    · rw [Int.sign_eq_one_of_pos hy0]
      exact .inl (by decide)
    · rw [← hy0]
      simp
  · have hy0 := hx0.trans_le h
    have := carried_mono (by omega) (by omega) (hx hx0.ne') (hy hy0.ne')
    rw [Int.sign_eq_one_of_pos hx0, Int.sign_eq_one_of_pos hy0]
    omega

/-- Only integers in the same order count as doubles in strict order. -/
theorem lt_of_rank_toFloat_lt (h : Double.rank (toFloat x) < Double.rank (toFloat y)) :
    x.toInt < y.toInt :=
  Int.not_le.1 fun hle => (rank_toFloat_mono hle).not_gt h

/-! ## Small integers -/

/-- The neighbours of a small integer count as other doubles. -/
theorem rank_toFloat_lt (h : x.toInt < y.toInt)
    (hx : x.toInt.natAbs < 2 ^ 53 - 1 ∨ y.toInt.natAbs < 2 ^ 53 - 1) :
    Double.rank (toFloat x) < Double.rank (toFloat y) := by
  have hstrict {k l : Int64} (hkl : k.toInt < l.toInt) (hk : k.toInt.natAbs < 2 ^ 53)
      (hl : l.toInt.natAbs < 2 ^ 53) : Double.rank (toFloat k) < Double.rank (toFloat l) := by
    refine (rank_toFloat_mono hkl.le).lt_of_ne fun heq => hkl.ne ?_
    rw [eq_of_toFloat_beq hk hl
      ((Double.beq_iff_rank_eq (not_isNaN_toFloat k) (not_isNaN_toFloat l)).2 heq)]
  rcases hx with hx | hy
  · obtain ⟨k, hk⟩ : ∃ k : Int64, k.toInt = x.toInt + 1 :=
      ⟨Int64.ofInt (x.toInt + 1), Int64.toInt_ofInt_of_le (by omega) (by omega)⟩
    exact (hstrict (by omega) (by omega) (by omega)).trans_le (rank_toFloat_mono (x := k) (by omega))
  · obtain ⟨k, hk⟩ : ∃ k : Int64, k.toInt = y.toInt - 1 :=
      ⟨Int64.ofInt (y.toInt - 1), Int64.toInt_ofInt_of_le (by omega) (by omega)⟩
    exact (rank_toFloat_mono (y := k) (by omega)).trans_lt (hstrict (by omega) (by omega) (by omega))

/-- As doubles, a small integer and any other are ordered as they are exactly. -/
theorem floatOrdering_toFloat (hx : x.toInt.natAbs < 2 ^ 53 - 1 ∨ y.toInt.natAbs < 2 ^ 53 - 1) :
    Value.floatOrdering (toFloat x) (toFloat y) = some (compareOfLessAndEq x.toInt y.toInt) := by
  rw [Double.floatOrdering_eq (not_isNaN_toFloat x) (not_isNaN_toFloat y)]
  unfold compareOfLessAndEq
  rcases Int.lt_trichotomy x.toInt y.toInt with hlt | heq | hgt
  · rw [if_pos hlt, compare_lt_iff_lt.2 (rank_toFloat_lt hlt hx)]
  · rw [if_neg heq.not_lt, if_pos heq, Int64.toInt_inj.1 heq, compare_eq_iff_eq.2 rfl]
  · rw [if_neg hgt.not_gt, if_neg hgt.ne', compare_gt_iff_gt.2 (rank_toFloat_lt hgt hx.symm)]

end Whole

end Flowline
