/-
  The order of the doubles, and the integers among them.

  A double that is a number has a rank: first its sign and size class, then the
  exponent, then the mantissa.  Comparing two numbers is comparing their ranks,
  and ranks are linearly ordered.

  * `Double.rank`, `Double.compare_unpacked`: comparing numbers by their ranks;
  * `Double.lt_iff_rank_lt`, `Double.beq_iff_rank_eq`,
    `Double.floatOrdering_eq`: the relations of two numbers, and their order;
  * `Whole.not_isNaN_toFloat`: an integer counts as a number;
  * `Whole.exists_rank_toFloat`, `Whole.toFloat_lt_zero`: an integer counts as a
    double of its own sign;
  * `Whole.rank_toFloat`, `Whole.eq_of_toFloat_beq`: an integer below `2^53` in
    magnitude is a double exactly, so two of them are not confused.
-/
import Flowline.Value.Compare
import Mathlib

namespace Flowline

open Float.Model (Format UnpackedFloat totalExponent)
open Float.Model.UnpackedFloat

namespace Double

/-! ## Ranks -/

/-- A place in the order: the class weighs most, then the exponent, then the
    mantissa. -/
def place (c e m : Int) : Int ×ₗ Int ×ₗ Int :=
  toLex (c, toLex (e, m))

theorem compare_place (c e m c' e' m' : Int) :
    compare (place c e m) (place c' e' m') =
      (compare c c').then ((compare e e').then (compare m m')) := by
  simp only [place, Prod.Lex.compare_def, compareLex, compareOn, ofLex_toLex]

theorem place_inj {c e m c' e' m' : Int} :
    place c e m = place c' e' m' ↔ c = c' ∧ e = e' ∧ m = m' := by
  simp only [place, EmbeddingLike.apply_eq_iff_eq, Prod.mk.injEq]

theorem compare_neg (x y : Int) : compare (-x) (-y) = (compare x y).swap := by
  rw [Int.compare_swap]
  simp only [compare, compareOfLessAndEq, Int.neg_lt_neg_iff, Int.neg_inj, eq_comm]

theorem compare_cast (x y : Nat) : compare (x : Int) (y : Int) = compare x y := by
  simp only [compare, compareOfLessAndEq, Int.ofNat_lt, Int.natCast_inj]

/-- The place of an unpacked double.  Among the negative ones a larger magnitude
    comes first, and both zeros have one place. -/
def rankUnpacked : UnpackedFloat → Int ×ₗ Int ×ₗ Int
  | .infinity .negative => place (-2) 0 0
  | .finite .negative m e _ => place (-1) (-e) (-m)
  | .zero _ | .notANumber => place 0 0 0
  | .finite .positive m e _ => place 1 e m
  | .infinity .positive => place 2 0 0

/-- The place of a double. -/
def rank (x : Float) : Int ×ₗ Int ×ₗ Int :=
  rankUnpacked x.toModel.unpack

/-- Unpacked numbers compare as their ranks do. -/
theorem compare_unpacked {a b : UnpackedFloat} (ha : a ≠ .notANumber) (hb : b ≠ .notANumber) :
    a.compare b = some (compare (rankUnpacked a) (rankUnpacked b)) := by
  -- one case for each two classes; the class decides unless both are finite and of one sign
  obtain ⟨_ | _⟩ | _ | _ | ⟨_ | _, m, e, hm⟩ := a <;>
  obtain ⟨_ | _⟩ | _ | _ | ⟨_ | _, n, f, hn⟩ := b <;>
  simp_all only [ne_eq, not_true_eq_false, reduceCtorEq, not_false_eq_true] <;>
  simp only [UnpackedFloat.compare, rankUnpacked, compare_place, compare_neg, compare_cast,
    Ordering.swap_then] <;>
  rfl

/-! ## Relations of numbers -/

theorem isNaN_eq_false_iff {x : Float} :
    x.isNaN = false ↔ x.toModel.unpack ≠ .notANumber := by
  rw [Float.isNaN, Float.Model.isNaN, ← Bool.not_eq_true, isNaN_iff]

section
variable {p q : Float} (hp : p.isNaN = false) (hq : q.isNaN = false)
include hp hq

theorem compare_eq :
    p.toModel.unpack.compare q.toModel.unpack = some (compare (rank p) (rank q)) :=
  compare_unpacked (isNaN_eq_false_iff.1 hp) (isNaN_eq_false_iff.1 hq)

theorem lt_iff_rank_lt : p < q ↔ rank p < rank q := by
  have hlt : p < q ↔ (p.toModel.unpack.compare q.toModel.unpack == some .lt) = true :=
    decide_eq_true_iff
  rw [hlt, compare_eq hp hq, beq_iff_eq, Option.some.injEq, compare_lt_iff_lt]

theorem beq_iff_rank_eq : (p == q) = true ↔ rank p = rank q := by
  have heq : (p == q) = (p.toModel.unpack.compare q.toModel.unpack == some .eq) := rfl
  rw [heq, compare_eq hp hq, beq_iff_eq, Option.some.injEq, compare_eq_iff_eq]

/-- **Two numbers are ordered as their ranks are.** -/
theorem floatOrdering_eq : Value.floatOrdering p q = some (compare (rank p) (rank q)) := by
  unfold Value.floatOrdering
  simp only [lt_iff_rank_lt hp hq, beq_iff_rank_eq hp hq, lt_iff_rank_lt hq hp]
  obtain h | h | h := lt_trichotomy (rank p) (rank q)
  · rw [if_pos h, compare_lt_iff_lt.2 h]
  · rw [if_neg h.not_lt, if_pos h, compare_eq_iff_eq.2 h]
  · rw [if_neg h.not_gt, if_neg h.ne', if_pos h, compare_gt_iff_gt.2 h]

end

/-! ## Packing -/

/-- Components that are not those of a NaN. -/
theorem unpack_packComponents_ne_notANumber {s : Sign} {e : BitVec 11} {m : BitVec 52}
    (h : e ≠ -1#11 ∨ m = 0#52) :
    UnpackedFloat.unpack .binary64 (packComponents .binary64 s e m) ≠ .notANumber := by
  unfold UnpackedFloat.unpack
  simp only [unpackExponent_packComponents, unpackMantissa_packComponents]
  split
  next he =>
    rw [if_pos (h.resolve_left (not_not_intro he))]
    exact UnpackedFloat.noConfusion
  next =>
    split
    next => split <;> exact UnpackedFloat.noConfusion
    next => exact UnpackedFloat.noConfusion

/-- A number stays one when it is packed, if only as an infinity. -/
theorem unpack_pack_ne_notANumber {f : UnpackedFloat} (hf : f ≠ .notANumber) :
    (Float.Model.pack f).unpack ≠ .notANumber := by
  unfold Float.Model.pack Float.Model.unpack
  simp only
  fun_cases UnpackedFloat.pack Format.binary64 f with
  | case1 => contradiction
  | case2 | case3 | case4 => exact unpack_packComponents_ne_notANumber (.inr rfl)
  | case5 s m e hm b biased hfits =>
    refine unpack_packComponents_ne_notANumber (.inl fun h => ?_)
    have hb := congrArg BitVec.toNat h
    simp at hb hfits
    omega
  | case6 => exact unpack_packComponents_ne_notANumber (.inl (by decide))

theorem log2_eq {m : Nat} (hlo : 2 ^ 52 ≤ m) (hhi : m < 2 ^ 53) : m.log2 = 52 :=
  (Nat.log2_eq_iff (by omega)).2 ⟨hlo, hhi⟩

/-- A finite double with a full mantissa is packed without loss, as long as its
    exponent is in range. -/
theorem unpack_pack_finite {s : Sign} {m : Nat} {e : Int} {hm : 0 < m} (hlo : 2 ^ 52 ≤ m)
    (hhi : m < 2 ^ 53) (he : -1074 ≤ e) (he' : e ≤ 971) :
    (Float.Model.pack (.finite s m e hm)).unpack = .finite s m e hm := by
  obtain ⟨b, hb⟩ : ∃ b : Nat, (b : Int) = e + 1075 := ⟨(e + 1075).toNat, by omega⟩
  have hbits : (BitVec.ofNat 11 b).toNat = b := by
    rw [BitVec.toNat_ofNat]
    omega
  have hmant : (1#1 ++ BitVec.ofNat 52 m).toNat = m := by
    rw [BitVec.toNat_append, ← Nat.shiftLeft_add_eq_or_of_lt (BitVec.isLt _), BitVec.toNat_ofNat,
      Nat.shiftLeft_eq]
    simp
    omega
  have hpack : UnpackedFloat.pack .binary64 (.finite s m e hm) =
      packComponents .binary64 s (BitVec.ofNat 11 b) (BitVec.ofNat 52 m) := by
    have hbias : (e + (Format.binary64.exponentBias : Int) + (52 : Nat)).toNat = b := by
      simp [Format.exponentBias]
      omega
    unfold UnpackedFloat.pack
    simp only [hbias, log2_eq hlo hhi]
    rw [if_neg (by omega), if_pos (show 52 + 1 = Format.binary64.mantissaBits from rfl)]
  have hones : BitVec.ofNat 11 b ≠ -1#11 := by
    intro h
    have hb' := hbits ▸ congrArg BitVec.toNat h
    simp at hb'
    omega
  have hzero : BitVec.ofNat 11 b ≠ 0#11 := by
    intro h
    have hb' := hbits ▸ congrArg BitVec.toNat h
    simp at hb'
    omega
  unfold Float.Model.pack Float.Model.unpack
  simp only [hpack]
  unfold UnpackedFloat.unpack
  simp only [unpackMantissa_packComponents, unpackExponent_packComponents,
    unpackSign_packComponents, Sign.ofBitVec_toBitVec, hbits, hmant, if_neg hones, if_neg hzero]
  congr 1
  simp [Format.exponentBias]
  omega

/-! ## Whole numbers -/

/-- A full mantissa needs no rounding. -/
theorem shiftToTargetExponent_full {m : Nat} (hlo : 2 ^ 52 ≤ m) (hhi : m < 2 ^ 53) {e : Int}
    (he : -1074 ≤ e) :
    shiftToTargetExponent .binary64 m e .exact = (⟨m, false, false⟩, e) := by
  have ht : Format.binary64.targetExponent (totalExponent m e) = e := by
    simp only [Format.targetExponent, totalExponent, log2_eq hlo hhi, Format.mantissaBits,
      Format.minExponent]
    omega
  simp only [shiftToTargetExponent, shiftToExponent, ht, Int.sub_self, Int.toNat_zero]
  rw [Int.natCast_zero, Int.add_zero]
  rfl

theorem roundWithAccuracy_full {s : Sign} {m : Nat} {e : Int} (hlo : 2 ^ 52 ≤ m)
    (hhi : m < 2 ^ 53) (he : -1074 ≤ e) :
    roundWithAccuracy .binary64 s m e .exact = .finite s m e (by omega) := by
  have hround : (⟨m, false, false⟩ : ExtendedMantissa).roundedMantissa = m := rfl
  unfold roundWithAccuracy
  simp only [shiftToTargetExponent_full hlo hhi he, hround]
  rw [dif_neg (by omega)]

/-- The mantissa of a natural number below `2^53`, moved up to its full width. -/
def fullMantissa (n : Nat) : Nat :=
  n <<< (52 - n.log2)

theorem log2_le {n : Nat} (h : n < 2 ^ 53) : n.log2 ≤ 52 := by
  rcases Nat.eq_zero_or_pos n with rfl | hn
  · exact Nat.zero_le 52
  · exact Nat.lt_succ_iff.1 ((Nat.log2_lt hn.ne').2 h)

theorem fullMantissa_bounds {n : Nat} (hn : 0 < n) (h : n < 2 ^ 53) :
    2 ^ 52 ≤ fullMantissa n ∧ fullMantissa n < 2 ^ 53 := by
  have hlog := log2_le h
  have hwidth : n.log2 + (52 - n.log2) = 52 := by omega
  have hlo : 2 ^ n.log2 * 2 ^ (52 - n.log2) ≤ n * 2 ^ (52 - n.log2) :=
    Nat.mul_le_mul_right _ (Nat.log2_self_le hn.ne')
  have hhi : n * 2 ^ (52 - n.log2) < 2 ^ (n.log2 + 1) * 2 ^ (52 - n.log2) :=
    Nat.mul_lt_mul_of_pos_right Nat.lt_log2_self (Nat.two_pow_pos _)
  rw [fullMantissa, Nat.shiftLeft_eq]
  rw [← Nat.pow_add] at hlo hhi
  rw [hwidth] at hlo
  rw [show n.log2 + 1 + (52 - n.log2) = 53 by omega] at hhi
  exact ⟨hlo, hhi⟩

/-- A natural number below `2^53` is a double: nothing is rounded. -/
theorem ofNat_eq_finite {n : Nat} (hn : 0 < n) (h : n < 2 ^ 53) :
    UnpackedFloat.ofNat .binary64 n = .finite .positive (fullMantissa n) (n.log2 - 52)
      (Nat.lt_of_lt_of_le (by decide) (fullMantissa_bounds hn h).1) := by
  obtain ⟨hlo, hhi⟩ := fullMantissa_bounds hn h
  have hlog := log2_le h
  have hpos : compare (n : Int) 0 = .gt := Int.compare_eq_gt.2 (by omega)
  have htarget : Format.binary64.targetExponent (totalExponent n 0) = n.log2 - 52 := by
    simp only [Format.targetExponent, totalExponent, Format.mantissaBits, Format.minExponent]
    omega
  have hshift : (0 - ((n.log2 : Int) - 52)).toNat = 52 - n.log2 := by omega
  have hexp : 0 - ((52 - n.log2 : Nat) : Int) = n.log2 - 52 := by omega
  unfold UnpackedFloat.ofNat UnpackedFloat.ofInt UnpackedFloat.normalize
  simp only [hpos, Int.toNat_natCast]
  unfold UnpackedFloat.round
  simp only [htarget, decreaseExponent, hshift, hexp]
  exact roundWithAccuracy_full hlo hhi (by omega)

theorem mantissa_shiftRight (em : ExtendedMantissa) (k : Nat) :
    (em >>> k).mantissa = em.mantissa / 2 ^ k := by
  induction k with
  | zero => exact (Nat.div_one _).symm
  | succ k ih =>
    show (em >>> k).mantissa / 2 = _
    rw [ih, Nat.div_div_eq_div_mul, Nat.pow_succ]

/-- Rounding adds at most one to the mantissa. -/
theorem roundedMantissa_bounds (em : ExtendedMantissa) :
    em.mantissa ≤ em.roundedMantissa ∧ em.roundedMantissa ≤ em.mantissa + 1 := by
  obtain ⟨m, round, sticky⟩ := em
  cases round <;> cases sticky <;>
    simp only [ExtendedMantissa.roundedMantissa, ExtendedMantissa.accuracy,
      Accuracy.roundToNearestEven] <;>
    omega

/-- A mantissa that was rounded up to the next power of two moves down by one bit. -/
theorem shiftToTargetExponent_carry {e : Int} (he : -1074 ≤ e) :
    shiftToTargetExponent .binary64 (2 ^ 53) e .exact = (⟨2 ^ 52, false, false⟩, e + 1) := by
  have ht : Format.binary64.targetExponent (totalExponent (2 ^ 53) e) = e + 1 := by
    simp only [Format.targetExponent, totalExponent, Nat.log2_two_pow, Format.mantissaBits,
      Format.minExponent]
    omega
  have hone : (e + 1 - e).toNat = 1 := by omega
  simp only [shiftToTargetExponent, shiftToExponent, ht, hone]
  rfl

/-- The mantissa `m` and the exponent `e'` after a mantissa was rounded to `r` at the
    exponent `e`: one more than fits moves down by one bit. -/
def Carried (r : Nat) (e : Int) (m : Nat) (e' : Int) : Prop :=
  r < 2 ^ 53 ∧ m = r ∧ e' = e ∨ r = 2 ^ 53 ∧ m = 2 ^ 52 ∧ e' = e + 1

/-- A number whose mantissa is shifted to its full width is rounded to one with a full
    mantissa. -/
theorem exists_roundWithAccuracy {s : Sign} {m : Nat} {e : Int} {em : ExtendedMantissa} {e' : Int}
    (hfirst : shiftToTargetExponent .binary64 m e .exact = (em, e')) (hlo : 2 ^ 52 ≤ em.mantissa)
    (hhi : em.mantissa < 2 ^ 53) (he : -1074 ≤ e') :
    ∃ (m' : Nat) (e'' : Int) (hm : 0 < m'),
      roundWithAccuracy .binary64 s m e .exact = .finite s m' e'' hm ∧
        Carried em.roundedMantissa e' m' e'' := by
  obtain ⟨hround, hround'⟩ := roundedMantissa_bounds em
  unfold roundWithAccuracy
  simp only [hfirst]
  rcases Nat.lt_or_ge em.roundedMantissa (2 ^ 53) with hfull | hcarry
  · simp only [shiftToTargetExponent_full (Nat.le_trans hlo hround) hfull he]
    rw [dif_neg (by omega)]
    exact ⟨em.roundedMantissa, e', by omega, rfl, .inl ⟨hfull, rfl, rfl⟩⟩
  · have htop : em.roundedMantissa = 2 ^ 53 := by omega
    simp only [htop, shiftToTargetExponent_carry he]
    rw [dif_neg (by decide)]
    exact ⟨2 ^ 52, e' + 1, by decide, rfl, .inr ⟨rfl, rfl, rfl⟩⟩

/-- A natural number as a mantissa of the full width, to which a wider one is rounded. -/
def nearestMantissa (n : Nat) : Nat :=
  if n < 2 ^ 53 then fullMantissa n
  else (ExtendedMantissa.ofMantissaAndAccuracy n .exact >>> (n.log2 - 52)).roundedMantissa

/-- A wide mantissa is cut to the full width. -/
theorem mantissa_wide_bounds {n : Nat} (h : 2 ^ 53 ≤ n) :
    2 ^ 52 ≤ (ExtendedMantissa.ofMantissaAndAccuracy n .exact >>> (n.log2 - 52)).mantissa ∧
      (ExtendedMantissa.ofMantissaAndAccuracy n .exact >>> (n.log2 - 52)).mantissa < 2 ^ 53 := by
  have hn : n ≠ 0 := by omega
  have hlog : 53 ≤ n.log2 := (Nat.le_log2 hn).2 h
  have hwidth : 52 + (n.log2 - 52) = n.log2 := by omega
  have hwidth' : 53 + (n.log2 - 52) = n.log2 + 1 := by omega
  rw [mantissa_shiftRight]
  constructor
  · rw [Nat.le_div_iff_mul_le (Nat.two_pow_pos _), ← Nat.pow_add, hwidth]
    exact Nat.log2_self_le hn
  · rw [Nat.div_lt_iff_lt_mul (Nat.two_pow_pos _), ← Nat.pow_add, hwidth']
    exact Nat.lt_log2_self

theorem nearestMantissa_bounds {n : Nat} (hn : 0 < n) :
    2 ^ 52 ≤ nearestMantissa n ∧ nearestMantissa n ≤ 2 ^ 53 := by
  unfold nearestMantissa
  split
  next h =>
    obtain ⟨hlo, hhi⟩ := fullMantissa_bounds hn h
    exact ⟨hlo, hhi.le⟩
  next h =>
    obtain ⟨hlo, hhi⟩ := mantissa_wide_bounds (Nat.not_lt.1 h)
    obtain ⟨hround, hround'⟩ := roundedMantissa_bounds
      (ExtendedMantissa.ofMantissaAndAccuracy n .exact >>> (n.log2 - 52))
    omega

/-- A natural number of 64 bits is rounded to a number with a full mantissa. -/
theorem exists_ofNat_eq_finite {n : Nat} (hn : 0 < n) (h : n < 2 ^ 64) :
    ∃ (m : Nat) (e : Int) (hm : 0 < m),
      UnpackedFloat.ofNat .binary64 n = .finite .positive m e hm ∧
        Carried (nearestMantissa n) (n.log2 - 52) m e := by
  rcases Nat.lt_or_ge n (2 ^ 53) with hsmall | hlarge
  · refine ⟨_, _, _, ofNat_eq_finite hn hsmall, .inl ?_⟩
    rw [nearestMantissa, if_pos hsmall]
    exact ⟨(fullMantissa_bounds hn hsmall).2, rfl, rfl⟩
  have hlog : 53 ≤ n.log2 := (Nat.le_log2 hn.ne').2 hlarge
  have hlog' : n.log2 < 64 := (Nat.log2_lt hn.ne').2 h
  have hpos : compare (n : Int) 0 = .gt := Int.compare_eq_gt.2 (by omega)
  have htarget : Format.binary64.targetExponent (totalExponent n 0) = n.log2 - 52 := by
    simp only [Format.targetExponent, totalExponent, Format.mantissaBits, Format.minExponent]
    omega
  have hstay : (0 - ((n.log2 : Int) - 52)).toNat = 0 := by omega
  have hshift : ((n.log2 : Int) - 52 - 0).toNat = n.log2 - 52 := by omega
  have hexp : 0 + ((n.log2 - 52 : Nat) : Int) = n.log2 - 52 := by omega
  have hfirst : shiftToTargetExponent .binary64 n 0 .exact =
      (ExtendedMantissa.ofMantissaAndAccuracy n .exact >>> (n.log2 - 52), (n.log2 : Int) - 52) := by
    simp only [shiftToTargetExponent, shiftToExponent, htarget, hshift, hexp]
  obtain ⟨hlo, hhi⟩ := mantissa_wide_bounds hlarge
  obtain ⟨m, e, hm, hround, hcarried⟩ :=
    exists_roundWithAccuracy (s := .positive) hfirst hlo hhi (by omega)
  refine ⟨m, e, hm, ?_, ?_⟩
  · unfold UnpackedFloat.ofNat UnpackedFloat.ofInt UnpackedFloat.normalize
    simp only [hpos, Int.toNat_natCast]
    unfold UnpackedFloat.round
    simp only [htarget, decreaseExponent, hstay, Nat.shiftLeft_zero]
    exact hround
  · rwa [nearestMantissa, if_neg hlarge.not_gt]

theorem ofNat_ne_notANumber (spec : Format) (n : Nat) :
    UnpackedFloat.ofNat spec n ≠ .notANumber := by
  have hround (s m e) : UnpackedFloat.round spec s m e ≠ .notANumber := by
    unfold UnpackedFloat.round roundWithAccuracy
    dsimp only
    split <;> exact UnpackedFloat.noConfusion
  unfold UnpackedFloat.ofNat UnpackedFloat.ofInt UnpackedFloat.normalize
  split
  · exact hround _ _ _
  · exact UnpackedFloat.noConfusion
  · exact hround _ _ _

end Double

namespace Whole

/-- The double of a magnitude. -/
theorem toModel_magnitude (x : Int64) :
    (UInt64.ofNat x.toInt.natAbs).toFloat.toModel =
      Float.Model.pack (UnpackedFloat.ofNat .binary64 x.toInt.natAbs) := by
  have hlo := x.le_toInt
  have hhi := x.toInt_lt
  have hn : (UInt64.ofNat x.toInt.natAbs).toNat = x.toInt.natAbs :=
    UInt64.toNat_ofNat_of_lt' (by rw [UInt64.size]; omega)
  show Float.Model.pack (UnpackedFloat.ofNat .binary64 (UInt64.ofNat x.toInt.natAbs).toNat) = _
  rw [hn]

theorem toModel_toFloat (x : Int64) :
    (toFloat x).toModel =
      if x.toInt < 0 then
        Float.Model.pack (Float.Model.pack (.ofNat .binary64 x.toInt.natAbs)).unpack.neg
      else Float.Model.pack (.ofNat .binary64 x.toInt.natAbs) := by
  rw [← toModel_magnitude]
  unfold toFloat
  dsimp only
  split <;> rfl

/-- An integer counts as a number. -/
theorem not_isNaN_toFloat (x : Int64) : (toFloat x).isNaN = false := by
  have hmag := Double.unpack_pack_ne_notANumber
    (Double.ofNat_ne_notANumber .binary64 x.toInt.natAbs)
  rw [Double.isNaN_eq_false_iff, toModel_toFloat]
  split
  next =>
    apply Double.unpack_pack_ne_notANumber
    revert hmag
    cases (Float.Model.pack (.ofNat .binary64 x.toInt.natAbs)).unpack <;> simp [UnpackedFloat.neg]
  next => exact hmag

/-- The rank of an integer: its sign, and then the exponent and the mantissa to which
    its magnitude is rounded. -/
theorem exists_rank_toFloat (x : Int64) :
    ∃ (m : Nat) (e : Int),
      (x.toInt ≠ 0 →
        Double.Carried (Double.nearestMantissa x.toInt.natAbs) (x.toInt.natAbs.log2 - 52) m e) ∧
      Double.rank (toFloat x) = Double.place x.toInt.sign (x.toInt.sign * e) (x.toInt.sign * m) := by
  have hbound := x.le_toInt
  have hbound' := x.toInt_lt
  rw [Double.rank, toModel_toFloat]
  obtain hzero | hne := eq_or_ne x.toInt 0
  · rw [hzero]
    exact ⟨0, 0, fun h => absurd rfl h, rfl⟩
  obtain ⟨m, e, hm, hround, hcarried⟩ :=
    Double.exists_ofNat_eq_finite (n := x.toInt.natAbs) (by omega) (by omega)
  have hlog : x.toInt.natAbs.log2 < 64 := (Nat.log2_lt (by omega)).2 (by omega)
  obtain ⟨hmlo, hmhi⟩ := Double.nearestMantissa_bounds (n := x.toInt.natAbs) (by omega)
  have hfull : (2 ^ 52 ≤ m ∧ m < 2 ^ 53) ∧ -1074 ≤ e ∧ e ≤ 971 := by
    unfold Double.Carried at hcarried
    omega
  obtain ⟨⟨hlo, hhi⟩, he, he'⟩ := hfull
  refine ⟨m, e, fun _ => hcarried, ?_⟩
  obtain hneg | hpos := hne.lt_or_gt
  · rw [if_pos hneg, hround, Double.unpack_pack_finite hlo hhi he he']
    simp only [UnpackedFloat.neg]
    rw [Double.unpack_pack_finite hlo hhi he he', Int.sign_eq_neg_one_of_neg hneg,
      Int.neg_one_mul, Int.neg_one_mul]
    rfl
  · rw [if_neg hpos.not_gt, hround, Double.unpack_pack_finite hlo hhi he he',
      Int.sign_eq_one_of_pos hpos, Int.one_mul, Int.one_mul]
    rfl

/-- The rank of an integer that is a double exactly. -/
theorem rank_toFloat {x : Int64} (h : x.toInt.natAbs < 2 ^ 53) :
    Double.rank (toFloat x) =
      Double.place x.toInt.sign (x.toInt.sign * (x.toInt.natAbs.log2 - 52))
        (x.toInt.sign * Double.fullMantissa x.toInt.natAbs) := by
  obtain ⟨m, e, hcarried, hrank⟩ := exists_rank_toFloat x
  rw [hrank]
  obtain hzero | hne := eq_or_ne x.toInt 0
  · rw [hzero]
    simp
  · have hfull := (Double.fullMantissa_bounds (by omega) h).2
    have hcarried := hcarried hne
    rw [Double.nearestMantissa, if_pos h] at hcarried
    obtain ⟨-, rfl, rfl⟩ | ⟨htop, -⟩ := hcarried
    · rfl
    · exact absurd htop hfull.ne

/-- A negative integer counts as a negative double. -/
theorem toFloat_lt_zero {x : Int64} (h : x.toInt < 0) : toFloat x < 0.0 := by
  obtain ⟨m, e, -, hrank⟩ := exists_rank_toFloat x
  have hzero : Double.rank 0.0 = Double.place 0 0 0 := by decide +kernel
  rw [Double.lt_iff_rank_lt (not_isNaN_toFloat x) (by decide +kernel), hrank, hzero,
    Int.sign_eq_neg_one_of_neg h, ← compare_lt_iff_lt, Double.compare_place]
  rfl

/-- Two integers below `2^53` in magnitude that count as the same double are the
    same. -/
theorem eq_of_toFloat_beq {x y : Int64} (hx : x.toInt.natAbs < 2 ^ 53)
    (hy : y.toInt.natAbs < 2 ^ 53) (h : (toFloat x == toFloat y) = true) : x = y := by
  rw [Double.beq_iff_rank_eq (not_isNaN_toFloat x) (not_isNaN_toFloat y), rank_toFloat hx,
    rank_toFloat hy, Double.place_inj] at h
  obtain ⟨hs, he, hm⟩ := h
  apply Int64.toInt_inj.1
  obtain hzero | hsign := eq_or_ne x.toInt.sign 0
  · have hzero' := hs.symm.trans hzero
    rw [Int.sign_eq_zero_iff_zero.1 hzero, Int.sign_eq_zero_iff_zero.1 hzero']
  · rw [← hs] at he hm
    have hlog : x.toInt.natAbs.log2 = y.toInt.natAbs.log2 := by
      have := Int.eq_of_mul_eq_mul_left hsign he
      omega
    have habs : x.toInt.natAbs = y.toInt.natAbs := by
      have hfull := Int.ofNat.inj (Int.eq_of_mul_eq_mul_left hsign hm)
      rw [Double.fullMantissa, Double.fullMantissa, ← hlog, Nat.shiftLeft_eq, Nat.shiftLeft_eq]
        at hfull
      exact Nat.eq_of_mul_eq_mul_right (Nat.two_pow_pos _) hfull
    rw [← Int.sign_mul_natAbs x.toInt, ← Int.sign_mul_natAbs y.toInt, hs, habs]

end Whole

end Flowline
