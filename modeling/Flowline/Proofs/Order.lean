/-
  The strict order of values.

  Two integers are ordered exactly, an integer and a float as doubles, so a
  chain of values may change from one order to the other at each step.  It can
  do so without harm: an integer that is less than another counts as no greater
  a double, and one that counts as a lesser double is less.

  * `Value.lt_int_iff`, `Value.lt_number_iff`, `Value.lt_str_iff`: when a value is
    less than another, class by class;
  * `Value.lt_trans`, `Value.lt_irrefl`, `Value.gt_iff_lt`: the laws of the order;
  * `Value.exists_ordering_iff`, `Comparison.exists_apply_iff`: which values have an
    order, and which comparisons of them an answer;
  * `Value.strictlyOrdered`: less is a strict partial order of the values that it
    accepts.
-/
import Flowline.Proofs.Coherence
import Flowline.Proofs.Rounding

namespace Flowline

/-! ## Doubles -/

namespace Double

open Float.Model.UnpackedFloat

theorem compare_notANumber (u : Float.Model.UnpackedFloat) : u.compare .notANumber = none := by
  obtain ⟨_ | _⟩ | _ | _ | ⟨_ | _⟩ := u <;> rfl

/-- Only numbers are compared. -/
theorem not_isNaN_of_compare {p q : Float} {ord : Ordering}
    (h : p.toModel.unpack.compare q.toModel.unpack = some ord) :
    p.isNaN = false ∧ q.isNaN = false := by
  rw [isNaN_eq_false_iff, isNaN_eq_false_iff]
  constructor <;> intro hnan <;> rw [hnan] at h
  · cases h
  · rw [compare_notANumber] at h
    cases h

theorem not_isNaN_of_lt {p q : Float} (h : p < q) : p.isNaN = false ∧ q.isNaN = false :=
  not_isNaN_of_compare (eq_of_beq (decide_eq_true_iff.1 h))

theorem floatOrdering_eq_lt_iff {p q : Float} : Value.floatOrdering p q = some .lt ↔ p < q := by
  unfold Value.floatOrdering
  split_ifs with hlt <;> simp [hlt]

theorem floatOrdering_eq_gt_iff {p q : Float} : Value.floatOrdering p q = some .gt ↔ q < p := by
  constructor
  · intro h
    by_contra hgt
    unfold Value.floatOrdering at h
    split_ifs at h <;> cases h
  · intro hgt
    obtain ⟨hq, hp⟩ := not_isNaN_of_lt hgt
    rw [floatOrdering_eq hp hq, compare_gt_iff_gt.2 ((lt_iff_rank_lt hq hp).1 hgt)]

end Double

/-! ## Less and greater -/

/-- The order that a strict comparison asks for. -/
def Comparison.strict? : Comparison → Option Ordering
  | lt => some .lt
  | gt => some .gt
  | ge | le | eq | ne => none

theorem Comparison.holds_iff_ordering {a b : Value} {o : Comparison} {ord : Ordering}
    (h : o.strict? = some ord) : o.Holds a b ↔ a.ordering b = .ok (some ord) := by
  constructor
  · intro hholds
    unfold Holds Comparison.apply at hholds
    split at hholds
    next => cases hholds
    next =>
      cases hord : a.ordering b with
      | error fault =>
        rw [hord] at hholds
        cases o <;> cases h <;> cases hholds
      | ok found =>
        rw [hord] at hholds
        cases o <;> cases h <;> obtain _ | _ | _ | _ := found <;> first | rfl | cases hholds
  · intro hord
    unfold Holds
    rw [Comparison.apply_of_ordering hord]
    cases o <;> cases h <;> rfl

namespace Value

variable {a b c : Value}

theorem lt_iff_ordering : Comparison.lt.Holds a b ↔ a.ordering b = .ok (some .lt) :=
  Comparison.holds_iff_ordering rfl

theorem gt_iff_ordering : Comparison.gt.Holds a b ↔ a.ordering b = .ok (some .gt) :=
  Comparison.holds_iff_ordering rfl

/-- Two values are both integers, which are ordered exactly, or they are not. -/
theorem ints_or_not (a b : Value) :
    (∃ x y, a = int x ∧ b = int y) ∨ ∀ x y, a = int x → b ≠ int y := by
  by_cases h : ∀ x y, a = int x → b ≠ int y
  · exact .inr h
  · push Not at h
    exact .inl h

theorem lt_str_iff {s t : String} : Comparison.lt.Holds (str s) (str t) ↔ s < t := by
  rw [lt_iff_ordering, ordering, Except.ok.injEq, Option.some.injEq, compareOfLessAndEq_eq_lt]

theorem gt_str_iff {s t : String} : Comparison.gt.Holds (str s) (str t) ↔ t < s := by
  rw [gt_iff_ordering, ordering, Except.ok.injEq, Option.some.injEq,
    compareOfLessAndEq_eq_gt String.le_antisymm String.le_total String.not_le]

theorem lt_int_iff {x y : Int64} : Comparison.lt.Holds (int x) (int y) ↔ x.toInt < y.toInt := by
  rw [lt_iff_ordering, ordering, Except.ok.injEq, Option.some.injEq, compareOfLessAndEq_eq_lt]

theorem gt_int_iff {x y : Int64} : Comparison.gt.Holds (int x) (int y) ↔ y.toInt < x.toInt := by
  rw [gt_iff_ordering, ordering, Except.ok.injEq, Option.some.injEq,
    compareOfLessAndEq_eq_gt Int.le_antisymm Int.le_total Int.not_le]

section
variable {p q : Float} (hp : a.number? = some p) (hq : b.number? = some q)
include hp hq

/-- Numbers that are not both integers are ordered as doubles. -/
theorem lt_number_iff (hint : ∀ x y, a = int x → b ≠ int y) :
    Comparison.lt.Holds a b ↔ p < q := by
  rw [lt_iff_ordering, ordering_eq_floatOrdering hp hq hint, Except.ok.injEq,
    Double.floatOrdering_eq_lt_iff]

theorem gt_number_iff (hint : ∀ x y, a = int x → b ≠ int y) :
    Comparison.gt.Holds a b ↔ q < p := by
  rw [gt_iff_ordering, ordering_eq_floatOrdering hp hq hint, Except.ok.injEq,
    Double.floatOrdering_eq_gt_iff]

theorem gt_iff_lt_of_number : Comparison.gt.Holds a b ↔ Comparison.lt.Holds b a := by
  obtain ⟨x, y, rfl, rfl⟩ | hint := ints_or_not a b
  · rw [gt_int_iff, lt_int_iff]
  · rw [gt_number_iff hp hq hint, lt_number_iff hq hp fun x y hb ha => hint y x ha hb]

end

/-- Greater is less the other way round. -/
theorem gt_iff_lt : Comparison.gt.Holds a b ↔ Comparison.lt.Holds b a := by
  constructor
  · intro h
    obtain ⟨s, t, rfl, rfl⟩ | ⟨p, q, hp, hq⟩ :=
      str_or_number_of_ordering_eq_ok (gt_iff_ordering.1 h)
    · exact lt_str_iff.2 (gt_str_iff.1 h)
    · exact (gt_iff_lt_of_number hp hq).1 h
  · intro h
    obtain ⟨s, t, rfl, rfl⟩ | ⟨q, p, hq, hp⟩ := str_or_number_of_lt_eq_ok h
    · exact gt_str_iff.2 (lt_str_iff.1 h)
    · exact (gt_iff_lt_of_number hp hq).2 h

/-! ## Chains -/

/-- Two numbers in order count as doubles in order, if perhaps not strictly. -/
theorem rank_le_of_lt {p q : Float} (hp : a.number? = some p) (hq : b.number? = some q)
    (h : Comparison.lt.Holds a b) :
    p.isNaN = false ∧ q.isNaN = false ∧ Double.rank p ≤ Double.rank q := by
  obtain ⟨x, y, rfl, rfl⟩ | hint := ints_or_not a b
  · cases hp
    cases hq
    exact ⟨Whole.not_isNaN_toFloat x, Whole.not_isNaN_toFloat y,
      Whole.rank_toFloat_mono (lt_int_iff.1 h).le⟩
  · have hlt := (lt_number_iff hp hq hint).1 h
    obtain ⟨hp', hq'⟩ := Double.not_isNaN_of_lt hlt
    exact ⟨hp', hq', ((Double.lt_iff_rank_lt hp' hq').1 hlt).le⟩

/-- Numbers that count as doubles in strict order are in order. -/
theorem lt_of_float_lt {p q : Float} (hp : a.number? = some p) (hq : b.number? = some q)
    (h : p < q) : Comparison.lt.Holds a b := by
  obtain ⟨x, y, rfl, rfl⟩ | hint := ints_or_not a b
  · cases hp
    cases hq
    rw [Double.lt_iff_rank_lt (Whole.not_isNaN_toFloat x) (Whole.not_isNaN_toFloat y)] at h
    exact lt_int_iff.2 (Whole.lt_of_rank_toFloat_lt h)
  · exact (lt_number_iff hp hq hint).2 h

/-- **Less is transitive, whatever kinds of numbers meet.** -/
theorem lt_trans (hab : Comparison.lt.Holds a b) (hbc : Comparison.lt.Holds b c) :
    Comparison.lt.Holds a c := by
  obtain ⟨s, t, rfl, rfl⟩ | ⟨p, q, hp, hq⟩ := str_or_number_of_lt_eq_ok hab
  · obtain ⟨_, u, ⟨⟩, rfl⟩ | ⟨_, _, ⟨⟩, _⟩ := str_or_number_of_lt_eq_ok hbc
    exact lt_str_iff.2 (String.lt_trans (lt_str_iff.1 hab) (lt_str_iff.1 hbc))
  obtain ⟨_, _, rfl, rfl⟩ | ⟨_, r, hq', hr⟩ := str_or_number_of_lt_eq_ok hbc
  · cases hq
  obtain rfl : q = _ := Option.some.inj (hq.symm.trans hq')
  obtain ⟨hpnan, hqnan, hpq⟩ := rank_le_of_lt hp hq hab
  obtain ⟨-, hrnan, hqr⟩ := rank_le_of_lt hq hr hbc
  -- Unless all three are integers, one step is strict for doubles, and so is the chain.
  obtain ⟨x, y, rfl, rfl⟩ | hint := ints_or_not a b
  · obtain ⟨_, z, ⟨⟩, rfl⟩ | hint' := ints_or_not (int y) c
    · exact lt_int_iff.2 (Int.lt_trans (lt_int_iff.1 hab) (lt_int_iff.1 hbc))
    · have hlt := (Double.lt_iff_rank_lt hqnan hrnan).1 ((lt_number_iff hq hr hint').1 hbc)
      exact lt_of_float_lt hp hr ((Double.lt_iff_rank_lt hpnan hrnan).2 (hpq.trans_lt hlt))
  · have hlt := (Double.lt_iff_rank_lt hpnan hqnan).1 ((lt_number_iff hp hq hint).1 hab)
    exact lt_of_float_lt hp hr ((Double.lt_iff_rank_lt hpnan hrnan).2 (hlt.trans_le hqr))

theorem lt_irrefl (a : Value) : ¬ Comparison.lt.Holds a a := by
  intro h
  obtain ⟨s, t, rfl, ⟨⟩⟩ | ⟨p, q, hp, hq⟩ := str_or_number_of_lt_eq_ok h
  · exact String.lt_irrefl s (lt_str_iff.1 h)
  obtain ⟨x, y, rfl, ⟨⟩⟩ | hint := ints_or_not a a
  · exact Int.lt_irrefl _ (lt_int_iff.1 h)
  · obtain rfl : p = q := Option.some.inj (hp.symm.trans hq)
    have hlt := (lt_number_iff hp hq hint).1 h
    obtain ⟨hnan, -⟩ := Double.not_isNaN_of_lt hlt
    exact ((Double.lt_iff_rank_lt hnan hnan).1 hlt).false

end Value

namespace Comparison

variable {a b c : Value} {o : Comparison} {ord : Ordering}

theorem strict_trans (h : o.strict? = some ord) (hab : o.Holds a b) (hbc : o.Holds b c) :
    o.Holds a c := by
  cases o <;> cases h
  case gt.refl => exact Value.gt_iff_lt.2 (Value.lt_trans (Value.gt_iff_lt.1 hbc)
    (Value.gt_iff_lt.1 hab))
  case lt.refl => exact Value.lt_trans hab hbc

theorem strict_irrefl (h : o.strict? = some ord) (a : Value) : ¬ o.Holds a a := by
  cases o <;> cases h
  case gt.refl => exact fun hgt => Value.lt_irrefl a (Value.gt_iff_lt.1 hgt)
  case lt.refl => exact Value.lt_irrefl a

end Comparison

/-! ## Values that have an order -/

namespace Value

/-- An integer, a float or a truth value. -/
def isNumber : Value → Bool
  | int _ | float _ | bool _ => true
  | _ => false

def isStr : Value → Bool
  | str _ => true
  | _ => false

theorem isNumber_iff {a : Value} : a.isNumber = true ↔ ∃ p, a.number? = some p := by
  cases a <;> simp [isNumber, number?, toFloat?]

theorem isStr_iff {a : Value} : a.isStr = true ↔ ∃ s, a = str s := by
  cases a <;> simp [isStr]

theorem isStr_of_isNumber {a : Value} (h : a.isNumber = true) : a.isStr = false := by
  cases a <;> first | rfl | cases h

/-- All of some values are numbers, or all are strings. -/
def Orderable (vs : List Value) : Prop :=
  (∀ v ∈ vs, v.isNumber) ∨ ∀ v ∈ vs, v.isStr

theorem exists_ordering_iff {a b : Value} :
    (∃ ord, a.ordering b = .ok ord) ↔ Orderable [a, b] := by
  simp only [Orderable, List.forall_mem_cons, List.not_mem_nil, false_imp_iff, implies_true,
    and_true, isNumber_iff, isStr_iff]
  constructor
  · rintro ⟨ord, h⟩
    obtain ⟨s, t, rfl, rfl⟩ | ⟨p, q, hp, hq⟩ := str_or_number_of_ordering_eq_ok h
    · exact .inr ⟨⟨s, rfl⟩, t, rfl⟩
    · exact .inl ⟨⟨p, hp⟩, q, hq⟩
  · rintro (⟨⟨p, hp⟩, q, hq⟩ | ⟨⟨s, rfl⟩, t, rfl⟩)
    · obtain ⟨x, y, rfl, rfl⟩ | hint := ints_or_not a b
      · exact ⟨_, rfl⟩
      · exact ⟨_, ordering_eq_floatOrdering hp hq hint⟩
    · exact ⟨_, rfl⟩

/-- Of two values that have an order, one stands for both. -/
theorem Orderable.cons_iff {a b : Value} {vs : List Value} (h : Orderable [a, b]) :
    Orderable (a :: vs) ↔ Orderable (b :: a :: vs) := by
  simp only [Orderable, List.forall_mem_cons] at h ⊢
  rcases h with ⟨ha, hb, -⟩ | ⟨ha, hb, -⟩
  · simp [ha, hb, isStr_of_isNumber ha]
  · have ha' : a.isNumber = false := by
      rw [← Bool.not_eq_true]
      exact fun hnum => Bool.noConfusion (ha.symm.trans (isStr_of_isNumber hnum))
    simp [ha, hb, ha']

theorem orderable_congr {vs ws : List Value} (h : vs.Perm ws) : Orderable vs ↔ Orderable ws := by
  simp only [Orderable, h.mem_iff]

theorem orderable_pair_comm {a b : Value} : Orderable [a, b] ↔ Orderable [b, a] :=
  orderable_congr (List.Perm.swap b a [])

end Value

/-! ## A strict partial order -/

namespace Comparison

variable {a b : Value} {o : Comparison}

/-- A comparison that asks for the order has an answer wherever there is one. -/
theorem exists_apply_iff (ho : o ∉ [eq, ne]) :
    (∃ r, o.apply a b = .ok r) ↔ Value.Orderable [a, b] := by
  rw [← Value.exists_ordering_iff]
  constructor
  · rintro ⟨r, h⟩
    cases hord : a.ordering b with
    | ok ord => exact ⟨ord, rfl⟩
    | error fault =>
      unfold apply at h
      rw [hord] at h
      split at h
      next => cases h
      next => cases o <;> first | exact absurd (by decide) ho | cases h
  · rintro ⟨ord, h⟩
    cases ord with
    | some ord => exact ⟨_, apply_of_ordering h o⟩
    | none =>
      -- One of the two is NaN, and every answer is false.
      unfold apply
      rw [Value.isError_eq_false_of_ordering h, if_neg Bool.false_ne_true, h]
      cases o <;> first | exact absurd (by decide) ho | exact ⟨false, rfl⟩

theorem apply_eq_false_iff (ho : o ∉ [eq, ne]) :
    o.apply a b = .ok false ↔ Value.Orderable [a, b] ∧ ¬ o.Holds a b := by
  constructor
  · intro h
    exact ⟨(exists_apply_iff ho).1 ⟨false, h⟩, fun hholds => nomatch h.symm.trans hholds⟩
  · rintro ⟨hord, hnot⟩
    obtain ⟨_ | _, h⟩ := (exists_apply_iff ho).2 hord
    · exact h
    · exact absurd h hnot

end Comparison

namespace Value

variable {a b : Value}

/-- Greater gives what less gives the other way round, true or false. -/
theorem gt_eq_ok_iff {r : Bool} :
    Comparison.gt.apply a b = .ok r ↔ Comparison.lt.apply b a = .ok r := by
  cases r with
  | true => exact gt_iff_lt
  | false =>
    rw [Comparison.apply_eq_false_iff (by decide), Comparison.apply_eq_false_iff (by decide),
      orderable_pair_comm, gt_iff_lt]

theorem lt_asymm (h : Comparison.lt.Holds a b) : Comparison.lt.apply b a = .ok false := by
  have hord : Orderable [a, b] := (Comparison.exists_apply_iff (by decide)).1 ⟨true, h⟩
  rw [Comparison.apply_eq_false_iff (by decide)]
  exact ⟨orderable_pair_comm.1 hord, fun h' => lt_irrefl a (lt_trans h h')⟩

/-- The laws of a strict partial order, for three values of which less may refuse some. -/
structure StrictlyOrdered (a b c : Value) : Prop where
  /-- Numbers of whatever kinds are accepted, NaN included, and strings; nothing else is. -/
  accepts : (∃ r, Comparison.lt.apply a b = .ok r) ↔ Orderable [a, b]
  irrefl : ∀ r, Comparison.lt.apply a a = .ok r → r = false
  converse : ∀ r, Comparison.lt.apply a b = .ok r ↔ Comparison.gt.apply b a = .ok r
  asymm : Comparison.lt.Holds a b → Comparison.lt.apply b a = .ok false
  trans : Comparison.lt.Holds a b → Comparison.lt.Holds b c → Comparison.lt.Holds a c

/-- **Less is a strict partial order of the values that it accepts.** -/
theorem strictlyOrdered (a b c : Value) : StrictlyOrdered a b c := by
  constructor
  case accepts => exact Comparison.exists_apply_iff (by decide)
  case irrefl =>
    intro r h
    cases r with
    | false => rfl
    | true => exact absurd h (lt_irrefl a)
  case converse => exact fun r => gt_eq_ok_iff.symm
  case asymm => exact lt_asymm
  case trans => exact lt_trans

/-- The integers `2^53` and `2^53 + 1` count as one double, and the chain goes on as doubles. -/
theorem strictlyOrdered_chain :
    Comparison.lt.Holds (int 9007199254740992) (int 9007199254740993) ∧
      Comparison.lt.Holds (int 9007199254740993) (float 9007199254740994.0) ∧
      Comparison.lt.Holds (int 9007199254740992) (float 9007199254740994.0) := by
  have hint : Comparison.lt.Holds (int 9007199254740992) (int 9007199254740993) := rfl
  have hfloat : Comparison.lt.Holds (int 9007199254740993) (float 9007199254740994.0) := rfl
  exact ⟨hint, hfloat, (strictlyOrdered _ _ _).trans hint hfloat⟩

/-- At most is not transitive: both integers count as the float. -/
example :
    Comparison.le.apply (int 9007199254740993) (float 9007199254740992.0) = .ok true ∧
      Comparison.le.apply (float 9007199254740992.0) (int 9007199254740992) = .ok true ∧
      Comparison.le.apply (int 9007199254740993) (int 9007199254740992) = .ok false :=
  ⟨rfl, rfl, rfl⟩

end Value

end Flowline
