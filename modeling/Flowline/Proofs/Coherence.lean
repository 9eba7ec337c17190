/-
  The six comparisons of two values against one another.

  The order of two values decides four of the comparisons; the other two ask
  whether the values are equal, which is decided apart from the order.  So the
  comparisons are coherent exactly if the two agree on when values are equal.
  They do for all numbers and strings but two integers, which are ordered
  exactly and yet equal as soon as they count as the same double.

  * `Comparison.apply_of_ordering`: the comparisons of two ordered values;
  * `Value.coherent_iff_equal_eq`: coherence as agreement of order and equality;
  * `Value.coherent_iff_of_lt_eq_ok`: which pairs are compared coherently;
  * `Value.coherent_int`: integers below `2^53` in magnitude are.
-/
import Flowline.Proofs.Doubles

namespace Flowline

/-! ## Coherence -/

/-- A comparison of two values is evaluated without a fault, and true. -/
def Comparison.Holds (o : Comparison) (a b : Value) : Prop :=
  o.apply a b = .ok true

namespace Value

/-- The comparisons of two values are coherent. -/
structure Coherent (a b : Value) : Prop where
  /-- All of them can be evaluated. -/
  defined : ∀ o : Comparison, ∃ r, o.apply a b = .ok r
  /-- Exactly one of less, equal and greater is true. -/
  trichotomy : ∃! o, o ∈ [Comparison.lt, .eq, .gt] ∧ o.Holds a b
  le : Comparison.le.Holds a b ↔ Comparison.lt.Holds a b ∨ Comparison.eq.Holds a b
  ge : Comparison.ge.Holds a b ↔ Comparison.gt.Holds a b ∨ Comparison.eq.Holds a b
  ne : Comparison.ne.Holds a b ↔ ¬ Comparison.eq.Holds a b
  /-- Equal integers are the same. -/
  same : ∀ x y, a = int x → b = int y → Comparison.eq.Holds a b → x = y

/-- A float that is not a number. -/
def isNaN : Value → Bool
  | float x => x.isNaN
  | _ => false

end Value

variable {a b : Value}

/-- What a failed call left behind is not ordered. -/
theorem Value.isError_eq_false_of_ordering {ord : Option Ordering} (h : a.ordering b = .ok ord) :
    (a.isError || b.isError) = false := by
  cases a <;> cases b <;> first | rfl | cases h

/-- Values that are ordered are compared by their order, unless the comparison
    is about equality. -/
theorem Comparison.apply_of_ordering {ord : Ordering} (h : a.ordering b = .ok (some ord))
    (o : Comparison) :
    o.apply a b = .ok (match o with
      | .eq => a.equal b
      | .ne => !a.equal b
      | o => o.admits ord) := by
  unfold Comparison.apply
  rw [Value.isError_eq_false_of_ordering h, if_neg Bool.false_ne_true]
  cases o <;> simp only [h] <;> rfl

theorem compareOfLessAndEq_beq_eq {α : Type} [LT α] [DecidableLT α] [DecidableEq α]
    (irrefl : ∀ x : α, ¬ x < x) (x y : α) :
    (compareOfLessAndEq x y == .eq) = decide (x = y) := by
  unfold compareOfLessAndEq
  by_cases hlt : x < y
  · have hne : x ≠ y := fun h => irrefl y (h ▸ hlt)
    rw [if_pos hlt, decide_eq_false hne]
    rfl
  · by_cases heq : x = y
    · rw [if_neg hlt, if_pos heq, decide_eq_true heq]
      rfl
    · rw [if_neg hlt, if_neg heq, decide_eq_false heq]
      rfl

namespace Value

/-- Order and equality agree on when two values are equal. -/
theorem coherent_of_equal_eq {ord : Ordering} (h : a.ordering b = .ok (some ord))
    (heq : a.equal b = (ord == .eq)) : Coherent a b := by
  have happly (o : Comparison) : o.apply a b = .ok (o.admits ord) := by
    rw [Comparison.apply_of_ordering h]
    cases o <;> simp only [heq] <;> rfl
  have hholds (o : Comparison) : o.Holds a b ↔ o.admits ord = true := by
    rw [Comparison.Holds, happly, Except.ok.injEq]
  constructor
  case defined => exact fun o => ⟨_, happly o⟩
  case trichotomy =>
    simp only [hholds]
    cases ord with
    | lt => exact ⟨.lt, by decide, by rintro (_ | _) <;> decide⟩
    | eq => exact ⟨.eq, by decide, by rintro (_ | _) <;> decide⟩
    | gt => exact ⟨.gt, by decide, by rintro (_ | _) <;> decide⟩
  case le => simp only [hholds]; cases ord <;> decide
  case ge => simp only [hholds]; cases ord <;> decide
  case ne => simp only [hholds]; cases ord <;> decide
  case same =>
    rintro x y rfl rfl hxy
    obtain rfl : compareOfLessAndEq x.toInt y.toInt = ord := by
      simpa only [ordering, Except.ok.injEq, Option.some.injEq] using h
    rw [hholds, Comparison.admits, compareOfLessAndEq_beq_eq Int.lt_irrefl, decide_eq_true_iff]
      at hxy
    exact Int64.toInt_inj.1 hxy

/-- The comparisons are coherent exactly if order and equality agree. -/
theorem coherent_iff_equal_eq {ord : Ordering} (h : a.ordering b = .ok (some ord)) :
    Coherent a b ↔ a.equal b = (ord == .eq) := by
  refine ⟨fun hc => ?_, coherent_of_equal_eq h⟩
  obtain ⟨o, ⟨ho, hholds⟩, huniq⟩ := hc.trichotomy
  cases hequal : a.equal b with
  | true =>
    -- Equality is the one that is true, so less and greater are not.
    have heq : Comparison.eq.Holds a b := by
      rw [Comparison.Holds, Comparison.apply_of_ordering h, hequal]
    have hlt : ¬ Comparison.lt.Holds a b := fun hlt =>
      nomatch (huniq .lt ⟨by decide, hlt⟩).trans (huniq .eq ⟨by decide, heq⟩).symm
    have hgt : ¬ Comparison.gt.Holds a b := fun hgt =>
      nomatch (huniq .gt ⟨by decide, hgt⟩).trans (huniq .eq ⟨by decide, heq⟩).symm
    cases ord with
    | lt => exact absurd (Comparison.apply_of_ordering h .lt) hlt
    | eq => rfl
    | gt => exact absurd (Comparison.apply_of_ordering h .gt) hgt
  | false =>
    -- Less or greater is true, which an order that says equal does not admit.
    rw [Comparison.Holds, Comparison.apply_of_ordering h, Except.ok.injEq] at hholds
    cases ord with
    | lt | gt => rfl
    | eq =>
      simp only [List.mem_cons, List.not_mem_nil, or_false] at ho
      obtain rfl | rfl | rfl := ho
      · cases hholds
      · exact hequal.symm.trans hholds
      · cases hholds

/-! ## Numbers and strings -/

/-- Numbers are equal when they count as the same double. -/
theorem equal_eq_beq {p q : Float} (hp : a.number? = some p) (hq : b.number? = some q) :
    a.equal b = (p == q) := by
  cases a <;> cases hp <;> cases b <;> cases hq <;> rfl

/-- Truth values are ordered as the doubles zero and one. -/
theorem floatOrdering_bool (x y : Bool) :
    floatOrdering (if x then 1.0 else 0.0) (if y then 1.0 else 0.0) =
      some (compareOfLessAndEq (Whole.ofBool x).toInt (Whole.ofBool y).toInt) := by
  cases x <;> cases y <;> decide +kernel

/-- Numbers that are not both integers are ordered as doubles. -/
theorem ordering_eq_floatOrdering {p q : Float} (hp : a.number? = some p)
    (hq : b.number? = some q) (hint : ∀ x y, a = int x → b ≠ int y) :
    a.ordering b = .ok (floatOrdering p q) := by
  cases a <;> cases hp <;> cases b <;> cases hq <;> try rfl
  case int.refl.int.refl x y => exact absurd rfl (hint x y rfl)
  case bool.refl.bool.refl x y => exact congrArg Except.ok (floatOrdering_bool x y).symm

theorem not_isNaN_of_number? {p : Float} (hp : a.number? = some p) (ha : a.isNaN = false) :
    p.isNaN = false := by
  cases a with
  | int x => cases hp; exact Whole.not_isNaN_toFloat x
  | float x => cases hp; exact ha
  | bool x => cases hp; cases x <;> decide +kernel
  | str | list | none | error => cases hp

/-- Only strings and numbers are ordered. -/
theorem str_or_number_of_ordering_eq_ok {ord : Option Ordering} (h : a.ordering b = .ok ord) :
    (∃ s t, a = str s ∧ b = str t) ∨ ∃ p q, a.number? = some p ∧ b.number? = some q := by
  cases a <;> cases b <;> first
    | exact .inl ⟨_, _, rfl, rfl⟩
    | exact .inr ⟨_, _, rfl, rfl⟩
    | cases h

theorem str_or_number_of_lt_eq_ok {r : Bool} (h : Comparison.lt.apply a b = .ok r) :
    (∃ s t, a = str s ∧ b = str t) ∨ ∃ p q, a.number? = some p ∧ b.number? = some q := by
  cases hord : a.ordering b with
  | error fault =>
    unfold Comparison.apply at h
    rw [hord] at h
    split at h <;> cases h
  | ok ord => exact str_or_number_of_ordering_eq_ok hord

theorem coherent_str (s t : String) : Coherent (str s) (str t) := by
  rw [coherent_iff_equal_eq rfl, compareOfLessAndEq_beq_eq String.lt_irrefl]
  rfl

theorem coherent_int_iff (x y : Int64) :
    Coherent (int x) (int y) ↔ ((Whole.toFloat x == Whole.toFloat y) = true → x = y) := by
  rw [coherent_iff_equal_eq rfl, compareOfLessAndEq_beq_eq Int.lt_irrefl, equal_eq_beq rfl rfl]
  have hself : (Whole.toFloat x == Whole.toFloat x) = true :=
    (Double.beq_iff_rank_eq (Whole.not_isNaN_toFloat x) (Whole.not_isNaN_toFloat x)).2 rfl
  rw [Bool.eq_iff_iff, decide_eq_true_iff, Int64.toInt_inj]
  exact ⟨Iff.mp, fun h => ⟨h, fun hxy => hxy ▸ hself⟩⟩

/-- Integers below `2^53` in magnitude are compared coherently. -/
theorem coherent_int {x y : Int64} (hx : x.toInt.natAbs < 2 ^ 53) (hy : y.toInt.natAbs < 2 ^ 53) :
    Coherent (int x) (int y) :=
  (coherent_int_iff x y).2 (Whole.eq_of_toFloat_beq hx hy)

/-- Numbers that are not both integers are compared coherently. -/
theorem coherent_of_number? {p q : Float} (hp : a.number? = some p) (hq : b.number? = some q)
    (ha : a.isNaN = false) (hb : b.isNaN = false) (hint : ∀ x y, a = int x → b ≠ int y) :
    Coherent a b := by
  have hp' := not_isNaN_of_number? hp ha
  have hq' := not_isNaN_of_number? hq hb
  have hord : a.ordering b = .ok (some (compare (Double.rank p) (Double.rank q))) := by
    rw [ordering_eq_floatOrdering hp hq hint, Double.floatOrdering_eq hp' hq']
  rw [coherent_iff_equal_eq hord, equal_eq_beq hp hq, Bool.eq_iff_iff,
    Double.beq_iff_rank_eq hp' hq', beq_iff_eq, compare_eq_iff_eq]

/-- **The comparisons of two values that are ordered, and not NaN, are coherent,
    unless they are two integers that only count as the same double.** -/
theorem coherent_iff_of_lt_eq_ok {r : Bool} (h : Comparison.lt.apply a b = .ok r)
    (ha : a.isNaN = false) (hb : b.isNaN = false) :
    Coherent a b ↔
      ∀ x y, a = int x → b = int y → (Whole.toFloat x == Whole.toFloat y) = true → x = y := by
  obtain ⟨s, t, rfl, rfl⟩ | ⟨p, q, hp, hq⟩ := str_or_number_of_lt_eq_ok h
  · exact iff_of_true (coherent_str s t) nofun
  · by_cases hint : ∀ x y, a = int x → b ≠ int y
    · exact iff_of_true (coherent_of_number? hp hq ha hb hint)
        fun x y hx hy => absurd hy (hint x y hx)
    · push Not at hint
      obtain ⟨x, y, rfl, rfl⟩ := hint
      rw [coherent_int_iff]
      constructor
      · rintro hxy _ _ ⟨⟩ ⟨⟩
        exact hxy
      · exact fun hxy => hxy x y rfl rfl

/-- `2^53 + 1` is no double; against one it counts as the nearest. -/
theorem coherent_iff_of_lt_eq_ok_float :
    Comparison.lt.apply (int 9007199254740993) (float 9007199254740992.0) = .ok false ∧
      isNaN (int 9007199254740993) = false ∧ isNaN (float 9007199254740992.0) = false ∧
      Coherent (int 9007199254740993) (float 9007199254740992.0) := by
  have hlt : Comparison.lt.apply (int 9007199254740993) (float 9007199254740992.0) = .ok false := by
    rfl
  have hnan : isNaN (float 9007199254740992.0) = false := by decide +kernel
  exact ⟨hlt, rfl, hnan, (coherent_iff_of_lt_eq_ok hlt rfl hnan).2 nofun⟩

/-- The integer `2^53` is less than `2^53 + 1`, and equal to it. -/
theorem not_coherent_int :
    Comparison.lt.Holds (int 9007199254740992) (int 9007199254740993) ∧
      Comparison.eq.Holds (int 9007199254740992) (int 9007199254740993) ∧
      ¬ Coherent (int 9007199254740992) (int 9007199254740993) := by
  have hbeq : (Whole.toFloat 9007199254740992 == Whole.toFloat 9007199254740993) = true := by
    decide +kernel
  refine ⟨rfl, congrArg Except.ok hbeq, fun h => ?_⟩
  exact absurd ((coherent_int_iff _ _).1 h hbeq) (by decide)

end Value

end Flowline
