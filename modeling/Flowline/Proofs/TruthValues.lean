/-
  Truth values in place of the numbers zero and one.

  Each operator comes to the number behind a truth value on a way of its own:
  arithmetic by making it an integer, division and equality by counting it as
  a double, the order by comparing it with its like apart, and equality of
  lists item by item.  All of them see zero and one.

  * `Value.Counted`: a value, and what is left of it when some truth values in it,
    at any depth, are replaced by zero and one;
  * `Arith.apply_unbool`, `Value.ordering_unbool`: operators on numbers;
  * `Value.equal_counted`: equality, also of nested lists;
  * `Value.operatedAlike_of_counted`: no operator can tell the difference.
-/
import Flowline.Proofs.Order

namespace Flowline

/-! ## Replacing truth values -/

namespace Value

/-- A value, and the same with some truth values in it replaced by zero and one. -/
inductive Counted : Value → Value → Prop
  | same (v : Value) : Counted v v
  | bool (b : Bool) : Counted (.bool b) (.int (Whole.ofBool b))
  | list {items items' : List Value} :
    List.Forall₂ Counted items items' → Counted (.list items) (.list items')

variable {a a' b b' : Value}

theorem number?_ofBool (b : Bool) : (int (Whole.ofBool b)).number? = (bool b).number? := by
  cases b <;> rfl

theorem Counted.number?_eq (h : Counted a a') : a.number? = a'.number? := by
  cases h with
  | same => rfl
  | bool b => exact (number?_ofBool b).symm
  | list => rfl

theorem Counted.isNumber_eq (h : Counted a a') : a.isNumber = a'.isNumber := by
  cases h <;> rfl

theorem Counted.isError_eq (h : Counted a a') : a.isError = a'.isError := by
  cases h <;> rfl

/-- As an integer, a truth value is what it was replaced by. -/
theorem Counted.unbool_eq (h : Counted a a') (ha : a.isNumber) : a.unbool = a'.unbool := by
  cases h with
  | same => rfl
  | bool b => rfl
  | list => cases ha

theorem Counted.exists_of_list {items : List Value} (h : Counted (.list items) a') :
    ∃ items', a' = .list items' ∧ List.Forall₂ Counted items items' := by
  cases h with
  | same => exact ⟨items, rfl, List.forall₂_same.2 fun v _ => .same v⟩
  | list h => exact ⟨_, rfl, h⟩

/-! ## Numbers -/

theorem number?_unbool (a : Value) : a.unbool.number? = a.number? := by
  cases a <;> first | rfl | exact number?_ofBool _

theorem unbool_unbool (a : Value) : a.unbool.unbool = a.unbool := by
  cases a <;> rfl

theorem isNumber_unbool (ha : a.isNumber) : a.unbool.isNumber := by
  cases a <;> first | rfl | cases ha

/-- Two numbers are promoted by making integers of the truth values. -/
theorem promote_of_isNumber (ha : a.isNumber) (hb : b.isNumber) :
    promote a b = (a.unbool, b.unbool) := by
  obtain ⟨p, hp⟩ := isNumber_iff.1 ha
  obtain ⟨q, hq⟩ := isNumber_iff.1 hb
  rw [promote, hp, hq]
  rfl

theorem promote_unbool (ha : a.isNumber) (hb : b.isNumber) :
    promote a.unbool b.unbool = promote a b := by
  rw [promote_of_isNumber ha hb, promote_of_isNumber (isNumber_unbool ha) (isNumber_unbool hb),
    unbool_unbool, unbool_unbool]

theorem div_unbool (ha : a.isNumber) (hb : b.isNumber) : div a.unbool b.unbool = div a b := by
  obtain ⟨p, hp⟩ := isNumber_iff.1 ha
  obtain ⟨q, hq⟩ := isNumber_iff.1 hb
  simp only [div, number?_unbool, hp, hq]

theorem natAbs_ofBool_lt (b : Bool) : (Whole.ofBool b).toInt.natAbs < 2 ^ 53 - 1 := by
  cases b <;> decide

/-- Next to a truth value, an integer is ordered as a double, which for zero and one is the
    exact order. -/
theorem ordering_unbool (ha : a.isNumber) (hb : b.isNumber) :
    a.unbool.ordering b.unbool = a.ordering b := by
  have hcount (x : Bool) : Whole.toFloat (Whole.ofBool x) = if x then 1.0 else 0.0 := by
    cases x <;> rfl
  cases a <;> cases ha <;> cases b <;> cases hb
  case int.refl.bool.refl x y =>
    show _ = Except.ok (floatOrdering (Whole.toFloat x) _)
    rw [← hcount, Whole.floatOrdering_toFloat (.inr (natAbs_ofBool_lt y))]
    rfl
  case bool.refl.int.refl x y =>
    show _ = Except.ok (floatOrdering _ (Whole.toFloat y))
    rw [← hcount, Whole.floatOrdering_toFloat (.inl (natAbs_ofBool_lt x))]
    rfl
  case bool.refl.float.refl x q =>
    exact congrArg (fun p => Except.ok (floatOrdering p q)) (hcount x)
  case float.refl.bool.refl p y =>
    exact congrArg (fun q => Except.ok (floatOrdering p q)) (hcount y)
  all_goals rfl

end Value

theorem Arith.apply_unbool {a b : Value} (o : Arith) (ha : a.isNumber) (hb : b.isNumber) :
    o.apply a.unbool b.unbool = o.apply a b := by
  have hpromote := Value.promote_unbool ha hb
  cases o with
  | plus => simp only [apply, Value.add, hpromote]
  | minus => simp only [apply, Value.sub, hpromote]
  | times => simp only [apply, Value.mul, hpromote]
  | divide => exact Value.div_unbool ha hb
  | power => simp only [apply, Value.pow, hpromote]

/-! ## Equality -/

namespace Value

variable {a a' b b' : Value}

theorem equal_of_number? {p : Float} (hp : a.number? = some p) :
    a.equal b = (b.number?.map (p == ·)).getD false := by
  cases a <;> cases hp <;> cases b <;> rfl

mutual
/-- Equality sees the numbers behind truth values, at any depth. -/
theorem equal_counted {a' b b' : Value} :
    ∀ {a : Value}, Counted a a' → Counted b b' → a.equal b = a'.equal b'
  | .list items, ha, hb => by
    obtain ⟨items', rfl, hitems⟩ := ha.exists_of_list
    cases b with
    | list others =>
      obtain ⟨others', rfl, hothers⟩ := hb.exists_of_list
      exact equalAll_counted hitems hothers
    | _ => cases hb <;> rfl
  | .int _, ha, hb | .float _, ha, hb | .bool _, ha, hb => by
    rw [equal_of_number? rfl, equal_of_number? (ha.number?_eq.symm.trans rfl), hb.number?_eq]
  | .str _, ha, hb | .none, ha, hb | .error _, ha, hb => by
    cases ha
    cases hb <;> rfl

theorem equalAll_counted {xs' ys ys' : List Value} :
    ∀ {xs : List Value}, List.Forall₂ Counted xs xs' → List.Forall₂ Counted ys ys' →
      equalAll xs ys = equalAll xs' ys'
  | [], hx, hy => by
    cases hx
    cases hy <;> rfl
  | x :: xs, hx, hy => by
    cases hx with
    | cons hx hxs =>
      cases hy with
      | nil => rfl
      | cons hy hys =>
        rw [equalAll, equalAll, equal_counted hx hy, equalAll_counted hxs hys]
end

/-! ## Operators -/

theorem truth_counted (h : Counted a a') : a.truth = a'.truth := by
  cases h with
  | same => rfl
  | bool b => cases b <;> rfl
  | list h => cases h <;> rfl

theorem ordering_counted (ha : Counted a a') (hb : Counted b b') (hanum : a.isNumber)
    (hbnum : b.isNumber) : a.ordering b = a'.ordering b' := by
  rw [← ordering_unbool hanum hbnum, ha.unbool_eq hanum, hb.unbool_eq hbnum,
    ordering_unbool (ha.isNumber_eq ▸ hanum) (hb.isNumber_eq ▸ hbnum)]

end Value

theorem Arith.apply_counted {a a' b b' : Value} (o : Arith) (ha : a.Counted a') (hb : b.Counted b')
    (hanum : a.isNumber) (hbnum : b.isNumber) : o.apply a b = o.apply a' b' := by
  rw [← o.apply_unbool hanum hbnum, ha.unbool_eq hanum, hb.unbool_eq hbnum,
    o.apply_unbool (ha.isNumber_eq ▸ hanum) (hb.isNumber_eq ▸ hbnum)]

/-- Comparisons of what is no error value ask for equality and for the order only. -/
theorem Comparison.apply_congr {a a' b b' : Value} (ha : a.isError = false)
    (hb : b.isError = false) (ha' : a'.isError = false) (hb' : b'.isError = false)
    (hequal : a.equal b = a'.equal b') (o : Comparison)
    (hord : o ∉ [Comparison.eq, .ne] → a.ordering b = a'.ordering b') :
    o.apply a b = o.apply a' b' := by
  unfold apply
  rw [ha, hb, ha', hb', Bool.or_self, if_neg Bool.false_ne_true, if_neg Bool.false_ne_true]
  cases o with
  | eq | ne => simp only [hequal]
  | gt | lt | ge | le => simp only [hord (by decide)]

/-- The operators give the same for two operands as for two others. -/
structure Value.OperatedAlike (a b a' b' : Value) : Prop where
  /-- Arithmetic on numbers and truth values. -/
  arith : a.isNumber → b.isNumber → ∀ o : Arith, o.apply a b = o.apply a' b'
  /-- All comparisons of numbers and truth values. -/
  compare : a.isNumber → b.isNumber → ∀ o : Comparison, o.apply a b = o.apply a' b'
  /-- Equality and its negation, of whatever is no error value. -/
  equality : a.isError = false → b.isError = false →
    ∀ o ∈ [Comparison.eq, .ne], o.apply a b = o.apply a' b'
  /-- The test of a condition or of an operand of a logical operator. -/
  truth : a.truth = a'.truth ∧ b.truth = b'.truth

/-- **Truth values behave as zero and one.**  If some are replaced by these integers, at
    any depth for equality and for tests, then each operator gives the same value or
    fails in the same way. -/
theorem Value.operatedAlike_of_counted {a a' b b' : Value} (ha : a.Counted a')
    (hb : b.Counted b') : OperatedAlike a b a' b' := by
  have hequal := equal_counted ha hb
  constructor
  case arith => exact fun hanum hbnum o => o.apply_counted ha hb hanum hbnum
  case compare =>
    intro hanum hbnum o
    have hnotError {v : Value} (hv : v.isNumber) : v.isError = false := by
      cases v <;> first | rfl | cases hv
    exact Comparison.apply_congr (hnotError hanum) (hnotError hbnum)
      (hnotError (ha.isNumber_eq ▸ hanum)) (hnotError (hb.isNumber_eq ▸ hbnum)) hequal o
      fun _ => ordering_counted ha hb hanum hbnum
  case equality =>
    intro haerr hberr o ho
    exact Comparison.apply_congr haerr hberr (ha.isError_eq ▸ haerr) (hb.isError_eq ▸ hberr)
      hequal o (absurd ho)
  case truth => exact ⟨truth_counted ha, truth_counted hb⟩

/-- A truth value next to an integer that is no double, and truth values in lists, of which
    only some are replaced. -/
theorem Value.operatedAlike_of_counted_nested :
    ((bool true).Counted (int 1) ∧ (int 9007199254740993).Counted (int 9007199254740993) ∧
      OperatedAlike (bool true) (int 9007199254740993) (int 1) (int 9007199254740993)) ∧
    ((list [bool true, list [bool false, none]]).Counted (list [bool true, list [int 0, none]]) ∧
      (list [int 1, list [float 0.0, none]]).Counted (list [int 1, list [float 0.0, none]]) ∧
      OperatedAlike (list [bool true, list [bool false, none]])
        (list [int 1, list [float 0.0, none]]) (list [bool true, list [int 0, none]])
        (list [int 1, list [float 0.0, none]])) := by
  have hinner : (list [bool false, none]).Counted (list [int 0, none]) :=
    .list (.cons (.bool false) (.cons (.same none) .nil))
  have houter : (list [bool true, list [bool false, none]]).Counted
      (list [bool true, list [int 0, none]]) :=
    .list (.cons (.same _) (.cons hinner .nil))
  exact ⟨⟨.bool true, .same _, operatedAlike_of_counted (.bool true) (.same _)⟩,
    houter, .same _, operatedAlike_of_counted houter (.same _)⟩

end Flowline
