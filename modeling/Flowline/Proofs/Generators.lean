/-
  How much `gen_vector` and `gen_matrix` build.

  Both refuse a request for more than `2^24` cells, and what they build has as
  many cells as were asked for.  A cell may be filled with a list, and then it
  holds as much as that list: so a vector of vectors can be as large as a matrix
  that is refused.

  * `Value.scalars`: how many values a value holds that are no lists;
  * `Builtin.Requests`: the cells that a call asks for, and their filling;
  * `Builtin.applyVector_eq_ok_iff`, `Builtin.applyMatrix_eq_ok_iff`: which calls
    succeed, and with what;
  * `Builtin.bounds_generators`: when a generated list is within the limit.
-/
import Flowline.Builtin.Apply
import Mathlib.Data.Prod.Basic

namespace Flowline

/-! ## Sizes -/

namespace Value

mutual
/-- The number of values in a value, at any depth, that are no lists. -/
def scalars : Value → Nat
  | list items => scalarsAll items
  | _ => 1

/-- The number of values in some values, at any depth, that are no lists. -/
def scalarsAll : List Value → Nat
  | [] => 0
  | v :: vs => v.scalars + scalarsAll vs
end

@[simp] theorem scalars_list (items : List Value) : (list items).scalars = scalarsAll items := by
  rw [scalars]

@[simp] theorem scalarsAll_replicate (n : Nat) (v : Value) :
    scalarsAll (List.replicate n v) = n * v.scalars := by
  induction n with
  | zero => rw [List.replicate_zero, scalarsAll, Nat.zero_mul]
  | succ n ih => rw [List.replicate_succ, scalarsAll, ih, Nat.succ_mul, Nat.add_comm]

end Value

namespace Builtin

/-! ## Requests -/

/-- What a call of a generator asks for: a number of cells, and what each is filled with,
    zero unless it is said. -/
inductive Requests : Builtin → List Value → Nat → Value → Prop
  | vector {n : Int64} {fill : Option Value} :
    0 ≤ n.toInt →
      Requests genVector (.int n :: fill.toList) n.toInt.toNat (fill.getD (.int 0))
  | matrix {rows cols : Int64} {fill : Option Value} :
    0 ≤ rows.toInt → 0 ≤ cols.toInt →
      Requests genMatrix (.int rows :: .int cols :: fill.toList)
        (rows.toInt.toNat * cols.toInt.toNat) (fill.getD (.int 0))

section
variable {f : Builtin} {args : List Value} {v w : Value} {fill : Option Value}

theorem oneOrTwo_eq_ok_iff : oneOrTwo f args = .ok (v, fill) ↔ args = v :: fill.toList := by
  constructor
  · intro h
    unfold oneOrTwo at h
    split at h <;> cases h <;> rfl
  · rintro rfl
    cases fill <;> rfl

theorem twoOrThree_eq_ok_iff :
    twoOrThree f args = .ok (v, w, fill) ↔ args = v :: w :: fill.toList := by
  constructor
  · intro h
    unfold twoOrThree at h
    split at h <;> cases h <;> rfl
  · rintro rfl
    cases fill <;> rfl

theorem count_eq_ok_iff {n : Nat} :
    count f v = .ok n ↔ ∃ k : Int64, v = .int k ∧ 0 ≤ k.toInt ∧ n = k.toInt.toNat := by
  constructor
  · intro h
    unfold count at h
    split at h
    next k =>
      split at h
      next hk => cases h; exact ⟨k, rfl, hk, rfl⟩
      next => cases h
    next => cases h
  · rintro ⟨k, rfl, hk, rfl⟩
    rw [count, if_pos hk]

theorem checkSize_eq_ok_iff {rows cols : Nat} {u : Unit} :
    checkSize f rows cols = .ok u ↔ rows * cols ≤ maxCells := by
  unfold checkSize
  split <;> simp_all

theorem applyVector_eq_ok_iff {n : Value} :
    applyVector n fill = .ok v ↔ ∃ k : Int64, n = .int k ∧ 0 ≤ k.toInt ∧
      k.toInt.toNat ≤ maxCells ∧ v = .list (List.replicate k.toInt.toNat (fill.getD (.int 0))) := by
  simp only [applyVector, bind_eq_ok, count_eq_ok_iff, checkSize_eq_ok_iff, Nat.one_mul, pure,
    Except.pure, Except.ok.injEq]
  constructor
  · rintro ⟨_, ⟨k, rfl, hk, rfl⟩, _, hsize, rfl⟩
    exact ⟨k, rfl, hk, hsize, rfl⟩
  · rintro ⟨k, rfl, hk, hsize, rfl⟩
    exact ⟨_, ⟨k, rfl, hk, rfl⟩, (), hsize, rfl⟩

theorem applyMatrix_eq_ok_iff {rows cols : Value} :
    applyMatrix rows cols fill = .ok v ↔ ∃ r c : Int64, rows = .int r ∧ cols = .int c ∧
      0 ≤ r.toInt ∧ 0 ≤ c.toInt ∧ r.toInt.toNat * Nat.max c.toInt.toNat 1 ≤ maxCells ∧
      v = .list (List.replicate r.toInt.toNat
        (.list (List.replicate c.toInt.toNat (fill.getD (.int 0))))) := by
  simp only [applyMatrix, bind_eq_ok, count_eq_ok_iff, checkSize_eq_ok_iff, pure,
    Except.pure, Except.ok.injEq]
  constructor
  · rintro ⟨_, ⟨r, rfl, hr, rfl⟩, _, ⟨c, rfl, hc, rfl⟩, _, hsize, rfl⟩
    exact ⟨r, c, rfl, rfl, hr, hc, hsize, rfl⟩
  · rintro ⟨r, c, rfl, rfl, hr, hc, hsize, rfl⟩
    exact ⟨_, ⟨r, rfl, hr, rfl⟩, _, ⟨c, rfl, hc, rfl⟩, (), hsize, rfl⟩

theorem apply_genVector (n : Value) (fill : Option Value) :
    genVector.apply (n :: fill.toList) = applyVector n fill := by
  cases fill <;> rfl

theorem apply_genMatrix (rows cols : Value) (fill : Option Value) :
    genMatrix.apply (rows :: cols :: fill.toList) = applyMatrix rows cols fill := by
  cases fill <;> rfl

/-! ## What is built -/

/-- Whatever a generator builds has been asked for, is within the limit, and holds what its
    cells are filled with. -/
theorem exists_requests_of_generate (hf : f = genVector ∨ f = genMatrix)
    (h : f.apply args = .ok v) :
    ∃ cells content, f.Requests args cells content ∧ cells ≤ maxCells ∧
      v.scalars = cells * content.scalars := by
  rcases hf with rfl | rfl
  · simp only [apply, bind_eq_ok, Prod.exists, oneOrTwo_eq_ok_iff] at h
    obtain ⟨_, fill, rfl, h⟩ := h
    obtain ⟨k, rfl, hk, hsize, rfl⟩ := applyVector_eq_ok_iff.1 h
    refine ⟨_, _, .vector hk, hsize, ?_⟩
    rw [Value.scalars_list, Value.scalarsAll_replicate]
  · simp only [apply, bind_eq_ok, Prod.exists, twoOrThree_eq_ok_iff] at h
    obtain ⟨_, _, fill, rfl, h⟩ := h
    obtain ⟨r, c, rfl, rfl, hr, hc, hsize, rfl⟩ := applyMatrix_eq_ok_iff.1 h
    refine ⟨_, _, .matrix hr hc, ?_, ?_⟩
    · exact Nat.le_trans (Nat.mul_le_mul_left _ (Nat.le_max_left _ _)) hsize
    · rw [Value.scalars_list, Value.scalarsAll_replicate, Value.scalars_list,
        Value.scalarsAll_replicate, Nat.mul_assoc]

/-- What is asked for, if it is anything and within the limit, is built. -/
theorem exists_generate_of_requests {cells : Nat} {content : Value}
    (h : f.Requests args cells content) (hpos : 0 < cells) (hsize : cells ≤ maxCells) :
    ∃ v, f.apply args = .ok v ∧ v.scalars = cells * content.scalars := by
  cases h with
  | @vector n fill hn =>
    refine ⟨_, (apply_genVector _ fill).trans
      (applyVector_eq_ok_iff.2 ⟨n, rfl, hn, hsize, rfl⟩), ?_⟩
    rw [Value.scalars_list, Value.scalarsAll_replicate]
  | @matrix rows cols fill hr hc =>
    have hcols : Nat.max cols.toInt.toNat 1 = cols.toInt.toNat :=
      Nat.max_eq_left (Nat.pos_of_mul_pos_left hpos)
    have hsize' : rows.toInt.toNat * Nat.max cols.toInt.toNat 1 ≤ maxCells := by rwa [hcols]
    refine ⟨_, (apply_genMatrix _ _ fill).trans
      (applyMatrix_eq_ok_iff.2 ⟨rows, cols, rfl, rfl, hr, hc, hsize', rfl⟩), ?_⟩
    rw [Value.scalars_list, Value.scalarsAll_replicate, Value.scalars_list,
      Value.scalarsAll_replicate, Nat.mul_assoc]

end

/-! ## The limit -/

/-- Whatever a call gives holds no more values, at any depth, than the limit. -/
def KeepsLimit (f : Builtin) (args : List Value) : Prop :=
  ∀ v, f.apply args = .ok v → v.scalars ≤ maxCells

/-- How the size of what a generator builds is bounded. -/
structure Bounds (f : Builtin) (args : List Value) : Prop where
  /-- The limit holds for the cells that are asked for, not for what they are filled with. -/
  cells : ∀ v, f.apply args = .ok v →
    ∃ cells content, f.Requests args cells content ∧ cells ≤ maxCells ∧
      v.scalars = cells * content.scalars
  /-- It holds for the result exactly if it does for the filling of all cells. -/
  keepsLimit_iff : f.KeepsLimit args ↔
    ∀ cells content, f.Requests args cells content → cells ≤ maxCells →
      cells * content.scalars ≤ maxCells
  /-- So it holds for the result if no cell is filled with a list. -/
  plain : (∀ cells content, f.Requests args cells content → content.scalars ≤ 1) →
    f.KeepsLimit args

section
variable {f : Builtin}

theorem bounds_of_generator (hf : f = genVector ∨ f = genMatrix) (args : List Value) :
    f.Bounds args := by
  constructor
  case cells => exact fun v h => exists_requests_of_generate hf h
  case keepsLimit_iff =>
    constructor
    · intro hkeeps cells content hrequests hsize
      rcases Nat.eq_zero_or_pos cells with rfl | hpos
      · rw [Nat.zero_mul]
        exact Nat.zero_le _
      · obtain ⟨v, happly, hscalars⟩ := exists_generate_of_requests hrequests hpos hsize
        exact hscalars ▸ hkeeps v happly
    · intro hfill v happly
      obtain ⟨cells, content, hrequests, hsize, hscalars⟩ := exists_requests_of_generate hf happly
      exact hscalars ▸ hfill cells content hrequests hsize
  case plain =>
    intro hplain v happly
    obtain ⟨cells, content, hrequests, hsize, hscalars⟩ := exists_requests_of_generate hf happly
    calc v.scalars = cells * content.scalars := hscalars
      _ ≤ cells * 1 := Nat.mul_le_mul_left _ (hplain cells content hrequests)
      _ ≤ maxCells := by rwa [Nat.mul_one]

end

/-- **A generated list is within the limit exactly if what its cells are filled with is,
    all in all.**  That is so for all fillings that are no lists. -/
theorem bounds_generators (args : List Value) :
    genVector.Bounds args ∧ genMatrix.Bounds args :=
  ⟨bounds_of_generator (.inl rfl) args, bounds_of_generator (.inr rfl) args⟩

/-- A vector of vectors is larger than the limit, although the matrix of the same size is
    refused. -/
theorem not_keepsLimit_nested :
    genVector.apply [.int 4096] = .ok (.list (List.replicate 4096 (.int 0))) ∧
      ¬ genVector.KeepsLimit [.int 4097, .list (List.replicate 4096 (.int 0))] ∧
      genMatrix.apply [.int 4097, .int 4096] = .error (.tooLarge genMatrix 4097 4096) := by
  refine ⟨rfl, fun hkeeps => ?_, rfl⟩
  have hrequests := @Requests.vector 4097 (some (.list (List.replicate 4096 (.int 0)))) (by decide)
  obtain ⟨v, happly, hscalars⟩ :=
    exists_generate_of_requests hrequests (by decide) (by decide)
  have hle := hkeeps v happly
  rw [hscalars, Option.getD_some, Value.scalars_list, Value.scalarsAll_replicate] at hle
  exact absurd hle (by decide)

end Builtin

end Flowline
