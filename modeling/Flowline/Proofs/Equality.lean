/-
  The equality of values.

  Numbers are equal as doubles, strings and error values as they are, lists item
  by item.  All of this comes to one thing: each value has a content, in which
  a number is its rank among the doubles, and values are equal if they have the
  same content.  Only a value that holds a NaN has none, and is not even equal
  to itself.

  * `Value.HoldsNaN`, `Value.family`: values with a NaN at some depth, and the
    classes of values;
  * `Value.content?`: what equal values have in common;
  * `Value.equal_iff_sameContent`: equality is sameness of content;
  * `Value.equal_self_iff`: which values are equal to themselves;
  * `Value.equivalence_equal`: equality is an equivalence of the values without
    NaN, and keeps the classes apart.
-/
import Flowline.Proofs.Order

namespace Flowline

/-! ## Doubles -/

namespace Double

theorem not_isNaN_of_beq {p q : Float} (h : (p == q) = true) :
    p.isNaN = false ∧ q.isNaN = false :=
  not_isNaN_of_compare (eq_of_beq h)

/-- The rank of a double that is a number. -/
def rank? (x : Float) : Option (Int ×ₗ Int ×ₗ Int) :=
  if x.isNaN then none else some (rank x)

theorem rank?_eq_none_iff {x : Float} : rank? x = none ↔ x.isNaN = true := by
  unfold rank?
  split_ifs with h
  · exact iff_of_true rfl h
  · exact iff_of_false nofun h

theorem rank?_eq_some_iff {x : Float} {r : Int ×ₗ Int ×ₗ Int} :
    rank? x = some r ↔ x.isNaN = false ∧ rank x = r := by
  unfold rank?
  split_ifs with h
  · exact iff_of_false nofun fun hx => Bool.noConfusion (h.symm.trans hx.1)
  · rw [Option.some.injEq, Bool.eq_false_iff, and_iff_right h]

/-- Doubles are equal if they are numbers of one rank. -/
theorem beq_iff_rank? {p q : Float} :
    (p == q) = true ↔ ∃ r, rank? p = some r ∧ rank? q = some r := by
  simp only [rank?_eq_some_iff]
  constructor
  · intro h
    obtain ⟨hp, hq⟩ := not_isNaN_of_beq h
    exact ⟨rank p, ⟨hp, rfl⟩, hq, ((beq_iff_rank_eq hp hq).1 h).symm⟩
  · rintro ⟨r, ⟨hp, hpr⟩, hq, hqr⟩
    exact (beq_iff_rank_eq hp hq).2 (hpr.trans hqr.symm)

end Double

namespace Value

variable {a b c : Value}

/-! ## Classes -/

/-- The classes of values. -/
inductive Family where
  | number | str | none | error | list

/-- The class of a value; truth values are among the numbers. -/
def family : Value → Family
  | int _ | float _ | bool _ => .number
  | str _ => .str
  | none => .none
  | error _ => .error
  | list _ => .list

theorem family_eq_of_equal (h : a.equal b = true) : a.family = b.family := by
  cases a <;> cases b <;> first | rfl | cases h

/-! ## Contents -/

/-- What equality compares of a value. -/
inductive Content where
  | number (rank : Int ×ₗ Int ×ₗ Int)
  | str (s : String)
  | none
  | error (message : String)
  | list (items : List Content)

def Content.family : Content → Family
  | number _ => .number
  | str _ => .str
  | none => .none
  | error _ => .error
  | list _ => .list

mutual
/-- The content of a value, absent if it holds a NaN. -/
def content? : Value → Option Content
  | list items => (contents? items).map .list
  | str s => some (.str s)
  | none => some .none
  | error message => some (.error message)
  | a => (a.number?.bind Double.rank?).map .number

/-- The contents of some values, absent if one of them holds a NaN. -/
def contents? : List Value → Option (List Content)
  | [] => some []
  | v :: vs => (content? v).bind fun d => (contents? vs).map (d :: ·)
end

theorem content?_of_number? {p : Float} (h : a.number? = some p) :
    a.content? = (Double.rank? p).map .number := by
  cases a <;> cases h <;> rfl

theorem contents?_cons_eq_some_iff {v : Value} {vs : List Value} {ds : List Content} :
    contents? (v :: vs) = some ds ↔
      ∃ d ds', v.content? = some d ∧ contents? vs = some ds' ∧ d :: ds' = ds := by
  simp only [contents?, Option.bind_eq_some_iff, Option.map_eq_some_iff, exists_and_left]

theorem contents?_cons_ne_nil {v : Value} {vs : List Value} : contents? (v :: vs) ≠ some [] := by
  rw [ne_eq, contents?_cons_eq_some_iff]
  rintro ⟨_, _, -, -, ⟨⟩⟩

theorem family_of_content? {d : Content} (h : a.content? = some d) : d.family = a.family := by
  cases a with
  | int | float | bool =>
    rw [content?_of_number? rfl] at h
    obtain ⟨r, -, rfl⟩ := Option.map_eq_some_iff.1 h
    rfl
  | list items =>
    rw [content?] at h
    obtain ⟨ds, -, rfl⟩ := Option.map_eq_some_iff.1 h
    rfl
  | str | none | error => cases h; rfl

/-! ## Equality -/

/-- Two values have a content, and it is the same. -/
def SameContent (a b : Value) : Prop :=
  ∃ d, a.content? = some d ∧ b.content? = some d

/-- Values of different classes are not equal and have no content in common. -/
theorem equal_iff_of_family_ne (h : a.family ≠ b.family) :
    a.equal b = true ↔ SameContent a b :=
  iff_of_false (fun hab => h (family_eq_of_equal hab))
    fun ⟨_, ha, hb⟩ => h ((family_of_content? ha).symm.trans (family_of_content? hb))

/-- What is built in one way from two things is the same if these are. -/
theorem exists_map_eq_some_iff {α β : Type} {f : α → β} (hf : Function.Injective f)
    {x y : Option α} :
    (∃ d, x.map f = some d ∧ y.map f = some d) ↔ ∃ r, x = some r ∧ y = some r := by
  constructor
  · rintro ⟨_, hx, hy⟩
    obtain ⟨r, rfl, rfl⟩ := Option.map_eq_some_iff.1 hx
    obtain ⟨r', rfl, hr⟩ := Option.map_eq_some_iff.1 hy
    exact ⟨r, rfl, congrArg some (hf hr)⟩
  · rintro ⟨r, rfl, rfl⟩
    exact ⟨f r, rfl, rfl⟩

theorem exists_eq_some_iff {α : Type} {x y : α} :
    (∃ d, some x = some d ∧ some y = some d) ↔ x = y := by
  constructor
  · rintro ⟨_, ⟨⟩, ⟨⟩⟩
    rfl
  · rintro rfl
    exact ⟨x, rfl, rfl⟩

theorem equal_iff_of_number? {p q : Float} (hp : a.number? = some p) (hq : b.number? = some q) :
    a.equal b = true ↔ SameContent a b := by
  rw [equal_eq_beq hp hq, Double.beq_iff_rank?, SameContent, content?_of_number? hp,
    content?_of_number? hq, exists_map_eq_some_iff fun _ _ => Content.number.inj]

-- Across classes both sides fail, so each class is compared with itself only.
mutual
/-- **Values are equal if they have the same content.** -/
theorem equal_iff_sameContent {b : Value} : ∀ {a : Value}, a.equal b = true ↔ SameContent a b
  | .list xs => by
    cases b with
    | list ys =>
      rw [equal, equalAll_iff_contents?, SameContent, content?, content?,
        exists_map_eq_some_iff fun _ _ => Content.list.inj]
    | _ => exact equal_iff_of_family_ne nofun
  | .int _ | .float _ | .bool _ => by
    cases b with
    | int | float | bool => exact equal_iff_of_number? rfl rfl
    | _ => exact equal_iff_of_family_ne nofun
  | .str s => by
    cases b with
    | str t =>
      rw [equal, beq_iff_eq, SameContent, content?, content?, exists_eq_some_iff,
        Content.str.injEq]
    | _ => exact equal_iff_of_family_ne nofun
  | .none => by
    cases b with
    | none => exact iff_of_true rfl (exists_eq_some_iff.2 rfl)
    | _ => exact equal_iff_of_family_ne nofun
  | .error message => by
    cases b with
    | error other =>
      rw [equal, beq_iff_eq, SameContent, content?, content?, exists_eq_some_iff,
        Content.error.injEq]
    | _ => exact equal_iff_of_family_ne nofun

theorem equalAll_iff_contents? {ys : List Value} :
    ∀ {xs : List Value}, equalAll xs ys = true ↔
      ∃ ds, contents? xs = some ds ∧ contents? ys = some ds
  | [] => by
    cases ys with
    | nil => exact iff_of_true rfl ⟨[], rfl, rfl⟩
    | cons y ys =>
      refine iff_of_false nofun ?_
      rintro ⟨_, ⟨⟩, hy⟩
      exact contents?_cons_ne_nil hy
  | x :: xs => by
    cases ys with
    | nil =>
      refine iff_of_false nofun ?_
      rintro ⟨_, hx, ⟨⟩⟩
      exact contents?_cons_ne_nil hx
    | cons y ys =>
      rw [equalAll, Bool.and_eq_true, equal_iff_sameContent, equalAll_iff_contents?]
      simp only [contents?_cons_eq_some_iff]
      constructor
      · rintro ⟨⟨d, hx, hy⟩, ds, hxs, hys⟩
        exact ⟨d :: ds, ⟨d, ds, hx, hxs, rfl⟩, d, ds, hy, hys, rfl⟩
      · rintro ⟨_, ⟨d, ds, hx, hxs, rfl⟩, _, _, hy, hys, ⟨⟩⟩
        exact ⟨⟨d, hx, hy⟩, ds, hxs, hys⟩
end

/-! ## Values without NaN -/

/-- A value is a float that is not a number, or a list that holds one at some depth. -/
inductive HoldsNaN : Value → Prop
  | float {x : Float} : x.isNaN = true → HoldsNaN (.float x)
  | item {v : Value} {items : List Value} : v ∈ items → v.HoldsNaN → HoldsNaN (.list items)

theorem holdsNaN_list {items : List Value} :
    (list items).HoldsNaN ↔ ∃ v ∈ items, v.HoldsNaN := by
  constructor
  · rintro (_ | ⟨hv, hnan⟩)
    exact ⟨_, hv, hnan⟩
  · rintro ⟨v, hv, hnan⟩
    exact .item hv hnan

theorem holdsNaN_iff_of_number? {p : Float} (h : a.number? = some p) :
    a.HoldsNaN ↔ p.isNaN = true := by
  cases a with
  | float x =>
    cases h
    exact ⟨fun | .float hx => hx, .float⟩
  | int n =>
    cases h
    rw [Whole.not_isNaN_toFloat]
    exact iff_of_false nofun nofun
  | bool x =>
    cases h
    refine iff_of_false nofun ?_
    cases x <;> decide +kernel
  | str | list | none | error => cases h

mutual
theorem content?_eq_none_iff : ∀ {a : Value}, a.content? = .none ↔ a.HoldsNaN
  | .list items => by
    rw [content?, Option.map_eq_none_iff, contents?_eq_none_iff, holdsNaN_list]
  | .int _ | .float _ | .bool _ => by
    rw [content?_of_number? rfl, Option.map_eq_none_iff, Double.rank?_eq_none_iff,
      holdsNaN_iff_of_number? rfl]
  | .str _ | .none | .error _ => iff_of_false nofun nofun

theorem contents?_eq_none_iff :
    ∀ {vs : List Value}, contents? vs = .none ↔ ∃ v ∈ vs, v.HoldsNaN
  | [] => iff_of_false nofun nofun
  | v :: vs => by
    rw [List.exists_mem_cons_iff, ← content?_eq_none_iff, ← contents?_eq_none_iff, contents?]
    cases v.content? <;> simp
end

/-- Whether a value holds a NaN is seen from its content. -/
instance (a : Value) : Decidable a.HoldsNaN :=
  decidable_of_iff (a.content?.isNone = true)
    (Option.isNone_iff_eq_none.trans content?_eq_none_iff)

/-! ## Laws -/

/-- A value is equal to itself unless it holds a NaN. -/
theorem equal_self_iff : a.equal a = true ↔ ¬ a.HoldsNaN := by
  rw [equal_iff_sameContent, SameContent, ← content?_eq_none_iff, ← ne_eq,
    Option.ne_none_iff_exists']
  simp only [and_self]

theorem equal_symm (h : a.equal b = true) : b.equal a = true := by
  obtain ⟨d, ha, hb⟩ := equal_iff_sameContent.1 h
  exact equal_iff_sameContent.2 ⟨d, hb, ha⟩

theorem equal_trans (hab : a.equal b = true) (hbc : b.equal c = true) : a.equal c = true := by
  obtain ⟨d, ha, hb⟩ := equal_iff_sameContent.1 hab
  obtain ⟨d', hb', hc⟩ := equal_iff_sameContent.1 hbc
  obtain rfl : d = d' := Option.some.inj (hb.symm.trans hb')
  exact equal_iff_sameContent.2 ⟨d, ha, hc⟩

/-- **Equality is an equivalence of the values without NaN**, and relates no values of
    different classes. -/
theorem equivalence_equal :
    Equivalence (fun a b : {v : Value // ¬ v.HoldsNaN} => a.1.equal b.1 = true) ∧
      ∀ a b : Value, a.equal b = true → a.family = b.family := by
  refine ⟨?_, fun a b => family_eq_of_equal⟩
  constructor
  case refl => exact fun a => equal_self_iff.2 a.2
  case symm => exact equal_symm
  case trans => exact equal_trans

/-- Lists of numbers of all kinds, in one place two integers that count as one double. -/
theorem equivalence_equal_nested :
    ¬ (list [bool true, list [int 9007199254740993, none]]).HoldsNaN ∧
      ¬ (list [int 1, list [float 9007199254740992.0, none]]).HoldsNaN ∧
      ¬ (list [float 1.0, list [int 9007199254740992, none]]).HoldsNaN ∧
      (list [bool true, list [int 9007199254740993, none]]).equal
        (list [float 1.0, list [int 9007199254740992, none]]) = true := by
  have ha : ¬ (list [bool true, list [int 9007199254740993, none]]).HoldsNaN := by
    decide +kernel
  have hb : ¬ (list [int 1, list [float 9007199254740992.0, none]]).HoldsNaN := by
    decide +kernel
  have hc : ¬ (list [float 1.0, list [int 9007199254740992, none]]).HoldsNaN := by
    decide +kernel
  have hab : (list [bool true, list [int 9007199254740993, none]]).equal
      (list [int 1, list [float 9007199254740992.0, none]]) = true := by
    decide +kernel
  have hbc : (list [int 1, list [float 9007199254740992.0, none]]).equal
      (list [float 1.0, list [int 9007199254740992, none]]) = true := by
    decide +kernel
  have heq := equivalence_equal.1
  exact ⟨ha, hb, hc, heq.trans (x := ⟨_, ha⟩) (y := ⟨_, hb⟩) (z := ⟨_, hc⟩) hab hbc⟩

end Value

end Flowline
