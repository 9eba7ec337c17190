/-
  Symbol tables as finite maps.

  A table changes in three ways: a name is bound to a value, bound to a
  function, or unbound.  After any history of changes a name is bound to what
  its last change says, and the listing shows this and nothing of the history.

  * `Symbols.Change`, `Symbols.after`: the changes of a table, and the table after
    some of them;
  * `Symbols.bound`: what a history leaves a name bound to;
  * `Symbols.Tabulates`: a table that is a finite map, listed by name;
  * `Symbols.get?_after`: a name is bound to what its last change says;
  * `Symbols.listing_eq_iff`: which tables are listed alike;
  * `Symbols.tabulates_after`: the table after any history.
-/
import Flowline.Symbols
import Mathlib

namespace Flowline

/-! ## Order of names -/

/-- The code points of a text. -/
def codePoints (s : String) : List Nat :=
  s.toList.map Char.toNat

theorem codePoints_lt {s t : String} (h : s < t) : codePoints s < codePoints t :=
  List.map_lt (fun _ _ h => h) (String.lt_iff_toList_lt.1 h)

/-! ## Entries -/

/-- Ascending entries bind a name to what stands beside it. -/
theorem Entries.lookup_eq_some_iff {σ : Type} {es : Entries σ} (h : es.Ascending) {name : String}
    {b : Binding σ} : es.lookup name = some b ↔ (name, b) ∈ es := by
  induction es with
  | nil => simp
  | cons e es ih =>
    obtain ⟨y, c⟩ := e
    obtain ⟨hy, hes⟩ := List.pairwise_cons.1 h
    rw [Entries.lookup_cons, List.mem_cons, ← ih hes, Prod.mk.injEq]
    split
    next heq =>
      subst heq
      have hnone : es.lookup name ≠ some b := fun hb =>
        String.lt_irrefl name (hy _ ((ih hes).1 hb))
      simp [hnone, eq_comm]
    next hne => simp [hne]

namespace Symbols

variable {σ : Type}

/-! ## Histories -/

/-- What can be done to a table. -/
inductive Change (σ : Type) where
  | assign (name : String) (v : Value)
  | define (name : String) (f : Callable σ)
  | erase (name : String)

/-- The name that a change is about. -/
def Change.name : Change σ → String
  | assign name _ | define name _ | erase name => name

/-- What the name is bound to by a change. -/
def Change.binding? : Change σ → Option (Binding σ)
  | assign _ v => some (.value v)
  | define _ f => some (.callable f)
  | erase _ => none

/-- The table after a change. -/
def change (s : Symbols σ) : Change σ → Symbols σ
  | .assign name v => s.assign name v
  | .define name f => s.define name f
  | .erase name => s.erase name

/-- The table that binds the constants, after some changes. -/
def after (changes : List (Change σ)) : Symbols σ :=
  changes.foldl change .constants

/-- What a name is bound to by its last change, or as a constant if it has none. -/
def bound (changes : List (Change σ)) (name : String) : Option (Binding σ) :=
  match changes.reverse.find? (·.name = name) with
  | some c => c.binding?
  | none => (Flowline.constants.lookup name).map .value

theorem get?_change (s : Symbols σ) (c : Change σ) (name : String) :
    (s.change c).get? name = if name = c.name then c.binding? else s.get? name := by
  cases c with
  | assign x v => exact s.get?_insert x name (.value v)
  | define x f => exact s.get?_insert x name (.callable f)
  | erase x => exact s.get?_erase x name

theorem get?_foldl_change (s : Symbols σ) (changes : List (Change σ)) (name : String) :
    (changes.foldl change s).get? name =
      match changes.reverse.find? (·.name = name) with
      | some c => c.binding?
      | none => s.get? name := by
  induction changes generalizing s with
  | nil => rfl
  | cons c changes ih =>
    rw [List.foldl_cons, ih, List.reverse_cons, List.find?_append]
    cases hlast : changes.reverse.find? (·.name = name) with
    | some last => rfl
    | none =>
      rw [Option.none_or, get?_change]
      by_cases hname : name = c.name
      · simp [hname]
      · simp [hname, Ne.symm hname]

theorem get?_constants (name : String) :
    (constants : Symbols σ).get? name = (Flowline.constants.lookup name).map .value := by
  show ((empty.assign "e" _).assign "pi" _).get? name = _
  rw [get?_assign, get?_assign]
  by_cases hpi : name = "pi"
  · subst hpi
    rfl
  by_cases he : name = "e"
  · subst he
    rfl
  rw [if_neg hpi, if_neg he, Flowline.constants, List.lookup_cons, beq_eq_false_iff_ne.2 he,
    List.lookup_cons, beq_eq_false_iff_ne.2 hpi]
  rfl

/-- **After any history a name is bound to what its last change says.** -/
theorem get?_after (changes : List (Change σ)) (name : String) :
    (after changes).get? name = bound changes name := by
  rw [after, get?_foldl_change, get?_constants, bound]

/-! ## Bound names -/

/-- No name stands twice. -/
theorem nodup_names (s : Symbols σ) : (s.entries.map Prod.fst).Nodup := by
  rw [List.Nodup, List.pairwise_map]
  exact s.ascending.imp ne_of_lt

theorem isSome_get?_iff (s : Symbols σ) {name : String} :
    (s.get? name).isSome ↔ name ∈ s.entries.map Prod.fst := by
  simp only [get?, Option.isSome_iff_exists, Entries.lookup_eq_some_iff s.ascending, List.mem_map]
  constructor
  · rintro ⟨b, hb⟩
    exact ⟨(name, b), hb, rfl⟩
  · rintro ⟨⟨_, b⟩, hb, rfl⟩
    exact ⟨b, hb⟩

theorem setOf_bound_eq (s : Symbols σ) :
    {name | (s.get? name).isSome} = ((s.entries.map Prod.fst).toFinset : Set String) := by
  ext name
  rw [Finset.mem_coe, List.mem_toFinset]
  exact s.isSome_get?_iff

/-- The size is the number of names. -/
theorem size_eq_ncard (s : Symbols σ) : s.size = {name | (s.get? name).isSome}.ncard := by
  rw [setOf_bound_eq, Set.ncard_coe_finset, List.toFinset_card_of_nodup s.nodup_names,
    List.length_map, size]

/-! ## Listings -/

theorem mem_listing_iff (s : Symbols σ) {name shown : String} :
    (name, shown) ∈ s.listing ↔ ∃ b, s.get? name = some b ∧ b.text = shown := by
  simp only [listing, get?, Entries.lookup_eq_some_iff s.ascending, List.mem_map, Prod.exists,
    Prod.mk.injEq]
  constructor
  · rintro ⟨_, b, hb, rfl, rfl⟩
    exact ⟨b, hb, rfl⟩
  · rintro ⟨b, hb, rfl⟩
    exact ⟨name, b, hb, rfl, rfl⟩

theorem pairwise_listing (s : Symbols σ) : s.listing.Pairwise fun row next => row.1 < next.1 := by
  rw [listing, List.pairwise_map]
  exact s.ascending

/-- Two tables are listed alike exactly if their names are bound to what is shown alike. -/
theorem listing_eq_iff (s t : Symbols σ) :
    s.listing = t.listing ↔
      ∀ name, (s.get? name).map Binding.text = (t.get? name).map Binding.text := by
  have hrow (u : Symbols σ) (name shown : String) :
      (name, shown) ∈ u.listing ↔ (u.get? name).map Binding.text = some shown := by
    rw [mem_listing_iff, Option.map_eq_some_iff]
  constructor
  · intro h name
    refine Option.ext fun shown => ?_
    rw [← hrow, ← hrow, h]
  · intro h
    have hnodup (u : Symbols σ) : u.listing.Nodup :=
      u.pairwise_listing.imp fun hlt heq => ne_of_lt hlt (congrArg Prod.fst heq)
    have hperm : s.listing.Perm t.listing := by
      refine (List.perm_ext_iff_of_nodup (hnodup s) (hnodup t)).2 fun row => ?_
      rw [hrow, hrow, h]
    exact hperm.eq_of_pairwise
      (fun _ _ _ _ hlt hgt => absurd (String.lt_trans hlt hgt) (String.lt_irrefl _))
      s.pairwise_listing t.pairwise_listing

/-! ## Finite maps -/

/-- A table is the finite map of what names are bound to, and its listing shows each
    binding once, by name. -/
structure Tabulates (s : Symbols σ) (bound : String → Option (Binding σ)) : Prop where
  get? : ∀ name, s.get? name = bound name
  contains : ∀ name, s.contains name = (bound name).isSome
  /-- Finitely many names are bound, and the size is their number. -/
  finite : {name | (bound name).isSome}.Finite
  size : s.size = {name | (bound name).isSome}.ncard
  length_listing : s.listing.length = s.size
  /-- The rows show the bindings. -/
  mem_listing : ∀ name shown, (name, shown) ∈ s.listing ↔
    ∃ b, bound name = some b ∧ b.text = shown
  /-- The names ascend strictly by code points. -/
  ascending : s.listing.Pairwise fun row next => codePoints row.1 < codePoints next.1

theorem tabulates_get? (s : Symbols σ) : s.Tabulates s.get? where
  get? _ := rfl
  contains _ := rfl
  finite := by
    rw [setOf_bound_eq]
    exact Finset.finite_toSet _
  size := s.size_eq_ncard
  length_listing := List.length_map _
  mem_listing _ _ := s.mem_listing_iff
  ascending := s.pairwise_listing.imp codePoints_lt

/-- **After any history of changes, a table is the finite map of the last changes of its
    names, and its listing shows this map and nothing of the history.** -/
theorem tabulates_after (changes : List (Change σ)) :
    (after changes).Tabulates (bound changes) ∧
      ∀ others : List (Change σ), (after changes).listing = (after others).listing ↔
        ∀ name, (bound changes name).map Binding.text = (bound others name).map Binding.text := by
  have hget (cs : List (Change σ)) : (after cs).get? = bound cs := funext (get?_after cs)
  constructor
  · rw [← hget]
    exact tabulates_get? _
  · intro others
    rw [listing_eq_iff, hget, hget]

end Symbols

end Flowline
