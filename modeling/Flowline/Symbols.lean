/-
  The symbol table of a session.

  One flat table binds names to values and to functions alike; binding a name
  replaces what it was bound to.  The table is kept in strictly ascending
  order of names, so that two tables with the same bindings are the same table
  and are listed in the same way.

  * `Symbols.get?`, `Symbols.insert`, `Symbols.erase`, `Symbols.size`;
  * `Symbols.get?_insert`, `Symbols.get?_erase`: what names are bound to after a
    change;
  * `Symbols.constants`: the table of a fresh session;
  * `Symbols.listing`: the names with what they are bound to, in order.
-/
import Flowline.Callable

namespace Flowline

/-- What a name is bound to. -/
inductive Binding (σ : Type) where
  | value (v : Value)
  | callable (f : Callable σ)

/-- How a binding is shown. -/
def Binding.text {σ : Type} : Binding σ → String
  | value v => v.text
  | callable f => f.text

/-! ## Ordered entries -/

/-- Names with their bindings. -/
abbrev Entries (σ : Type) := List (String × Binding σ)

/-- The names are in strictly ascending order. -/
def Entries.Ascending {σ : Type} (es : Entries σ) : Prop :=
  es.Pairwise fun a b => a.1 < b.1

/-- Put a binding at its place in ascending entries. -/
def Entries.put {σ : Type} (name : String) (b : Binding σ) : Entries σ → Entries σ
  | [] => [(name, b)]
  | e :: es =>
    if name < e.1 then (name, b) :: e :: es
    else if name = e.1 then (name, b) :: es
    else e :: put name b es

theorem Entries.mem_put {σ : Type} {name : String} {b : Binding σ} {es : Entries σ}
    {x : String × Binding σ} (h : x ∈ Entries.put name b es) : x = (name, b) ∨ x ∈ es := by
  induction es with
  | nil => simpa [Entries.put] using h
  | cons e es ih =>
    rw [Entries.put] at h
    split at h
    · simpa using h
    · split at h
      · exact (List.mem_cons.1 h).imp_right (List.mem_cons_of_mem _)
      · rcases List.mem_cons.1 h with rfl | h
        · exact .inr List.mem_cons_self
        · exact (ih h).imp_right (List.mem_cons_of_mem _)

theorem Entries.ascending_put {σ : Type} (name : String) (b : Binding σ) {es : Entries σ}
    (h : Entries.Ascending es) : Entries.Ascending (Entries.put name b es) := by
  induction es with
  | nil => exact List.pairwise_singleton _ _
  | cons e es ih =>
    have ⟨he, hes⟩ := List.pairwise_cons.1 h
    rw [Entries.put]
    split
    next hlt =>
      refine List.pairwise_cons.2 ⟨fun x hx => ?_, h⟩
      rcases List.mem_cons.1 hx with rfl | hx
      · exact hlt
      · exact String.lt_trans hlt (he x hx)
    next hlt =>
      split
      next heq => exact List.pairwise_cons.2 ⟨fun x hx => heq ▸ he x hx, hes⟩
      next hne =>
        refine List.pairwise_cons.2 ⟨fun x hx => ?_, ih hes⟩
        rcases Entries.mem_put hx with rfl | hx
        · exact Std.lt_of_le_of_ne (String.not_lt.1 hlt) (Ne.symm hne)
        · exact he x hx

theorem Entries.lookup_cons {σ : Type} (x y : String) (b : Binding σ) (es : Entries σ) :
    List.lookup x ((y, b) :: es) = if x = y then some b else es.lookup x := by
  by_cases h : x = y
  · subst h
    simp
  · rw [List.lookup_cons, beq_eq_false_iff_ne.2 h, if_neg h]

theorem Entries.lookup_put {σ : Type} (name x : String) (b : Binding σ) (es : Entries σ) :
    (Entries.put name b es).lookup x = if x = name then some b else es.lookup x := by
  induction es with
  | nil => exact Entries.lookup_cons x name b []
  | cons e es ih =>
    obtain ⟨y, c⟩ := e
    rw [Entries.put]
    split
    next => rw [Entries.lookup_cons]
    next =>
      split
      next heq =>
        subst heq
        rw [Entries.lookup_cons, Entries.lookup_cons]
        by_cases h : x = name <;> simp [h]
      next hne =>
        rw [Entries.lookup_cons, Entries.lookup_cons, ih]
        by_cases h : x = y
        · subst h
          simp [Ne.symm hne]
        · simp [h]

theorem Entries.lookup_erase {σ : Type} (name x : String) (es : Entries σ) :
    List.lookup x (es.filter (·.1 != name)) = if x = name then none else es.lookup x := by
  induction es with
  | nil => simp
  | cons e es ih =>
    obtain ⟨y, b⟩ := e
    by_cases hy : y = name
    · subst hy
      rw [List.filter_cons_of_neg (by simp), ih, Entries.lookup_cons]
      by_cases hx : x = y <;> simp [hx]
    · rw [List.filter_cons_of_pos (by simpa using hy), Entries.lookup_cons, Entries.lookup_cons, ih]
      by_cases hx : x = y <;> simp [hx, hy]

/-! ## Tables -/

/-- A symbol table. -/
structure Symbols (σ : Type) where
  entries : Entries σ
  ascending : Entries.Ascending entries

namespace Symbols

variable {σ : Type}

/-- The table without names. -/
def empty : Symbols σ :=
  { entries := [], ascending := List.Pairwise.nil }

/-- What a name is bound to. -/
def get? (s : Symbols σ) (name : String) : Option (Binding σ) :=
  s.entries.lookup name

/-- Whether a name is bound. -/
def contains (s : Symbols σ) (name : String) : Bool :=
  (s.get? name).isSome

/-- Bind a name, in place of what it was bound to. -/
def insert (s : Symbols σ) (name : String) (b : Binding σ) : Symbols σ :=
  { entries := Entries.put name b s.entries
    ascending := Entries.ascending_put name b s.ascending }

/-- Unbind a name. -/
def erase (s : Symbols σ) (name : String) : Symbols σ :=
  { entries := s.entries.filter (·.1 != name)
    ascending := s.ascending.filter _ }

/-- The number of bound names. -/
def size (s : Symbols σ) : Nat :=
  s.entries.length

/-- Bind a name to a value. -/
def assign (s : Symbols σ) (name : String) (v : Value) : Symbols σ :=
  s.insert name (.value v)

/-- Bind a name to a function. -/
def define (s : Symbols σ) (name : String) (f : Callable σ) : Symbols σ :=
  s.insert name (.callable f)

/-- The names with what they are bound to, in ascending order. -/
def listing (s : Symbols σ) : List (String × String) :=
  s.entries.map fun (name, b) => (name, b.text)

/-- A name is bound in place of what it was bound to, and no other name changes. -/
theorem get?_insert (s : Symbols σ) (name x : String) (b : Binding σ) :
    (s.insert name b).get? x = if x = name then some b else s.get? x :=
  Entries.lookup_put name x b s.entries

theorem get?_assign (s : Symbols σ) (name x : String) (v : Value) :
    (s.assign name v).get? x = if x = name then some (.value v) else s.get? x :=
  s.get?_insert name x (.value v)

theorem get?_erase (s : Symbols σ) (name x : String) :
    (s.erase name).get? x = if x = name then Option.none else s.get? x :=
  Entries.lookup_erase name x s.entries

end Symbols

/-- The constants of the language. -/
def constants : List (String × Value) :=
  [("e", .float 2.718281828459045), ("pi", .float 3.141592653589793)]

/-- The table that binds the constants. -/
def Symbols.constants {σ : Type} : Symbols σ :=
  Flowline.constants.foldl (fun s (name, v) => s.assign name v) .empty

end Flowline
