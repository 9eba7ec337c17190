/-
  Parents and children in stores.

  A store keeps every edge twice, as the parent of the child and among the
  children of the parent.  Whatever operations are tried on a store, the two
  agree, and the parents form no cycle.

  * `Ast.after`: the store after operations, each of which may be refused;
  * `Ast.Linked`: the invariant, with `Ast.Linked.allocate` and
    `Ast.Linked.connect` for the two operations;
  * `Ast.Linked.climb_lt_size`, `Ast.Linked.exists_top`: the way up from a node
    ends before it is as long as the store;
  * `Ast.Linked.connect_eq_error_iff`: when an edge is refused;
  * `Ast.after_linked`: what holds of a store after any operations.
-/
import Flowline.Tree.Store
import Mathlib.Data.Finset.Card
import Mathlib.Logic.Relation

namespace Flowline

namespace Ast

open Relation

/-- Carry out an operation.  One that is refused leaves the store as it is. -/
def attempt (t : Ast) (s : Step) : Ast :=
  match t.step s with
  | .ok t' => t'
  | .error _ => t

/-- The store after operations that are tried in order. -/
def after (steps : List Step) : Ast :=
  steps.foldl attempt empty

/-- The children of a node in the order in which they were connected. -/
def childrenOf (t : Ast) (id : Nat) : List Nat :=
  (t.nodes[id]?.elim [] Node.children).map Edge.child

/-- The node that is met after a number of steps up. -/
def climb (t : Ast) : Nat → Nat → Option Nat
  | 0, id => some id
  | k + 1, id => (t.parent? id).bind (t.climb k)

/-- A child and its parent. -/
def Up (t : Ast) (child parent : Nat) : Prop :=
  t.parent? child = some parent

/-- A node is met on the way up from another one. -/
def IsAncestor (t : Ast) (a id : Nat) : Prop :=
  TransGen t.Up id a

/-! ## Operations -/

section Operations

variable {t : Ast}

theorem parent?_eq_none {id : Nat} (h : t.size ≤ id) : t.parent? id = none := by
  rw [parent?, Array.getElem?_eq_none h]
  rfl

theorem lt_size_of_up {c p : Nat} (h : t.Up c p) : c < t.size := by
  by_contra hc
  rw [Up, parent?_eq_none (Nat.le_of_not_lt hc)] at h
  cases h

theorem lt_size_of_mem_childrenOf {c p : Nat} (h : c ∈ t.childrenOf p) : p < t.size := by
  by_contra hp
  rw [childrenOf, Array.getElem?_eq_none (Nat.le_of_not_lt hp)] at h
  cases h

@[simp] theorem parent?_allocate (kind : NodeKind) (label : String) (value : Literal) (id : Nat) :
    (t.allocate kind label value).parent? id = t.parent? id := by
  rw [parent?, allocate, Array.getElem?_push]
  split
  next h =>
    subst h
    exact (parent?_eq_none (Nat.le_refl _)).symm
  next => rfl

@[simp] theorem childrenOf_allocate (kind : NodeKind) (label : String) (value : Literal)
    (id : Nat) : (t.allocate kind label value).childrenOf id = t.childrenOf id := by
  rw [childrenOf, allocate, Array.getElem?_push]
  split
  next h =>
    subst h
    rw [childrenOf, Array.getElem?_eq_none (Nat.le_refl _)]
    rfl
  next => rfl

/-- An edge changes the parent of the child and the children of the parent. -/
theorem getElem?_link (p c : Nat) (role : Role) (i : Nat) :
    (t.link p c role).nodes[i]? = t.nodes[i]?.map fun n =>
      { n with
        parent := if i = c then some p else n.parent
        children := if i = p then n.children ++ [⟨role, c⟩] else n.children } := by
  simp only [link, Array.getElem?_modify]
  by_cases hp : p = i <;> by_cases hc : c = i <;> cases t.nodes[i]? <;>
    simp [hp, hc, eq_comm]

theorem kinds_link (p c : Nat) (role : Role) :
    (t.link p c role).nodes.map (·.kind) = t.nodes.map (·.kind) := by
  refine Array.ext_getElem? fun i => ?_
  rw [Array.getElem?_map, Array.getElem?_map, getElem?_link, Option.map_map]
  rfl

theorem findIdx?_initial :
    t.nodes.findIdx? (·.kind = .initial) = (t.nodes.map (·.kind)).findIdx? (· = .initial) := by
  rw [Array.findIdx?_map]
  rfl

theorem parent?_link {c : Nat} (hc : c < t.size) (p : Nat) (role : Role) (i : Nat) :
    (t.link p c role).parent? i = if i = c then some p else t.parent? i := by
  rw [parent?, getElem?_link]
  by_cases hi : i = c
  · subst hi
    simp [Array.getElem?_eq_getElem hc]
  · simp only [hi, if_false, parent?]
    cases t.nodes[i]? <;> rfl

theorem childrenOf_link {p : Nat} (hp : p < t.size) (c : Nat) (role : Role) (i : Nat) :
    (t.link p c role).childrenOf i =
      if i = p then t.childrenOf p ++ [c] else t.childrenOf i := by
  rw [childrenOf, getElem?_link]
  by_cases hi : i = p
  · subst hi
    simp [childrenOf, Array.getElem?_eq_getElem hp]
  · simp only [hi, if_false, childrenOf]
    cases t.nodes[i]? <;> rfl

/-- When an edge is admitted, and what it leads to. -/
theorem connect_eq_ok_iff {t' : Ast} {p c : Nat} {role : Role} :
    t.connect p c role = .ok t' ↔
      ((p < t.size ∧ c < t.size ∧ p ≠ c) ∧
        (t.root ≠ some c ∧ t.parent? c = none ∧ t.climbsTo c t.size p = false)) ∧
      t' = t.link p c role := by
  by_cases hp : p < t.size
  · by_cases hc : c < t.size
    · obtain ⟨n, hn⟩ : ∃ n, t.nodes[c]? = some n := ⟨_, Array.getElem?_eq_getElem hc⟩
      have hparent : t.parent? c = n.parent := by
        rw [parent?, hn]
        rfl
      rw [hparent]
      by_cases hpc : p = c
      · simp [connect, node, hn, hpc, bind, Except.bind, throw, throwThe, MonadExceptOf.throw]
      by_cases hroot : t.root = some c
      · simp [connect, node, Array.getElem?_eq_getElem hp, hn, hpc, hroot, bind, Except.bind, throw,
          throwThe, MonadExceptOf.throw]
      cases hq : n.parent <;> cases hclimb : t.climbsTo c t.size p <;>
        simp [connect, node, Array.getElem?_eq_getElem hp, hn, hp, hc, hpc, hroot, hq, hclimb, bind,
          Except.bind, throw, throwThe, MonadExceptOf.throw, pure, Except.pure, eq_comm]
    · simp [connect, node, Array.getElem?_eq_getElem hp,
        Array.getElem?_eq_none (Nat.le_of_not_lt hc), hc, bind, Except.bind]
  · simp [connect, node, Array.getElem?_eq_none (Nat.le_of_not_lt hp), hp, bind, Except.bind]

theorem attempt_of_ok {t' : Ast} {s : Step} (h : t.step s = .ok t') : t.attempt s = t' := by
  rw [attempt, h]

theorem attempt_of_error {f : StoreFault} {s : Step} (h : t.step s = .error f) :
    t.attempt s = t := by
  rw [attempt, h]

theorem after_append (steps more : List Step) :
    after (steps ++ more) = more.foldl attempt (after steps) := by
  rw [after, List.foldl_append, after]

end Operations

/-! ## The way up -/

section Climbing

variable {t : Ast}

theorem climb_add (a b id : Nat) : t.climb (a + b) id = (t.climb a id).bind (t.climb b) := by
  induction a generalizing id with
  | zero => rw [Nat.zero_add, climb, Option.bind_some]
  | succ a ih =>
    rw [Nat.succ_add, climb, climb]
    cases t.parent? id with
    | none => rfl
    | some p => exact ih p

theorem reflTransGen_up_iff {id a : Nat} :
    ReflTransGen t.Up id a ↔ ∃ k, t.climb k id = some a := by
  constructor
  · intro h
    induction h with
    | refl => exact ⟨0, rfl⟩
    | tail _ hup ih =>
      obtain ⟨k, hk⟩ := ih
      refine ⟨k + 1, ?_⟩
      rw [climb_add, hk, Option.bind_some, climb, hup]
      rfl
  · rintro ⟨k, hk⟩
    induction k generalizing id with
    | zero =>
      cases hk
      exact .refl
    | succ k ih =>
      rw [climb] at hk
      obtain ⟨p, hp, hk⟩ := Option.bind_eq_some_iff.1 hk
      exact .head hp (ih hk)

theorem isAncestor_of_climb {k id a : Nat} (hk : 0 < k) (h : t.climb k id = some a) :
    t.IsAncestor a id := by
  obtain ⟨k, rfl⟩ : ∃ j, k = j + 1 := ⟨k - 1, by omega⟩
  rw [climb] at h
  obtain ⟨p, hp, h⟩ := Option.bind_eq_some_iff.1 h
  exact .head' hp (reflTransGen_up_iff.2 ⟨k, h⟩)

/-- Looking for a node on the way up finds those within the number of steps. -/
theorem climbsTo_iff {goal n id : Nat} :
    t.climbsTo goal n id ↔ ∃ k < n, t.climb k id = some goal := by
  induction n generalizing id with
  | zero => simp [climbsTo]
  | succ n ih =>
    simp only [climbsTo, Bool.or_eq_true, beq_iff_eq]
    constructor
    · rintro (rfl | h)
      · exact ⟨0, Nat.succ_pos n, rfl⟩
      · cases hp : t.parent? id with
        | none => simp [hp] at h
        | some p =>
          rw [hp] at h
          obtain ⟨k, hk, hclimb⟩ := ih.1 h
          refine ⟨k + 1, Nat.succ_lt_succ hk, ?_⟩
          rw [climb, hp]
          exact hclimb
    · rintro ⟨k, hk, hclimb⟩
      cases k with
      | zero => exact Or.inl (Option.some.inj hclimb)
      | succ k =>
        rw [climb] at hclimb
        obtain ⟨p, hp, hclimb⟩ := Option.bind_eq_some_iff.1 hclimb
        rw [hp]
        exact Or.inr (ih.2 ⟨k, Nat.lt_of_succ_lt_succ hk, hclimb⟩)

/-- The ways up after one more edge use it at most once. -/
theorem isAncestor_link {p c : Nat} {role : Role} (hc : c < t.size) {a id : Nat}
    (h : (t.link p c role).IsAncestor a id) :
    t.IsAncestor a id ∨ (ReflTransGen t.Up id c ∧ ReflTransGen t.Up p a) := by
  have hup {i j : Nat} (h : (t.link p c role).Up i j) : t.Up i j ∨ (i = c ∧ j = p) := by
    rw [Up, parent?_link hc] at h
    split at h
    next hi => exact Or.inr ⟨hi, (Option.some.inj h).symm⟩
    next => exact Or.inl h
  induction h with
  | single h =>
    rcases hup h with h | ⟨rfl, rfl⟩
    · exact Or.inl (.single h)
    · exact Or.inr ⟨.refl, .refl⟩
  | tail _ h ih =>
    rcases hup h with h | ⟨rfl, rfl⟩
    · rcases ih with ih | ⟨hid, ih⟩
      · exact Or.inl (.tail ih h)
      · exact Or.inr ⟨hid, .tail ih h⟩
    · rcases ih with ih | ⟨hid, _⟩
      · exact Or.inr ⟨ih.to_reflTransGen, .refl⟩
      · exact Or.inr ⟨hid, .refl⟩

end Climbing

/-! ## The invariant -/

/-- The parents and the children of a store agree. -/
structure Linked (t : Ast) : Prop where
  id_eq : ∀ {i : Nat} {n : Node}, t.nodes[i]? = some n → n.id = i
  parent_iff : ∀ {c p}, t.parent? c = some p ↔ c ∈ t.childrenOf p
  nodup : ∀ p, (t.childrenOf p).Nodup
  acyclic : ∀ id, ¬ t.IsAncestor id id
  root_eq : t.root = t.nodes.findIdx? (·.kind = .initial)
  root_parent : ∀ {r}, t.root = some r → t.parent? r = none

namespace Linked

variable {t : Ast}

theorem empty : Ast.empty.Linked where
  id_eq h := by simp [Ast.empty] at h
  parent_iff := by simp [Ast.empty, parent?, childrenOf]
  nodup p := by simp [Ast.empty, childrenOf]
  acyclic id h := by
    obtain ⟨p, hp, -⟩ := TransGen.head'_iff.1 h
    simp [Up, Ast.empty, parent?] at hp
  root_eq := by simp [Ast.empty]
  root_parent h := by cases h

theorem allocate (h : t.Linked) (kind : NodeKind) (label : String) (value : Literal) :
    (t.allocate kind label value).Linked where
  id_eq := by
    intro i n hn
    simp only [Ast.allocate, Array.getElem?_push] at hn
    split at hn
    next hi =>
      cases hn
      exact hi.symm
    next => exact h.id_eq hn
  parent_iff {c p} := by simpa using h.parent_iff
  nodup p := by simpa using h.nodup p
  acyclic id hid := by
    have hup : (t.allocate kind label value).Up = t.Up := by
      funext c p
      rw [Up, parent?_allocate, Up]
    rw [IsAncestor, hup] at hid
    exact h.acyclic id hid
  root_eq := by
    simp only [Ast.allocate, Array.findIdx?_push, h.root_eq, decide_eq_true_eq]
  root_parent := by
    intro r hr
    rw [parent?_allocate]
    simp only [Ast.allocate, Option.or_eq_some_iff] at hr
    rcases hr with hr | ⟨-, hr⟩
    · exact h.root_parent hr
    · split at hr
      next =>
        cases hr
        exact parent?_eq_none (Nat.le_refl _)
      next => cases hr

/-- A step up leads to another node of the store. -/
theorem lt_size_of_climb (h : t.Linked) {id : Nat} (hid : id < t.size) {k a : Nat}
    (hk : t.climb k id = some a) : a < t.size := by
  induction k generalizing id with
  | zero =>
    cases hk
    exact hid
  | succ k ih =>
    rw [climb] at hk
    obtain ⟨p, hp, hk⟩ := Option.bind_eq_some_iff.1 hk
    exact ih (lt_size_of_mem_childrenOf (h.parent_iff.1 hp)) hk

/-- No node is met twice on the way up, so it is shorter than the store. -/
theorem climb_lt_size (h : t.Linked) {id : Nat} (hid : id < t.size) {k a : Nat}
    (hk : t.climb k id = some a) : k < t.size := by
  by_contra hsize
  have hmet : ∀ m ≤ k, ∃ b, t.climb m id = some b := by
    intro m hm
    rw [← Nat.add_sub_cancel' hm, climb_add] at hk
    obtain ⟨b, hb, -⟩ := Option.bind_eq_some_iff.1 hk
    exact ⟨b, hb⟩
  -- more steps than nodes: two of them lead to the same node
  obtain ⟨m, hm, n, hn, hne, heq⟩ :=
    Finset.exists_ne_map_eq_of_card_lt_of_maps_to (s := Finset.range (k + 1))
      (t := Finset.range t.size) (f := fun m => (t.climb m id).getD 0)
      (by rw [Finset.card_range, Finset.card_range]; omega) (by
        intro m hm
        obtain ⟨b, hb⟩ := hmet m (Nat.lt_succ_iff.1 (by simpa using hm))
        simpa [hb] using h.lt_size_of_climb hid hb)
  have hcycle : ∀ m n, m < n → n ≤ k → t.climb m id = t.climb n id → False := by
    intro m n hlt hle heq
    obtain ⟨b, hb⟩ := hmet m (by omega)
    rw [hb, ← Nat.add_sub_cancel' (Nat.le_of_lt hlt), climb_add, hb, Option.bind_some] at heq
    exact h.acyclic b (isAncestor_of_climb (Nat.sub_pos_of_lt hlt) heq.symm)
  have hm' : m ≤ k := Nat.lt_succ_iff.1 (by simpa using hm)
  have hn' : n ≤ k := Nat.lt_succ_iff.1 (by simpa using hn)
  obtain ⟨b, hb⟩ := hmet m hm'
  obtain ⟨b', hb'⟩ := hmet n hn'
  obtain rfl : b = b' := by simpa [hb, hb'] using heq
  rcases Nat.lt_or_gt_of_ne hne with hlt | hlt
  · exact hcycle m n hlt hn' (hb.trans hb'.symm)
  · exact hcycle n m hlt hm' (hb'.trans hb.symm)

/-- The way up from a node ends before it is as long as the store. -/
theorem exists_top (h : t.Linked) {id : Nat} (hid : id < t.size) :
    ∃ k < t.size, ∃ r < t.size, t.climb k id = some r ∧ t.parent? r = none := by
  have hway (n : Nat) : (∃ k < n, ∃ r, t.climb k id = some r ∧ t.parent? r = none) ∨
      ∃ a, t.climb n id = some a := by
    induction n with
    | zero => exact Or.inr ⟨id, rfl⟩
    | succ n ih =>
      rcases ih with ⟨k, hk, r, hr⟩ | ⟨a, ha⟩
      · exact Or.inl ⟨k, Nat.lt_succ_of_lt hk, r, hr⟩
      · cases hp : t.parent? a with
        | none => exact Or.inl ⟨n, Nat.lt_succ_self n, a, ha, hp⟩
        | some p =>
          refine Or.inr ⟨p, ?_⟩
          rw [climb_add, ha, Option.bind_some, climb, hp]
          rfl
  rcases hway t.size with ⟨k, hk, r, hr, hnone⟩ | ⟨a, ha⟩
  · exact ⟨k, hk, r, h.lt_size_of_climb hid hr, hr, hnone⟩
  · exact absurd (h.climb_lt_size hid ha) (Nat.lt_irrefl _)

/-- Looking for a node on the way up, within as many steps as there are nodes,
    misses none. -/
theorem climbsTo_size_iff (h : t.Linked) {goal id : Nat} (hid : id < t.size) :
    t.climbsTo goal t.size id ↔ ∃ k, t.climb k id = some goal := by
  rw [climbsTo_iff]
  constructor
  · rintro ⟨k, -, hk⟩
    exact ⟨k, hk⟩
  · rintro ⟨k, hk⟩
    exact ⟨k, h.climb_lt_size hid hk, hk⟩

theorem connect (h : t.Linked) {t' : Ast} {p c : Nat} {role : Role}
    (hok : t.connect p c role = .ok t') : t'.Linked := by
  obtain ⟨⟨⟨hp, hc, hpc⟩, hroot, hparent, hclimb⟩, rfl⟩ := connect_eq_ok_iff.1 hok
  have hfree : ¬ ReflTransGen t.Up p c := by
    rw [reflTransGen_up_iff, ← h.climbsTo_size_iff hp, hclimb]
    simp
  have hnew (q : Nat) : c ∉ t.childrenOf q := by
    intro hq
    rw [← h.parent_iff, hparent] at hq
    cases hq
  constructor
  · intro i n hn
    rw [getElem?_link] at hn
    obtain ⟨m, hm, rfl⟩ := Option.map_eq_some_iff.1 hn
    exact h.id_eq (n := m) hm
  · intro i q
    rw [parent?_link hc, childrenOf_link hp]
    by_cases hi : i = c
    · subst hi
      by_cases hq : q = p
      · simp [hq]
      · simp [hq, hnew q, Ne.symm hq]
    · by_cases hq : q = p
      · subst hq
        simp [hi, h.parent_iff]
      · simp [hi, hq, h.parent_iff]
  · intro q
    rw [childrenOf_link hp]
    split
    next => exact (h.nodup p).append (List.nodup_singleton c) (by simpa using hnew p)
    next => exact h.nodup q
  · intro id hid
    rcases isAncestor_link hc hid with hid | ⟨hup, hup'⟩
    · exact h.acyclic id hid
    · exact hfree (hup'.trans hup)
  · rw [findIdx?_initial, kinds_link, ← findIdx?_initial]
    exact h.root_eq
  · intro r hr
    rw [parent?_link hc, if_neg]
    · exact h.root_parent hr
    · rintro rfl
      exact hroot hr

theorem attempt (h : t.Linked) (s : Step) : (t.attempt s).Linked := by
  cases hs : t.step s with
  | error f =>
    rw [attempt_of_error hs]
    exact h
  | ok t' =>
    rw [attempt_of_ok hs]
    cases s with
    | allocate kind label value =>
      cases hs
      exact h.allocate kind label value
    | connect p c role => exact h.connect hs

theorem foldl_attempt (h : t.Linked) (steps : List Step) : (steps.foldl Ast.attempt t).Linked := by
  induction steps generalizing t with
  | nil => exact h
  | cons s steps ih => exact ih (h.attempt s)

theorem after (steps : List Step) : (Ast.after steps).Linked :=
  Linked.empty.foldl_attempt steps

/-- A child is listed once by its parent and by no other node. -/
theorem count_childrenOf (h : t.Linked) {c p : Nat} (hp : t.parent? c = some p) (q : Nat) :
    (t.childrenOf q).count c = if q = p then 1 else 0 := by
  simp only [(h.nodup q).count, ← h.parent_iff, hp, Option.some.injEq, eq_comm]

/-- Between two nodes of the store an edge is refused just if the child is the
    root, has a parent or is an ancestor of the parent. -/
theorem connect_eq_error_iff (h : t.Linked) {p c : Nat} (hp : p < t.size) (hc : c < t.size)
    (hpc : p ≠ c) (role : Role) :
    (∃ f, t.connect p c role = .error f) ↔
      t.root = some c ∨ (∃ q, t.parent? c = some q) ∨ t.IsAncestor c p := by
  have hup : t.climbsTo c t.size p ↔ t.IsAncestor c p := by
    rw [h.climbsTo_size_iff hp, ← reflTransGen_up_iff, reflTransGen_iff_eq_or_transGen, IsAncestor]
    simp [Ne.symm hpc]
  have hfail : (∃ f, t.connect p c role = .error f) ↔ ¬ ∃ t', t.connect p c role = .ok t' := by
    cases t.connect p c role <;> simp
  have hadmit : (∃ t', t.connect p c role = .ok t') ↔
      t.root ≠ some c ∧ t.parent? c = none ∧ t.climbsTo c t.size p = false := by
    constructor
    · rintro ⟨t', hok⟩
      exact (connect_eq_ok_iff.1 hok).1.2
    · intro hadmit
      exact ⟨_, connect_eq_ok_iff.2 ⟨⟨⟨hp, hc, hpc⟩, hadmit⟩, rfl⟩⟩
  rw [hfail, hadmit, ← hup]
  cases t.parent? c <;> cases t.climbsTo c t.size p <;> simp

end Linked

theorem root_attempt {t : Ast} {r : Nat} (hr : t.root = some r) (s : Step) :
    (t.attempt s).root = some r := by
  cases hs : t.step s with
  | error f =>
    rw [attempt_of_error hs]
    exact hr
  | ok t' =>
    rw [attempt_of_ok hs]
    cases s with
    | allocate kind label value =>
      cases hs
      rw [allocate, hr]
      rfl
    | connect p c role =>
      obtain ⟨-, rfl⟩ := connect_eq_ok_iff.1 hs
      exact hr

theorem root_foldl_attempt {t : Ast} {r : Nat} (hr : t.root = some r) (steps : List Step) :
    (steps.foldl attempt t).root = some r := by
  induction steps generalizing t with
  | nil => exact hr
  | cons s steps ih => exact ih (root_attempt hr s)

/-- **Whatever operations are tried on a store, its parents and children agree.**
    A node has its place as its number.  It has a parent just if it is among
    the children of that node, where it stands once, and among no others.  The
    way up from a node ends in fewer steps than there are nodes, without a
    cycle, so looking for a node on it within that many steps misses none.  The
    root is the first initial node, stays the root and has no parent.  An edge
    that is refused changes nothing, and one that is admitted changes the parent
    of the child and the end of the children of the parent.  Between two nodes
    of the store an edge is refused just if the child is the root, has a parent
    or is an ancestor of the parent. -/
theorem after_linked (steps : List Step) :
    let t := after steps
    (∀ (i : Nat) (n : Node), t.nodes[i]? = some n → n.id = i) ∧
    (∀ c p, t.parent? c = some p ↔ c ∈ t.childrenOf p) ∧
    (∀ c p, t.parent? c = some p → ∀ q, (t.childrenOf q).count c = if q = p then 1 else 0) ∧
    ((∀ id < t.size, ∃ k < t.size, ∃ r < t.size, t.climb k id = some r ∧ t.parent? r = none) ∧
      (∀ id, ¬ t.IsAncestor id id) ∧
      ∀ goal, ∀ id < t.size, t.climbsTo goal t.size id ↔ ∃ k, t.climb k id = some goal) ∧
    (t.root = t.nodes.findIdx? (·.kind = .initial) ∧
      ∀ r, t.root = some r →
        t.parent? r = none ∧ ∀ more, (after (steps ++ more)).root = some r) ∧
    (∀ p c role f, t.connect p c role = .error f → after (steps ++ [.connect p c role]) = t) ∧
    (∀ p c role t', t.connect p c role = .ok t' → after (steps ++ [.connect p c role]) = t' ∧
      t'.root = t.root ∧
      ∀ i : Nat, t'.nodes[i]? = t.nodes[i]?.map fun n =>
        { n with
          parent := if i = c then some p else n.parent
          children := if i = p then n.children ++ [⟨role, c⟩] else n.children }) ∧
    ∀ p c role, p < t.size → c < t.size → p ≠ c →
      ((∃ f, t.connect p c role = .error f) ↔
        t.root = some c ∨ (∃ q, t.parent? c = some q) ∨ t.IsAncestor c p) := by
  intro t
  have h : t.Linked := Linked.after steps
  refine ⟨fun _ _ => h.id_eq, fun _ _ => h.parent_iff, fun _ _ => h.count_childrenOf,
    ⟨fun _ => h.exists_top, h.acyclic, fun _ _ => h.climbsTo_size_iff⟩,
    ⟨h.root_eq, fun r hr => ⟨h.root_parent hr, fun more => ?_⟩⟩, ?_, ?_,
    fun p c role hp hc hpc => h.connect_eq_error_iff hp hc hpc role⟩
  · rw [after_append]
    exact root_foldl_attempt hr more
  · intro p c role f hf
    rw [after_append]
    exact attempt_of_error hf
  · intro p c role t' ht'
    obtain ⟨-, rfl⟩ := connect_eq_ok_iff.1 ht'
    refine ⟨?_, rfl, getElem?_link p c role⟩
    rw [after_append]
    exact attempt_of_ok ht'

end Ast

end Flowline
