/-
  Stores that are one tree.

  The check of a store looks at single nodes only: one initial node, one child
  of the root, a parent for every other node.  Since the way up from a node
  ends, and can end at the root only, all nodes are below the root; and since a
  node has one parent, a walk along the edges to children meets it once.

  * `Ast.Visits`: the walk from a node along the edges to children, which ends
    and meets the given nodes in order;
  * `Ast.Linked.visits_below`, `Ast.Visits.mem_iff`, `Ast.Visits.nodup`: the
    tree below a node is such a walk, and it meets the nodes below it once;
  * `Ast.Rooted`: all nodes are below the root;
  * `Ast.Linked.validate_eq_ok_iff`: the check accepts just those stores;
  * `EvalM.Passes`, `Tree.passes_eval`: the nodes that an evaluation reaches;
  * `Ast.validate_after_iff`: the check, the walk, the outline and the
    evaluation of a store after any operations.
-/
import Flowline.Proofs.Ancestry
import Flowline.Proofs.Evaluation

namespace Flowline

open Relation

/-! ## Walks -/

mutual
/-- What is at the nodes of a tree, a node before those below it. -/
def Tree.heads : Tree → List Head
  | .node head children => head :: children.heads

def Forest.heads : Forest → List Head
  | .nil => []
  | .cons _ tree rest => tree.heads ++ rest.heads
end

/-- The numbers of the nodes of a tree, a node before those below it. -/
def Tree.ids (t : Tree) : List Nat :=
  t.heads.map Head.id

def Forest.ids (f : Forest) : List Nat :=
  f.heads.map Head.id

theorem Forest.mem_heads_ofList {x : Head} {l : List (Role × Tree)} :
    x ∈ (Forest.ofList l).heads ↔ ∃ p ∈ l, x ∈ p.2.heads := by
  induction l with
  | nil => simp [Forest.ofList, Forest.heads]
  | cons p l ih =>
    obtain ⟨role, tree⟩ := p
    simp [Forest.ofList, Forest.heads, ih]

namespace Ast

/-- A parent and one of its children. -/
def Down (t : Ast) (parent child : Nat) : Prop :=
  child ∈ t.childrenOf parent

mutual
/-- The walk from a node along the edges to its children ends, and meets the
    given nodes in order. -/
inductive Visits (t : Ast) : Nat → List Nat → Prop
  | node {id : Nat} {n : Node} {ids : List Nat} : t.nodes[id]? = some n →
      t.VisitsAll (n.children.map Edge.child) ids → t.Visits id (id :: ids)

/-- The walks from nodes, one after another. -/
inductive VisitsAll (t : Ast) : List Nat → List Nat → Prop
  | nil : t.VisitsAll [] []
  | cons {c : Nat} {cs ids rest : List Nat} : t.Visits c ids → t.VisitsAll cs rest →
      t.VisitsAll (c :: cs) (ids ++ rest)
end

variable {t : Ast}

theorem childrenOf_eq {id : Nat} {n : Node} (h : t.nodes[id]? = some n) :
    t.childrenOf id = n.children.map Edge.child := by
  rw [childrenOf, h]
  rfl

mutual
/-- A walk meets the nodes below its start. -/
theorem Visits.mem_iff {j : Nat} : ∀ {id : Nat} {ids : List Nat}, t.Visits id ids →
    (j ∈ ids ↔ ReflTransGen t.Down id j)
  | id, _, .node hn hall => by
    rw [List.mem_cons, hall.mem_iff, ReflTransGen.cases_head_iff, eq_comm, ← childrenOf_eq hn]
    rfl

theorem VisitsAll.mem_iff {j : Nat} : ∀ {cs ids : List Nat}, t.VisitsAll cs ids →
    (j ∈ ids ↔ ∃ c ∈ cs, ReflTransGen t.Down c j)
  | _, _, .nil => by simp
  | _, _, .cons hfirst hrest => by
    rw [List.mem_append, hfirst.mem_iff, hrest.mem_iff]
    simp
end

theorem visitsAll_below {d : Nat} {edges : List Edge}
    (h : ∀ e ∈ edges, ∃ m, t.nodes[e.child]? = some m ∧ t.Visits e.child (t.below d m).ids) :
    t.VisitsAll (edges.map Edge.child) (Forest.ofList (edges.filterMap fun e =>
      t.nodes[e.child]?.map fun c => (e.role, t.below d c))).ids := by
  induction edges with
  | nil => exact .nil
  | cons e edges ih =>
    obtain ⟨m, hm, hvisits⟩ := h e (by simp)
    have hrest := ih fun e' he' => h e' (by simp [he'])
    simp only [List.filterMap_cons, hm, Option.map_some, Forest.ofList, Forest.ids, Forest.heads,
      List.map_append, List.map_cons]
    exact .cons hvisits hrest

namespace Linked

theorem down_iff (h : t.Linked) {p c : Nat} : t.Down p c ↔ t.Up c p :=
  h.parent_iff.symm

theorem reflTransGen_down_iff (h : t.Linked) {a id : Nat} :
    ReflTransGen t.Down a id ↔ ReflTransGen t.Up id a := by
  have hswap : t.Down = Function.swap t.Up := by
    funext p c
    exact propext h.down_iff
  rw [hswap, reflTransGen_swap]

theorem exists_node_of_down (h : t.Linked) {p c : Nat} (hc : t.Down p c) :
    ∃ n, t.nodes[c]? = some n :=
  ⟨_, Array.getElem?_eq_getElem (lt_size_of_up (h.down_iff.1 hc))⟩

/-- The tree below a node is the walk from it, if its depth is bounded by the
    number of nodes that the way up leaves. -/
theorem visits_below (h : t.Linked) {d id k a : Nat} {n : Node} (hn : t.nodes[id]? = some n)
    (hk : t.climb k id = some a) (hd : t.size ≤ k + d) : t.Visits id (t.below d n).ids := by
  induction d generalizing id k n with
  | zero =>
    have hid : id < t.size := (Array.getElem?_eq_some_iff.1 hn).1
    have hlt := h.climb_lt_size hid hk
    omega
  | succ d ih =>
    have hall := @visitsAll_below t d n.children (by
      intro e he
      have hdown : t.Down id e.child := by
        rw [Down, childrenOf_eq hn]
        exact List.mem_map_of_mem he
      obtain ⟨m, hm⟩ := h.exists_node_of_down hdown
      refine ⟨m, hm, ih (k := k + 1) hm ?_ (by omega)⟩
      rw [climb, show t.parent? e.child = some id from h.down_iff.1 hdown]
      exact hk)
    have hvisits := Visits.node hn hall
    rw [← h.id_eq hn] at hvisits ⊢
    exact hvisits

/-- Two children of a node have no node below both. -/
theorem eq_of_siblings (h : t.Linked) {p c c' j : Nat} (hc : t.Up c p) (hc' : t.Up c' p)
    (hj : ReflTransGen t.Down c j) (hj' : ReflTransGen t.Down c' j) : c = c' := by
  have hunique : Relator.RightUnique t.Up := by
    intro x y z hy hz
    exact Option.some.inj (hy.symm.trans hz)
  -- the parent would be above itself
  have hcycle {c c' : Nat} (hc : t.Up c p) (hc' : t.Up c' p) (hup : ReflTransGen t.Up c c') :
      c = c' := by
    rcases ReflTransGen.cases_head_iff.1 hup with heq | ⟨q, hq, hup⟩
    · exact heq
    · obtain rfl := hunique hq hc
      exact absurd (TransGen.tail' hup hc') (h.acyclic q)
  rw [h.reflTransGen_down_iff] at hj hj'
  rcases hj.total_of_right_unique hunique hj' with hup | hup
  · exact hcycle hc hc' hup
  · exact (hcycle hc' hc hup).symm

end Linked

mutual
/-- A walk meets no node twice. -/
theorem Visits.nodup (h : t.Linked) : ∀ {id : Nat} {ids : List Nat}, t.Visits id ids → ids.Nodup
  | id, _, .node hn hall => by
    have hchild : ∀ c ∈ _, t.Up c id := fun c hc => h.down_iff.1 (by rwa [Down, childrenOf_eq hn])
    refine List.nodup_cons.2 ⟨fun hid => ?_, hall.nodup h hchild ?_⟩
    · obtain ⟨c, hc, hup⟩ := hall.mem_iff.1 hid
      rw [h.reflTransGen_down_iff] at hup
      exact h.acyclic id (TransGen.tail' hup (hchild c hc))
    · rw [← childrenOf_eq hn]
      exact h.nodup id

theorem VisitsAll.nodup (h : t.Linked) {p : Nat} : ∀ {cs ids : List Nat}, t.VisitsAll cs ids →
    (∀ c ∈ cs, t.Up c p) → cs.Nodup → ids.Nodup
  | _, _, .nil, _, _ => List.nodup_nil
  | _, _, .cons hfirst hrest, hup, hnodup => by
    obtain ⟨hc, hcs⟩ := List.nodup_cons.1 hnodup
    obtain ⟨hupc, hupcs⟩ := List.forall_mem_cons.1 hup
    refine List.nodup_append'.2 ⟨hfirst.nodup h, hrest.nodup h hupcs hcs, fun j hj hj' => ?_⟩
    obtain ⟨c', hc', hdown⟩ := hrest.mem_iff.1 hj'
    obtain rfl := h.eq_of_siblings hupc (hupcs c' hc') (hfirst.mem_iff.1 hj) hdown
    exact hc hc'
end

/-! ## Validation -/

/-- All nodes are below the root, which is the only initial node and has one
    child. -/
structure Rooted (t : Ast) (r : Nat) : Prop where
  initial : ∀ i : Nat, t.nodes[i]?.map (·.kind) = some .initial ↔ i = r
  root : t.root = some r
  arity : ∃ c, t.childrenOf r = [c]
  below : ∀ id < t.size, ReflTransGen t.Down r id

/-- What the check of a store looks at. -/
theorem validate_eq_ok_iff : t.validate = .ok () ↔
    ∃ r, t.root = some r ∧ t.nodes.countP (·.kind = .initial) = 1 ∧
      (∃ c, t.childrenOf r = [c]) ∧ ∀ n ∈ t.nodes, n.id ≠ r → n.parent ≠ none := by
  rw [validate]
  cases hr : t.root with
  | none => simp [throw, throwThe, MonadExceptOf.throw]
  | some r =>
    have harity :
        (t.nodes[r]?.map (·.children.length)).getD 0 = (t.childrenOf r).length := by
      rw [childrenOf]
      cases t.nodes[r]? <;> simp
    simp only [harity, ← List.length_eq_one_iff]
    by_cases hcount : t.nodes.countP (fun n => n.kind = .initial) = 1
    · by_cases hlen : (t.childrenOf r).length = 1
      · cases hfind : t.nodes.find? fun n => n.id != r && n.parent.isNone with
        | none =>
          rw [Array.find?_eq_none] at hfind
          simpa [hcount, hlen, pure, Except.pure] using hfind
        | some n =>
          have hn := Array.find?_some hfind
          have hn' : n.id ≠ r ∧ n.parent = none := by simpa using hn
          simpa [hcount, hlen, throw, throwThe, MonadExceptOf.throw] using
            ⟨n, Array.mem_of_find?_eq_some hfind, hn'⟩
      · simp [hcount, hlen, throw, throwThe, MonadExceptOf.throw, bind, Except.bind]
    · simp [hcount, throw, throwThe, MonadExceptOf.throw, bind, Except.bind]

theorem countP_eq_one_iff {α : Type} {p : α → Bool} {l : List α} {r : Nat}
    (h : l.findIdx? p = some r) : l.countP p = 1 ↔ ∀ (i : Nat) a, l[i]? = some a → p a → i = r := by
  induction l generalizing r with
  | nil => cases h
  | cons x l ih =>
    rw [List.findIdx?_cons] at h
    by_cases hx : p x
    · rw [if_pos hx, Option.some.injEq] at h
      subst h
      rw [List.countP_cons_of_pos hx, Nat.add_eq_right, List.countP_eq_zero]
      constructor
      · intro hl i a ha hp
        cases i with
        | zero => rfl
        | succ i => exact absurd hp (hl a (List.mem_of_getElem? ha))
      · intro hl a ha hp
        obtain ⟨i, hi⟩ := List.getElem?_of_mem ha
        exact absurd (hl (i + 1) a hi hp) (Nat.succ_ne_zero i)
    · rw [if_neg hx] at h
      obtain ⟨r, hr, rfl⟩ := Option.map_eq_some_iff.1 h
      rw [List.countP_cons_of_neg hx, ih hr]
      constructor
      · intro hl i a ha hp
        cases i with
        | zero =>
          cases ha
          exact absurd hp hx
        | succ i => exact congrArg (· + 1) (hl i a ha hp)
      · intro hl i a ha hp
        exact Nat.succ.inj (hl (i + 1) a ha hp)

namespace Linked

theorem countP_initial_iff (h : t.Linked) {r : Nat} (hr : t.root = some r) :
    t.nodes.countP (·.kind = .initial) = 1 ↔
      ∀ i : Nat, t.nodes[i]?.map (·.kind) = some .initial ↔ i = r := by
  have hfind : t.nodes.toList.findIdx? (·.kind = .initial) = some r := by
    rw [← hr, h.root_eq, ← List.findIdx?_toArray]
  have hkind : t.nodes[r]?.map (·.kind) = some .initial := by
    obtain ⟨hlt, hkind, -⟩ := List.findIdx?_eq_some_iff_getElem.1 hfind
    rw [← Array.getElem?_toList, List.getElem?_eq_getElem hlt]
    simpa using hkind
  rw [← Array.countP_toList, countP_eq_one_iff hfind]
  constructor
  · intro hall i
    refine ⟨fun hi => ?_, fun hi => hi ▸ hkind⟩
    obtain ⟨n, hn, hkind⟩ := Option.map_eq_some_iff.1 hi
    exact hall i n (by rwa [Array.getElem?_toList]) (by simpa using hkind)
  · intro hall i n hn hkind
    rw [Array.getElem?_toList] at hn
    exact (hall i).1 (by simpa [hn] using hkind)

theorem parent?_of_mem (h : t.Linked) {n : Node} (hn : n ∈ t.nodes) :
    t.nodes[n.id]? = some n ∧ t.parent? n.id = n.parent := by
  obtain ⟨i, hi⟩ := Array.getElem?_of_mem hn
  have hid := h.id_eq hi
  subst hid
  exact ⟨hi, by rw [parent?, hi]; rfl⟩

/-- **The check accepts just the stores all nodes of which are below the root.** -/
theorem validate_eq_ok_iff (h : t.Linked) : t.validate = .ok () ↔ ∃ r, t.Rooted r := by
  rw [Ast.validate_eq_ok_iff]
  constructor
  · rintro ⟨r, hr, hcount, harity, hparent⟩
    refine ⟨r, (h.countP_initial_iff hr).1 hcount, hr, harity, fun id hid => ?_⟩
    obtain ⟨k, -, top, htop, hk, hnone⟩ := h.exists_top hid
    -- the way up ends at a node without a parent, and only the root is one
    have hroot : top = r := by
      by_contra hne
      obtain ⟨n, hn⟩ : ∃ n, t.nodes[top]? = some n := ⟨_, Array.getElem?_eq_getElem htop⟩
      have hmem := Array.mem_of_getElem? hn
      obtain ⟨-, hp⟩ := h.parent?_of_mem hmem
      rw [h.id_eq hn, hnone] at hp
      exact hparent n hmem (by rwa [h.id_eq hn]) hp.symm
    subst hroot
    exact h.reflTransGen_down_iff.2 (reflTransGen_up_iff.2 ⟨k, hk⟩)
  · rintro ⟨r, hinitial, hr, harity, hbelow⟩
    refine ⟨r, hr, (h.countP_initial_iff hr).2 hinitial, harity, fun n hn hne => ?_⟩
    obtain ⟨hnode, hp⟩ := h.parent?_of_mem hn
    rcases ReflTransGen.cases_tail (hbelow n.id (Array.getElem?_eq_some_iff.1 hnode).1) with
      heq | ⟨p, -, hdown⟩
    · exact absurd heq hne
    · rw [← hp, show t.parent? n.id = some p from h.down_iff.1 hdown]
      simp

/-- The walk from the root of such a store meets every node once. -/
theorem visits_root (h : t.Linked) {r : Nat} (hr : t.Rooted r) :
    ∃ tree, t.tree? = some tree ∧ t.Visits r tree.ids ∧ tree.ids.Perm (List.range t.size) := by
  obtain ⟨n, hn, -⟩ := Option.map_eq_some_iff.1 ((hr.initial r).2 rfl)
  have hlt : r < t.size := (Array.getElem?_eq_some_iff.1 hn).1
  have hvisits : t.Visits r (t.below t.size n).ids := h.visits_below (k := 0) hn rfl (by omega)
  refine ⟨t.below t.size n, ?_, hvisits, ?_⟩
  · simp [tree?, hr.root, hn]
  · rw [List.perm_ext_iff_of_nodup (hvisits.nodup h) List.nodup_range]
    intro j
    rw [hvisits.mem_iff, List.mem_range]
    refine ⟨fun hj => ?_, hr.below j⟩
    rcases ReflTransGen.cases_tail hj with rfl | ⟨p, -, hdown⟩
    · exact hlt
    · exact lt_size_of_up (h.down_iff.1 hdown)

end Linked

/-- The heads of the tree below a node are those of the store. -/
theorem Linked.heads_below (h : t.Linked) {d : Nat} {n : Node} (hn : t.nodes[n.id]? = some n) :
    ∀ x ∈ (t.below d n).heads, ∃ m, t.nodes[x.id]? = some m ∧ m.toHead = x := by
  induction d generalizing n with
  | zero =>
    intro x hx
    obtain rfl := List.mem_singleton.1 hx
    exact ⟨n, hn, rfl⟩
  | succ d ih =>
    intro x hx
    rw [below, Tree.heads, List.mem_cons, Forest.mem_heads_ofList] at hx
    rcases hx with rfl | ⟨⟨role, tree⟩, hmem, hx⟩
    · exact ⟨n, hn, rfl⟩
    · obtain ⟨e, -, he⟩ := List.mem_filterMap.1 hmem
      obtain ⟨c, hc, heq⟩ := Option.map_eq_some_iff.1 he
      cases heq
      exact ih (by rwa [h.id_eq hc]) x hx

end Ast

/-! ## Outlines -/

mutual
/-- An outline has a line for each node, in the order of the walk. -/
theorem Tree.outline_eq : ∀ (tree : Tree) (depth : Nat) (role : Role),
    ∃ lines, tree.outline depth role = String.join lines ∧
      List.Forall₂ (fun (h : Head) line => ∃ d r, line = h.line d r) tree.heads lines
  | .node head children, depth, role => by
    obtain ⟨lines, hjoin, hlines⟩ := children.outline_eq (depth + 1)
    refine ⟨head.line depth role :: lines, ?_, .cons ⟨depth, role, rfl⟩ hlines⟩
    rw [Tree.outline, hjoin, String.join_cons]

theorem Forest.outline_eq : ∀ (forest : Forest) (depth : Nat),
    ∃ lines, forest.outline depth = String.join lines ∧
      List.Forall₂ (fun (h : Head) line => ∃ d r, line = h.line d r) forest.heads lines
  | .nil, _ => ⟨[], rfl, .nil⟩
  | .cons role tree rest, depth => by
    obtain ⟨lines, hjoin, hlines⟩ := tree.outline_eq depth role
    obtain ⟨lines', hjoin', hlines'⟩ := rest.outline_eq depth
    refine ⟨lines ++ lines', ?_, List.rel_append hlines hlines'⟩
    rw [Forest.outline, hjoin, hjoin', String.join_append]
end

/-! ## Evaluations -/

/-- The nodes that an evaluation reached, as its events tell. -/
def visited (events : List Event) : List Nat :=
  events.filterMap fun
    | .visit id _ => some id
    | _ => none

variable {σ : Type}

/-- An evaluation reaches the given nodes in order, all of them if it
    succeeds. -/
def EvalM.Passes {α : Type} (m : EvalM σ α) (ids : List Nat) : Prop :=
  ∀ st, ∃ seen, seen <+: ids ∧
    visited (m.run st).2.events.toList = visited st.events.toList ++ seen ∧
    ∀ a, (m.run st).1 = .ok a → seen = ids

namespace EvalM.Passes

variable {α β : Type}

theorem bind {m : EvalM σ α} {k : α → EvalM σ β} {ids ids' : List Nat} (hm : m.Passes ids)
    (hk : ∀ a, (k a).Passes ids') : (m >>= k).Passes (ids ++ ids') := by
  intro st
  obtain ⟨seen, hseen, hevents, hok⟩ := hm st
  rw [EvalM.run_bind]
  cases hr : m.run st with
  | mk r st' =>
    rw [hr] at hevents hok
    cases r with
    | error f => exact ⟨seen, hseen.trans (List.prefix_append _ _), hevents, nofun⟩
    | ok a =>
      obtain rfl := hok a rfl
      obtain ⟨seen', hseen', hevents', hok'⟩ := hk a st'
      refine ⟨seen ++ seen', (List.prefix_append_right_inj seen).2 hseen', ?_, fun b hb => ?_⟩
      · show visited ((k a).run st').2.events.toList = _
        rw [hevents', hevents, List.append_assoc]
      · rw [hok' b hb]

/-- An evaluation that reaches no node. -/
theorem of_silent {m : EvalM σ α}
    (h : ∀ st, visited (m.run st).2.events.toList = visited st.events.toList) : m.Passes [] :=
  fun st => ⟨[], List.prefix_rfl, by simp [h st], fun _ _ => rfl⟩

theorem pure (a : α) : (Pure.pure a : EvalM σ α).Passes [] :=
  of_silent fun _ => rfl

theorem throw (f : EvalFault) : (MonadExcept.throw f : EvalM σ α).Passes [] :=
  of_silent fun _ => rfl

theorem emit {e : Event} (h : visited [e] = []) : (EvalM.emit e : EvalM σ Unit).Passes [] := by
  refine of_silent fun st => ?_
  simp only [EvalM.run_emit, Array.toList_push, visited, List.filterMap_append] at h ⊢
  rw [h, List.append_nil]

theorem visit (id : Nat) (kind : NodeKind) : (EvalM.visit id kind : EvalM σ Unit).Passes [id] :=
  fun st => ⟨[id], List.prefix_rfl, by simp [EvalM.visit, visited], fun _ _ => rfl⟩

theorem lookup (name : String) : (Flowline.lookup name : EvalM σ Value).Passes [] :=
  of_silent fun st => by rw [run_lookup]

theorem bindName (name : String) (v : Value) :
    (Flowline.bindName name v : EvalM σ Unit).Passes [] :=
  bind (emit rfl) fun _ => of_silent fun _ => rfl

theorem runCallable (f : Callable σ) (name : String) (args : List Value) :
    (Flowline.runCallable f name args).Passes [] := by
  refine bind (of_silent fun _ => rfl) fun st => bind (of_silent fun _ => rfl) fun _ => ?_
  split
  next => exact bind (emit rfl) fun _ => pure _
  next => exact pure _

theorem recover (f : EvalFault) : (Flowline.recover f : EvalM σ Value).Passes [] :=
  bind (emit rfl) fun _ => bind (of_silent fun _ => rfl) fun _ => pure _

theorem callFunction (env : Env σ) (site : Nat) (name : String) (args : List Value) :
    (Flowline.callFunction env site name args).Passes [] := by
  unfold Flowline.callFunction
  refine bind (of_silent fun _ => rfl) fun st => bind (emit rfl) fun _ => ?_
  rcases resolve env.registry st.symbols name with fault | f
  on_goal 1 => refine bind (pure (Except.error fault)) fun r => ?_
  on_goal 2 => refine bind (runCallable f name args) fun r => ?_
  all_goals
    cases r with
    | ok v => exact pure v
    | error fault =>
      cases env.config.callFaults with
      | propagate => exact throw fault
      | sentinel => exact recover fault

theorem steps : KeptBySteps fun {α : Type} (m : EvalM σ α) => m.Passes [] where
  ret := pure
  fail := throw
  seq := bind
  var := lookup
  bind := bindName

/-- The value of a node is found without reaching another one. -/
theorem settle (env : Env σ) (h : Head) (roles : List Role) (vals : List Value) :
    (h.settle env roles vals).Passes [] :=
  steps.settle h env roles vals fun _ name => callFunction env h.id name vals

end EvalM.Passes

mutual
/-- An evaluation of all branches follows the walk. -/
theorem Tree.passes_eval {env : Env σ} (h : env.config.conditionals = .eager) :
    ∀ tree : Tree, (tree.eval env).Passes tree.ids
  | .node head children => by
    rw [Tree.eval, h]
    refine (EvalM.Passes.visit head.id head.kind).bind fun _ => ?_
    have hall := (children.passes_evalAll h).bind fun vals =>
      EvalM.Passes.settle env head children.roles vals
    rwa [List.append_nil] at hall

theorem Forest.passes_evalAll {env : Env σ} (h : env.config.conditionals = .eager) :
    ∀ forest : Forest, (forest.evalAll env).Passes forest.ids
  | .nil => .pure []
  | .cons _ tree rest => by
    rw [Forest.evalAll, Forest.ids, Forest.heads, List.map_append]
    refine (tree.passes_eval h).bind fun v => ?_
    have hrest := (rest.passes_evalAll h).bind fun vs => EvalM.Passes.pure (v :: vs)
    rwa [List.append_nil] at hrest
end

/-! ## Whole stores -/

namespace Ast

variable {t : Ast}

/-- The outline of a store has a line for each node that the walk meets. -/
theorem Linked.outline_eq (h : t.Linked) {tree : Tree} (htree : t.tree? = some tree) :
    ∃ lines, t.outline = String.join lines ∧
      List.Forall₂ (fun id line => ∃ n depth role, t.nodes[id]? = some n ∧
        line = n.toHead.line depth role) tree.ids lines := by
  obtain ⟨lines, hjoin, hlines⟩ := tree.outline_eq 0 .operand
  refine ⟨lines, ?_, ?_⟩
  · rw [outline, htree]
    exact hjoin
  · rw [Tree.ids, List.forall₂_map_left_iff]
    have hheads : ∀ x ∈ tree.heads, ∃ m, t.nodes[x.id]? = some m ∧ m.toHead = x := by
      simp only [tree?, Option.bind_eq_bind, Option.bind_eq_some_iff, Option.pure_def,
        Option.some.injEq] at htree
      obtain ⟨r, -, n, hn, rfl⟩ := htree
      exact h.heads_below (by rwa [h.id_eq hn])
    refine ((List.forall₂_and_left _ _).2 ⟨hheads, hlines⟩).imp ?_
    rintro x line ⟨⟨m, hm, rfl⟩, depth, role, rfl⟩
    exact ⟨m, depth, role, hm, rfl⟩

theorem passes_evaluate {env : Env σ} (henv : env.config.conditionals = .eager)
    (hvalid : t.validate = .ok ()) {tree : Tree} (htree : t.tree? = some tree) :
    (t.evaluate env).Passes tree.ids := by
  rw [evaluate, hvalid, htree]
  exact tree.passes_eval henv

/-- **The check accepts just the stores that are one tree.**  After any
    operations, a store passes the check just if it has one initial node, which
    is the root and has one child, and all nodes are below it.  The walk along
    the edges to children then ends and meets every node once; an outline has a
    line for each node it meets, and an evaluation of all branches reaches those
    nodes in its order. -/
theorem validate_after_iff (steps : List Step) :
    ((after steps).validate = .ok () ↔ ∃ r, (after steps).Rooted r) ∧
    ∀ r, (after steps).Rooted r → ∃ tree, (after steps).tree? = some tree ∧
      (after steps).Visits r tree.ids ∧ tree.ids.Perm (List.range (after steps).size) ∧
      (∃ lines, (after steps).outline = String.join lines ∧
        List.Forall₂ (fun id line => ∃ n depth role, (after steps).nodes[id]? = some n ∧
          line = n.toHead.line depth role) tree.ids lines) ∧
      ∀ {σ : Type} (env : Env σ), env.config.conditionals = .eager →
        ((after steps).evaluate env).Passes tree.ids := by
  have h := Linked.after steps
  refine ⟨h.validate_eq_ok_iff, fun r hr => ?_⟩
  obtain ⟨tree, htree, hvisits, hperm⟩ := h.visits_root hr
  refine ⟨tree, htree, hvisits, hperm, h.outline_eq htree, fun env henv => ?_⟩
  exact passes_evaluate henv (h.validate_eq_ok_iff.2 ⟨r, hr⟩) htree

end Ast

end Flowline
