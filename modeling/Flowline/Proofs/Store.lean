/-
  Trees in stores.

  A tree whose nodes are numbered bottom up is laid out by allocating each node
  after those below it and connecting it to its children.

  * `Tree.nodes`: the nodes of a tree as a store holds them, a node after those
    below it;
  * `Tree.steps`: the operations that lay out a tree;
  * `Tree.Numbered`: the nodes take consecutive numbers in that order;
  * `Tree.run_steps`: the operations succeed and append the nodes;
  * `Tree.below_eq`: a store that holds the nodes of a tree gives the tree back;
  * `Ast.validate_eq_ok`: when a store is one tree.
-/
import Flowline.Tree.Layout
import Flowline.Tree.Outline

namespace Flowline

/-! ## Nodes, steps and numbers -/

/-- What the node at the top of a tree is. -/
def Tree.head : Tree → Head
  | node head _ => head

/-- The edges to the children. -/
def Forest.edges : Forest → List Edge
  | nil => []
  | cons role tree rest => { role, child := tree.head.id } :: rest.edges

/-- The node at the top of a tree, below the given parent. -/
def Tree.top (parent : Option Nat) : Tree → Node
  | node head children => { head with parent, children := children.edges }

mutual
/-- The nodes of a tree below the given parent, a node after those below it. -/
def Tree.nodes (parent : Option Nat) : Tree → List Node
  | .node head children =>
    children.nodes (some head.id) ++ [(Tree.node head children).top parent]

/-- The nodes of children, below the given parent. -/
def Forest.nodes (parent : Option Nat) : Forest → List Node
  | .nil => []
  | .cons _ tree rest => tree.nodes parent ++ rest.nodes parent
end

/-- Connect a node to children. -/
def connectSteps (id : Nat) (edges : List Edge) : List Step :=
  edges.map fun e => .connect id e.child e.role

mutual
/-- The operations that lay out a tree. -/
def Tree.steps : Tree → List Step
  | .node head children =>
    children.steps ++
      .allocate head.kind head.label head.value :: connectSteps head.id children.edges

/-- The operations that lay out trees one after another. -/
def Forest.steps : Forest → List Step
  | .nil => []
  | .cons _ tree rest => tree.steps ++ rest.steps
end

mutual
/-- The number of nodes. -/
def Tree.size : Tree → Nat
  | .node _ children => children.size + 1

/-- The number of nodes. -/
def Forest.size : Forest → Nat
  | .nil => 0
  | .cons _ tree rest => tree.size + rest.size
end

mutual
/-- The nodes are numbered from `next`, a node after those below it. -/
def Tree.Numbered (next : Nat) : Tree → Prop
  | .node head children => children.Numbered next ∧ head.id = next + children.size

/-- The nodes of children are numbered from `next`, one tree after another. -/
def Forest.Numbered (next : Nat) : Forest → Prop
  | .nil => True
  | .cons _ tree rest => tree.Numbered next ∧ rest.Numbered (next + tree.size)
end

mutual
@[simp] theorem Tree.length_nodes (parent : Option Nat) :
    ∀ t : Tree, (t.nodes parent).length = t.size
  | .node head children => by
    rw [Tree.nodes, List.length_append, Forest.length_nodes, Tree.size]
    rfl

@[simp] theorem Forest.length_nodes (parent : Option Nat) :
    ∀ f : Forest, (f.nodes parent).length = f.size
  | .nil => rfl
  | .cons _ tree rest => by
    rw [Forest.nodes, List.length_append, Tree.length_nodes, Forest.length_nodes, Forest.size]
end

/-- The top of a tree has the last number. -/
theorem Tree.Numbered.id_add_one {next : Nat} :
    ∀ {t : Tree}, t.Numbered next → t.head.id + 1 = next + t.size
  | .node head children, ⟨_, hid⟩ => by
    rw [Tree.head, hid, Tree.size]
    omega

/-- The top of a tree stands last among its nodes. -/
theorem Tree.exists_nodes_eq :
    ∀ t : Tree, ∃ below, (∀ p, t.nodes p = below ++ [t.top p]) ∧ below.length + 1 = t.size
  | .node head children =>
    ⟨children.nodes (some head.id), fun _ => rfl, by rw [Forest.length_nodes, Tree.size]⟩

/-! ## Connecting -/

/-- A node below a parent. -/
def Node.under (n : Node) (parent : Nat) : Node :=
  { n with parent := some parent }

/-- A node with more children. -/
def Node.over (n : Node) (edges : List Edge) : Node :=
  { n with children := n.children ++ edges }

@[simp] theorem Tree.under_top (parent : Nat) : ∀ t : Tree, (t.top none).under parent = t.top parent
  | .node _ _ => rfl

@[simp] theorem Tree.parent_top (parent : Option Nat) : ∀ t : Tree, (t.top parent).parent = parent
  | .node _ _ => rfl

@[simp] theorem Tree.id_top (parent : Option Nat) : ∀ t : Tree, (t.top parent).id = t.head.id
  | .node _ _ => rfl

@[simp] theorem Node.over_over (n : Node) (l₁ l₂ : List Edge) :
    (n.over l₁).over l₂ = n.over (l₁ ++ l₂) := by
  simp [Node.over]

@[simp] theorem Node.over_nil (n : Node) : n.over [] = n := by
  simp [Node.over]

theorem modify_append_cons {α : Type} (xs ys : List α) (a : α) (f : α → α) :
    (xs ++ a :: ys).modify xs.length f = xs ++ f a :: ys := by
  simp [List.modify_eq_take_drop]

namespace Ast

theorem run_cons {t t' : Ast} {s : Step} (h : t.step s = .ok t') (l : List Step) :
    t.run (s :: l) = t'.run l := by
  rw [run, List.foldlM_cons, h]
  rfl

theorem run_append {t t' : Ast} {l₁ : List Step} (h : t.run l₁ = .ok t') (l₂ : List Step) :
    t.run (l₁ ++ l₂) = t'.run l₂ := by
  rw [run, List.foldlM_append]
  show t.run l₁ >>= (·.run l₂) = _
  rw [h]
  rfl

/-- A node takes the next number. -/
theorem step_allocate {xs : List Node} {root : Nat} {head : Head} (hid : head.id = xs.length) :
    (Ast.mk xs.toArray (some root)).step (.allocate head.kind head.label head.value) =
      .ok ⟨(xs ++ [(Tree.node head .nil).top none]).toArray, some root⟩ := by
  simp [step, allocate, Tree.top, Forest.edges, ← hid]

/-- A node without a parent is connected below another one. -/
theorem connect_eq_ok {t : Ast} {parent child : Nat} {p c : Node}
    (hp : t.nodes[parent]? = some p) (hc : t.nodes[child]? = some c) (hne : parent ≠ child)
    (hroot : t.root ≠ some child) (hp' : p.parent = none) (hc' : c.parent = none) (role : Role) :
    t.connect parent child role = .ok (t.link parent child role) := by
  -- the way up from the parent ends at once
  have hclimb (n : Nat) : t.climbsTo child n parent = false := by
    cases n with
    | zero => rfl
    | succ n => simp [climbsTo, parent?, hp, hp', hne]
  simp [connect, node, hp, hc, hne, hroot, hc', hclimb, bind, Except.bind, pure, Except.pure]

/-- A node is connected below the last one. -/
theorem step_connect_last {xs ys : List Node} {c p : Node} {root : Option Nat}
    (hroot : root ≠ some xs.length) (hc : c.parent = none) (hp : p.parent = none) (role : Role)
    {id : Nat} (hid : id = xs.length + ys.length + 1) :
    (Ast.mk (xs ++ c :: (ys ++ [p])).toArray root).step (.connect id xs.length role) =
      .ok ⟨(xs ++ c.under id :: (ys ++ [p.over [⟨role, xs.length⟩]])).toArray, root⟩ := by
  have hlast : (xs ++ c :: (ys ++ [p]))[id]? = some p := by
    have hsub : id - xs.length = ys.length + 1 := by omega
    rw [List.getElem?_append_right (by omega), hsub]
    simp
  have hmodify (x : Node) (f : Node → Node) :
      (xs ++ x :: (ys ++ [p])).modify id f = xs ++ x :: (ys ++ [f p]) := by
    have h := modify_append_cons (xs ++ x :: ys) [] p f
    have hlen : (xs ++ x :: ys).length = id := by
      rw [List.length_append, List.length_cons]
      omega
    rw [hlen] at h
    simpa using h
  rw [step, connect_eq_ok (p := p) (c := c) (by simpa using hlast) (by simp) (by omega) hroot hp hc]
  simp only [link, List.modify_toArray, modify_append_cons, hmodify]
  rfl

/-- The last node is connected below the root. -/
theorem step_connect_root {xs : List Node} {c r : Node} (hc : c.parent = none)
    (hr : r.parent = none) (role : Role) :
    (Ast.mk (r :: (xs ++ [c])).toArray (some 0)).step (.connect 0 (xs.length + 1) role) =
      .ok ⟨(r.over [⟨role, xs.length + 1⟩] :: (xs ++ [c.under 0])).toArray, some 0⟩ := by
  have hmodify (f : Node → Node) :
      (r :: (xs ++ [c])).modify (xs.length + 1) f = r :: (xs ++ [f c]) :=
    modify_append_cons (r :: xs) [] c f
  rw [step, connect_eq_ok (p := r) (c := c) rfl (by simp) (by omega) (by simp) hr hc]
  simp only [link, List.modify_toArray, hmodify, List.modify_zero_cons]
  rfl

end Ast

/-- Children without a parent are connected below the last node. -/
theorem Forest.run_connectSteps {root id : Nat} : ∀ (f : Forest) {xs ys : List Node} {p : Node},
    f.Numbered xs.length → root < xs.length → p.parent = none →
    id = xs.length + f.size + ys.length →
    (Ast.mk (xs ++ (f.nodes none ++ (ys ++ [p]))).toArray (some root)).run
        (connectSteps id f.edges) =
      .ok ⟨(xs ++ (f.nodes (some id) ++ (ys ++ [p.over f.edges]))).toArray, some root⟩
  | .nil, xs, ys, p, _, _, _, _ => by
    rw [Forest.edges, Node.over_nil]
    rfl
  | .cons role tree rest, xs, ys, p, ⟨htree, hrest⟩, hroot, hp, hid => by
    obtain ⟨below, hnodes, hlen⟩ := tree.exists_nodes_eq
    rw [Forest.size] at hid
    have hsize : (xs ++ tree.nodes (some id)).length = xs.length + tree.size := by
      rw [List.length_append, Tree.length_nodes]
    have hchild : (xs ++ below).length = tree.head.id := by
      have h := htree.id_add_one
      rw [List.length_append]
      omega
    have hlast : id = (xs ++ below).length + (rest.nodes none ++ ys).length + 1 := by
      simp only [List.length_append, Forest.length_nodes]
      omega
    have hroot' : some root ≠ some (xs ++ below).length := by
      rw [ne_eq, Option.some.injEq, List.length_append]
      omega
    have hfirst := Ast.step_connect_last hroot' (tree.parent_top none) hp role hlast
    rw [hchild] at hfirst
    rw [← hsize] at hrest
    have hlast' : id = (xs ++ tree.nodes (some id)).length + rest.size + ys.length := by omega
    have htail := rest.run_connectSteps (p := p.over [⟨role, tree.head.id⟩]) hrest
      (Nat.lt_of_lt_of_le hroot (by omega)) hp hlast'
    simp only [Forest.nodes, Forest.edges, connectSteps, List.map_cons, hnodes, List.append_assoc,
      List.cons_append, List.nil_append, Tree.under_top, Node.over_over] at hfirst htail ⊢
    rw [Ast.run_cons hfirst, htail]

/-! ## Laying out -/

mutual
/-- Laying out a tree appends its nodes to the store. -/
theorem Tree.run_steps {root : Nat} : ∀ (t : Tree) {xs : List Node}, t.Numbered xs.length →
    root < xs.length →
    (Ast.mk xs.toArray (some root)).run t.steps =
      .ok ⟨(xs ++ t.nodes none).toArray, some root⟩
  | .node head children, xs, ⟨hchildren, hid⟩, hroot => by
    have hlast : head.id = xs.length + children.size + ([] : List Node).length := hid
    have hconnect := children.run_connectSteps (p := (Tree.node head .nil).top none) hchildren
      hroot rfl hlast
    have hlen : head.id = (xs ++ children.nodes none).length := by
      rw [List.length_append, Forest.length_nodes, hid]
    rw [Tree.steps, Ast.run_append (children.run_steps hchildren hroot),
      Ast.run_cons (Ast.step_allocate hlen), List.append_assoc]
    exact hconnect

/-- Laying out trees one after another appends their nodes to the store. -/
theorem Forest.run_steps {root : Nat} : ∀ (f : Forest) {xs : List Node}, f.Numbered xs.length →
    root < xs.length →
    (Ast.mk xs.toArray (some root)).run f.steps =
      .ok ⟨(xs ++ f.nodes none).toArray, some root⟩
  | .nil, xs, _, _ => by
    rw [Forest.nodes, List.append_nil]
    rfl
  | .cons _ tree rest, xs, ⟨htree, hrest⟩, hroot => by
    have hlen : (xs ++ tree.nodes none).length = xs.length + tree.size := by
      rw [List.length_append, Tree.length_nodes]
    rw [← hlen] at hrest
    have htail := rest.run_steps hrest (Nat.lt_of_lt_of_le hroot (by omega))
    rw [Forest.steps, Ast.run_append (tree.run_steps htree hroot), htail, Forest.nodes,
      List.append_assoc]
end

/-! ## Reading back -/

mutual
/-- A numbered tree is held at its numbers. -/
theorem Tree.Numbered.getElem?_nodes {parent : Option Nat} : ∀ {t : Tree} {xs ys : List Node},
    t.Numbered xs.length → ∀ n ∈ t.nodes parent, (xs ++ (t.nodes parent ++ ys))[n.id]? = some n
  | .node head children, xs, ys, ⟨hchildren, hid⟩, n, hn => by
    rw [Tree.nodes, List.mem_append] at hn
    rw [Tree.nodes, List.append_assoc]
    rcases hn with hn | hn
    · exact hchildren.getElem?_nodes n hn
    · rw [List.mem_singleton.1 hn]
      have hlen : ((Tree.node head children).top parent).id =
          (xs ++ children.nodes (some head.id)).length := by
        rw [List.length_append, Forest.length_nodes, ← hid]
        rfl
      rw [← List.append_assoc, hlen, List.getElem?_append_right (Nat.le_refl _), Nat.sub_self]
      rfl

/-- The same for children. -/
theorem Forest.Numbered.getElem?_nodes {parent : Option Nat} : ∀ {f : Forest} {xs ys : List Node},
    f.Numbered xs.length → ∀ n ∈ f.nodes parent, (xs ++ (f.nodes parent ++ ys))[n.id]? = some n
  | .cons _ tree rest, xs, ys, ⟨htree, hrest⟩, n, hn => by
    rw [Forest.nodes, List.mem_append] at hn
    rw [Forest.nodes, List.append_assoc]
    rcases hn with hn | hn
    · exact htree.getElem?_nodes n hn
    · have hlen : (xs ++ tree.nodes parent).length = xs.length + tree.size := by
        rw [List.length_append, Tree.length_nodes]
      rw [← hlen] at hrest
      rw [← List.append_assoc]
      exact hrest.getElem?_nodes n hn
end

mutual
/-- All nodes of a tree below a parent have one. -/
theorem Tree.isSome_parent {parent : Nat} :
    ∀ (t : Tree), ∀ n ∈ t.nodes (some parent), n.parent.isSome
  | .node head children, n, hn => by
    rw [Tree.nodes, List.mem_append] at hn
    rcases hn with hn | hn
    · exact children.isSome_parent n hn
    · rw [List.mem_singleton.1 hn]
      rfl

theorem Forest.isSome_parent {parent : Nat} :
    ∀ (f : Forest), ∀ n ∈ f.nodes (some parent), n.parent.isSome
  | .cons _ tree rest, n, hn => by
    rw [Forest.nodes, List.mem_append] at hn
    rcases hn with hn | hn
    · exact tree.isSome_parent n hn
    · exact rest.isSome_parent n hn
end

/-- A store is one tree if its root comes first and has one child, and no other
    node is initial or lacks a parent. -/
theorem Ast.validate_eq_ok {r : Node} {e : Edge} {xs : List Node} (hid : r.id = 0)
    (hkind : r.kind = .initial) (hchildren : r.children = [e])
    (hxs : ∀ n ∈ xs, n.kind ≠ .initial) (hparent : ∀ n ∈ xs, n.parent.isSome) :
    (Ast.mk (r :: xs).toArray (some 0)).validate = .ok () := by
  have hcount : xs.countP (fun n => n.kind = .initial) = 0 := by
    rw [List.countP_eq_zero]
    simpa using hxs
  have hfind : xs.find? (fun n => n.id != 0 && n.parent.isNone) = none := by
    rw [List.find?_eq_none]
    intro n hn
    have h := hparent n hn
    cases hn : n.parent with
    | none => simp [hn] at h
    | some _ => simp
  simp [validate, hcount, hfind, hkind, hchildren, hid, pure, Except.pure]

mutual
/-- A store that holds the nodes of a tree at their numbers has the tree below
    its top. -/
theorem Tree.below_eq {a : Ast} : ∀ (t : Tree) {parent : Option Nat} {depth : Nat},
    (∀ n ∈ t.nodes parent, a.nodes[n.id]? = some n) → t.size ≤ depth →
    a.below depth (t.top parent) = t
  | .node head children, parent, depth, hnodes, hdepth => by
    rw [Tree.nodes, List.forall_mem_append] at hnodes
    rw [Tree.size] at hdepth
    cases depth with
    | zero => omega
    | succ depth =>
      have h := children.below_eq hnodes.1 (Nat.le_of_succ_le_succ hdepth)
      rw [Ast.below]
      exact congrArg (Tree.node head) h

/-- The same for children. -/
theorem Forest.below_eq {a : Ast} : ∀ (f : Forest) {parent : Option Nat} {depth : Nat},
    (∀ n ∈ f.nodes parent, a.nodes[n.id]? = some n) → f.size ≤ depth →
    Forest.ofList (f.edges.filterMap fun e =>
      a.nodes[e.child]?.map fun c => (e.role, a.below depth c)) = f
  | .nil, _, _, _, _ => rfl
  | .cons role tree rest, parent, depth, hnodes, hdepth => by
    rw [Forest.nodes, List.forall_mem_append] at hnodes
    rw [Forest.size] at hdepth
    have htop : a.nodes[tree.head.id]? = some (tree.top parent) := by
      obtain ⟨below, hbelow, -⟩ := tree.exists_nodes_eq
      rw [← tree.id_top parent]
      exact hnodes.1 (tree.top parent) (by simp [hbelow])
    have htree := tree.below_eq hnodes.1 (Nat.le_trans (Nat.le_add_right _ _) hdepth)
    have hrest := rest.below_eq hnodes.2 (Nat.le_trans (Nat.le_add_left _ _) hdepth)
    simp only [Forest.edges, List.filterMap_cons, htop, Option.map_some, Forest.ofList, htree,
      hrest]
end

end Flowline
