/-
  The tree of a line.

  * `Expr.tree`, `Line.tree`: the tree of an expression and of a line, numbered
    bottom up;
  * `Tree.Fits`: every node has the payload and the children that its kind asks
    for, and the tree is an expression;
  * `Line.store`: the store of a line;
  * `Reading.tree_whole`: a whole reading is laid out as the store of its line;
  * `Line.validate_store`, `Line.tree?_store`, `Line.line?_store`: that store is
    one tree, the tree of the line below a root.
-/
import Flowline.Proofs.Store

namespace Flowline

/-! ## Trees of expressions -/

mutual
/-- The tree of an expression, numbered from `next`. -/
@[simp] def Expr.tree (next : Nat) : Expr → Tree
  | .int n => .node ⟨next, .number, "NUM_" ++ toString n.toInt, .int n⟩ .nil
  | .float x => .node ⟨next, .number, "NUM_" ++ Decimal.text x, .float x⟩ .nil
  | .str s => .node ⟨next, .str, "str_" ++ s, .str s⟩ .nil
  | .var name => .node ⟨next, .var, "VAR_" ++ name, .name name⟩ .nil
  | .call name args =>
    .node ⟨next + Expr.sizeAll args, .call, "FUN_" ++ name, .name name⟩ (Expr.operands next args)
  | .group e =>
    .node ⟨next + e.size, .group, "( )", .empty⟩ (.cons .operand (e.tree next) .nil)
  | .binary o l r =>
    .node ⟨next + l.size + r.size, .op o, o.label, .empty⟩
      (.cons .operand (l.tree next) (.cons .operand (r.tree (next + l.size)) .nil))
  | .ternary c t e | .ifElse c t e =>
    .node ⟨next + c.size + t.size + e.size, .cond, "IF", .empty⟩
      (.cons .condition (c.tree next) (.cons .expression (t.tree (next + c.size))
        (.cons .alternate (e.tree (next + c.size + t.size)) .nil)))
  | .ifThen c t =>
    .node ⟨next + c.size + t.size, .cond, "IF", .empty⟩
      (.cons .condition (c.tree next) (.cons .expression (t.tree (next + c.size)) .nil))

/-- The trees of the arguments of a call, numbered from `next`. -/
@[simp] def Expr.operands (next : Nat) : List Expr → Forest
  | [] => .nil
  | e :: es => .cons .operand (e.tree next) (Expr.operands (next + e.size) es)
end

/-- The tree of a line, numbered from `next`.  The value of an assignment is
    numbered before its target. -/
def Line.tree (next : Nat) : Line → Tree
  | expr e => e.tree next
  | assign name e =>
    .node ⟨next + e.size + 1, .assign, "=", .empty⟩
      (.cons .operand (.node ⟨next + e.size, .target, "VAR_" ++ name, .name name⟩ .nil)
        (.cons .operand (e.tree next) .nil))

mutual
theorem Expr.size_tree (next : Nat) : ∀ e : Expr, (e.tree next).size = e.size
  | .int _ | .float _ | .str _ | .var _ => rfl
  | .call _ args => by
    rw [Expr.tree, Tree.size, Expr.size_operands, Expr.size]
  | .group e => by
    rw [Expr.tree, Tree.size, Forest.size, Forest.size, Expr.size_tree, Expr.size]
  | .binary _ l r => by
    simp only [Expr.tree, Tree.size, Forest.size, Expr.size_tree _ l, Expr.size_tree _ r, Expr.size,
      Nat.add_zero]
  | .ternary c t e | .ifElse c t e => by
    simp only [Expr.tree, Tree.size, Forest.size, Expr.size_tree _ c, Expr.size_tree _ t,
      Expr.size_tree _ e, Expr.size]
    omega
  | .ifThen c t => by
    simp only [Expr.tree, Tree.size, Forest.size, Expr.size_tree _ c, Expr.size_tree _ t, Expr.size,
      Nat.add_zero]

theorem Expr.size_operands (next : Nat) : ∀ es : List Expr,
    (Expr.operands next es).size = Expr.sizeAll es
  | [] => rfl
  | e :: es => by
    rw [Expr.operands, Forest.size, Expr.size_tree, Expr.size_operands, Expr.sizeAll]
end

attribute [simp] Expr.size_tree Expr.size_operands

mutual
theorem Expr.numbered_tree (next : Nat) : ∀ e : Expr, (e.tree next).Numbered next
  | .int _ | .float _ | .str _ | .var _ => ⟨trivial, rfl⟩
  | .call _ args => ⟨Expr.numbered_operands next args, by rw [Expr.size_operands]⟩
  | .group e => ⟨⟨e.numbered_tree next, trivial⟩, by simp [Forest.size]⟩
  | .binary _ l r => by
    refine ⟨⟨l.numbered_tree next, ?_, trivial⟩, ?_⟩
    · rw [Expr.size_tree]
      exact r.numbered_tree _
    · simp only [Forest.size, Expr.size_tree]
      omega
  | .ternary c t e | .ifElse c t e => by
    refine ⟨⟨c.numbered_tree next, ?_, ?_, trivial⟩, ?_⟩
    · rw [Expr.size_tree]
      exact t.numbered_tree _
    · rw [Expr.size_tree, Expr.size_tree]
      exact e.numbered_tree _
    · simp only [Forest.size, Expr.size_tree]
      omega
  | .ifThen c t => by
    refine ⟨⟨c.numbered_tree next, ?_, trivial⟩, ?_⟩
    · rw [Expr.size_tree]
      exact t.numbered_tree _
    · simp only [Forest.size, Expr.size_tree]
      omega

theorem Expr.numbered_operands (next : Nat) : ∀ es : List Expr,
    (Expr.operands next es).Numbered next
  | [] => trivial
  | e :: es => by
    refine ⟨e.numbered_tree next, ?_⟩
    rw [Expr.size_tree]
    exact Expr.numbered_operands _ es
end

@[simp] theorem Expr.id_tree (next : Nat) (e : Expr) : (e.tree next).head.id = e.idFrom next := by
  have h := (e.numbered_tree next).id_add_one
  rw [Expr.size_tree] at h
  rw [Expr.idFrom]
  omega

@[simp] theorem Expr.edges_operands (next : Nat) (es : List Expr) :
    (Expr.operands next es).edges = (Expr.idsFrom next es).map (⟨.operand, ·⟩) := by
  induction es generalizing next with
  | nil => rfl
  | cons e es ih => rw [Expr.operands, Forest.edges, Expr.id_tree, ih, Expr.idsFrom, List.map_cons]

theorem nodeSteps_eq (id : Nat) (kind : NodeKind) (label : String) (value : Literal)
    (children : List (Role × Nat)) :
    nodeSteps id kind label value children =
      .allocate kind label value :: connectSteps id (children.map fun c => ⟨c.1, c.2⟩) := by
  simp [nodeSteps, connectSteps]

mutual
/-- An expression is laid out as its tree. -/
theorem Expr.steps_tree (next : Nat) : ∀ e : Expr, (e.tree next).steps = e.steps next
  | .int _ | .float _ | .str _ | .var _ => by
    rw [Expr.steps]
    rfl
  | .call _ args => by
    rw [Expr.steps, Expr.tree, Tree.steps, Expr.steps_operands, nodeSteps_eq, Expr.edges_operands,
      List.map_map]
    rfl
  | .group e => by
    rw [Expr.steps, Expr.tree, Tree.steps, nodeSteps_eq]
    simp [Forest.steps, Forest.edges, Expr.steps_tree _ e]
  | .binary _ l r => by
    rw [Expr.steps, Expr.tree, Tree.steps, nodeSteps_eq]
    simp [Forest.steps, Forest.edges, Expr.steps_tree _ l, Expr.steps_tree _ r]
  | .ternary c t e => by
    rw [Expr.steps, Expr.tree, Tree.steps, nodeSteps_eq]
    simp [Forest.steps, Forest.edges, Expr.steps_tree _ c, Expr.steps_tree _ t, Expr.steps_tree _ e]
  | .ifElse c t e => by
    rw [Expr.steps, Expr.tree, Tree.steps, nodeSteps_eq]
    simp [Forest.steps, Forest.edges, Expr.steps_tree _ c, Expr.steps_tree _ t, Expr.steps_tree _ e]
  | .ifThen c t => by
    rw [Expr.steps, Expr.tree, Tree.steps, nodeSteps_eq]
    simp [Forest.steps, Forest.edges, Expr.steps_tree _ c, Expr.steps_tree _ t]

theorem Expr.steps_operands (next : Nat) : ∀ es : List Expr,
    (Expr.operands next es).steps = Expr.stepsAll next es
  | [] => by
    rw [Expr.stepsAll]
    rfl
  | e :: es => by
    rw [Expr.operands, Forest.steps, Expr.steps_tree, Expr.steps_operands, Expr.stepsAll]
end

/-! ## Fitting nodes -/

/-- A node of an expression has the payload and the children that its kind asks
    for. -/
def Head.Fits (h : Head) (roles : List Role) : Prop :=
  match h.kind with
  | .initial | .assign | .target => False
  | .number => roles = [] ∧ ((∃ n, h.value = .int n) ∨ ∃ x, h.value = .float x)
  | .str => roles = [] ∧ ∃ s, h.value = .str s
  | .var => roles = [] ∧ ∃ name, h.value = .name name
  | .op _ => roles = [.operand, .operand]
  | .group => roles = [.operand]
  | .cond => roles = [.condition, .expression] ∨ roles = [.condition, .expression, .alternate]
  | .call => ∃ name, h.value = .name name

mutual
/-- The tree is an expression, and all its nodes fit. -/
def Tree.Fits : Tree → Prop
  | .node head children => head.Fits children.roles ∧ children.Fits

/-- The trees are expressions, and all their nodes fit. -/
def Forest.Fits : Forest → Prop
  | .nil => True
  | .cons _ tree rest => tree.Fits ∧ rest.Fits
end

mutual
/-- The tree of an expression fits. -/
theorem Expr.fits_tree (next : Nat) : ∀ e : Expr, (e.tree next).Fits
  | .int n => ⟨⟨rfl, .inl ⟨n, rfl⟩⟩, trivial⟩
  | .float x => ⟨⟨rfl, .inr ⟨x, rfl⟩⟩, trivial⟩
  | .str s => ⟨⟨rfl, s, rfl⟩, trivial⟩
  | .var name => ⟨⟨rfl, name, rfl⟩, trivial⟩
  | .call name args => ⟨⟨name, rfl⟩, Expr.fits_operands next args⟩
  | .group e => ⟨rfl, e.fits_tree next, trivial⟩
  | .binary _ l r => ⟨rfl, l.fits_tree next, r.fits_tree _, trivial⟩
  | .ternary c t e | .ifElse c t e =>
    ⟨.inr rfl, c.fits_tree next, t.fits_tree _, e.fits_tree _, trivial⟩
  | .ifThen c t => ⟨.inl rfl, c.fits_tree next, t.fits_tree _, trivial⟩

theorem Expr.fits_operands (next : Nat) : ∀ es : List Expr, (Expr.operands next es).Fits
  | [] => trivial
  | e :: es => ⟨e.fits_tree next, Expr.fits_operands _ es⟩
end

theorem Head.Fits.kind_ne_initial {h : Head} {roles : List Role} (hf : h.Fits roles) :
    h.kind ≠ .initial := by
  intro hk
  rw [Head.Fits, hk] at hf
  exact hf

mutual
theorem Tree.Fits.kind_ne_initial {parent : Option Nat} :
    ∀ {t : Tree}, t.Fits → ∀ n ∈ t.nodes parent, n.kind ≠ .initial
  | .node head children, ⟨hhead, hchildren⟩, n, hn => by
    rw [Tree.nodes, List.mem_append] at hn
    rcases hn with hn | hn
    · exact hchildren.kind_ne_initial n hn
    · rw [List.mem_singleton.1 hn]
      exact hhead.kind_ne_initial

theorem Forest.Fits.kind_ne_initial {parent : Option Nat} :
    ∀ {f : Forest}, f.Fits → ∀ n ∈ f.nodes parent, n.kind ≠ .initial
  | .cons _ tree rest, ⟨htree, hrest⟩, n, hn => by
    rw [Forest.nodes, List.mem_append] at hn
    rcases hn with hn | hn
    · exact htree.kind_ne_initial n hn
    · exact hrest.kind_ne_initial n hn
end

/-! ## Stores of lines -/

/-- The tree of an assignment's target. -/
def targetTree (id : Nat) (name : String) : Tree :=
  .node ⟨id, .target, "VAR_" ++ name, .name name⟩ .nil

/-- The nodes of a line in the order of their numbers. -/
def Line.nodes (next : Nat) (parent : Option Nat) : Line → List Node
  | expr e => (e.tree next).nodes parent
  | assign name e =>
    (e.tree next).nodes (some (next + e.size + 1)) ++
      [(targetTree (next + e.size) name).top (some (next + e.size + 1)),
        ((assign name e).tree next).top parent]

/-- The root above a line. -/
def Line.rooted (l : Line) : Tree :=
  .node ⟨0, .initial, "INIT", .empty⟩ (.cons .operand (l.tree 1) .nil)

/-- The store of a line. -/
def Line.store (l : Line) : Ast :=
  { nodes := (l.rooted.top none :: l.nodes 1 (some 0)).toArray, root := some 0 }

theorem Line.exists_nodes_eq (next : Nat) (l : Line) :
    ∃ below, (∀ p, l.nodes next p = below ++ [(l.tree next).top p]) ∧
      below.length + 1 = l.size := by
  cases l with
  | expr e =>
    obtain ⟨below, h, hlen⟩ := (e.tree next).exists_nodes_eq
    exact ⟨below, h, by rw [hlen, Expr.size_tree, Line.size]⟩
  | assign name e =>
    refine ⟨(e.tree next).nodes (some (next + e.size + 1)) ++
      [(targetTree (next + e.size) name).top (some (next + e.size + 1))], fun p => ?_, ?_⟩
    · rw [Line.nodes, List.append_assoc]
      rfl
    · simp [Line.size]

theorem Line.id_tree (l : Line) : (l.tree 1).head.id = l.size := by
  cases l with
  | expr e =>
    rw [Line.tree, Expr.id_tree, Expr.idFrom, Line.size]
    omega
  | assign name e =>
    show 1 + e.size + 1 = e.size + 2
    omega

/-- Laying out an assignment appends its nodes to the store. -/
theorem run_assign_steps {root : Nat} {xs : List Node} (name : String) (e : Expr)
    (hroot : root < xs.length) :
    (Ast.mk xs.toArray (some root)).run ((Line.assign name e).steps xs.length) =
      .ok ⟨(xs ++ (Line.assign name e).nodes xs.length none).toArray, some root⟩ := by
  let v := e.tree xs.length
  let t := targetTree (xs.length + e.size) name
  let head : Head := ⟨xs.length + e.size + 1, .assign, "=", .empty⟩
  have hsteps : (Line.assign name e).steps xs.length =
      v.steps ++ (t.steps ++ .allocate head.kind head.label head.value ::
        (connectSteps head.id (Forest.cons .operand t .nil).edges ++
          connectSteps head.id (Forest.cons .operand v .nil).edges)) := by
    simp [Line.steps, nodeSteps_eq, Forest.edges, v, Expr.steps_tree]
    rfl
  have hv : v.Numbered xs.length := e.numbered_tree _
  have hlen : (xs ++ v.nodes none).length = xs.length + e.size := by
    rw [List.length_append, Tree.length_nodes, Expr.size_tree]
  have ht : (Forest.cons .operand t .nil).Numbered (xs ++ v.nodes none).length :=
    ⟨⟨trivial, hlen.symm⟩, trivial⟩
  have hroot' : root < (xs ++ v.nodes none).length := by omega
  have hlen' : head.id = (xs ++ v.nodes none ++ t.nodes none).length := by
    rw [List.length_append, hlen]
    rfl
  have hlast : head.id =
      (xs ++ v.nodes none).length + (Forest.cons .operand t .nil).size +
        ([] : List Node).length := by
    rw [hlen]
    rfl
  have hlast' : head.id =
      xs.length + (Forest.cons .operand v .nil).size + (t.nodes (some head.id)).length := by
    rw [Tree.length_nodes, Forest.size, Forest.size, Expr.size_tree]
    rfl
  -- the target is connected first, though the value stands before it
  have htarget := (Forest.cons .operand t .nil).run_connectSteps
    (p := (Tree.node head .nil).top none) ht hroot' rfl hlast
  have hvalue := (Forest.cons .operand v .nil).run_connectSteps
    (p := ((Tree.node head .nil).top none).over (Forest.cons .operand t .nil).edges)
    ⟨hv, trivial⟩ hroot rfl hlast'
  simp only [Forest.nodes, List.append_nil, List.nil_append, List.append_assoc] at htarget hvalue
  rw [hsteps, Ast.run_append (v.run_steps hv hroot), Ast.run_append (t.run_steps ht.1 hroot'),
    Ast.run_cons (Ast.step_allocate hlen'), List.append_assoc, List.append_assoc,
    Ast.run_append htarget, hvalue]
  rfl

/-- Laying out a line appends its nodes to the store. -/
theorem Line.run_steps {root : Nat} {xs : List Node} (l : Line) (hroot : root < xs.length) :
    (Ast.mk xs.toArray (some root)).run (l.steps xs.length) =
      .ok ⟨(xs ++ l.nodes xs.length none).toArray, some root⟩ := by
  cases l with
  | expr e =>
    rw [Line.steps, ← Expr.steps_tree]
    exact (e.tree xs.length).run_steps (e.numbered_tree _) hroot
  | assign name e => exact run_assign_steps name e hroot

/-- A whole reading is laid out as the store of its line. -/
theorem Reading.tree_whole (ts : List Token) (l : Line) :
    (Reading.whole l).tree ts = .ok l.store := by
  let r := (Tree.node ⟨0, .initial, "INIT", .empty⟩ .nil).top none
  obtain ⟨below, hnodes, hlen⟩ := l.exists_nodes_eq 1
  have hroot : Ast.empty.step rootStep = .ok ⟨[r].toArray, some 0⟩ := rfl
  have hline : (Ast.mk [r].toArray (some 0)).run (l.steps 1) =
      .ok ⟨(r :: l.nodes 1 none).toArray, some 0⟩ := l.run_steps Nat.zero_lt_one
  have hconnect : (Ast.mk (r :: (below ++ [(l.tree 1).top none])).toArray (some 0)).step
      (.connect 0 (below.length + 1) .operand) = _ :=
    Ast.step_connect_root ((l.tree 1).parent_top none) rfl .operand
  have htop : r.over [⟨.operand, l.size⟩] = l.rooted.top none := by
    rw [← l.id_tree]
    rfl
  have hbuild : Ast.build (Reading.whole l).steps = .ok l.store := by
    rw [Reading.steps, Ast.build, List.cons_append, Ast.run_cons hroot, Ast.run_append hline]
    rw [hlen, Tree.under_top, htop] at hconnect
    rw [hnodes, Ast.run_cons hconnect, Line.store, hnodes]
    rfl
  rw [Reading.tree, Reading.error?, hbuild]
  rfl

theorem getElem?_append_length {α : Type} {xs ys : List α} {a : α} {i : Nat} (hi : xs.length = i) :
    (xs ++ a :: ys)[i]? = some a := by
  subst hi
  simp

theorem Line.getElem?_store_tree (l : Line) :
    ∀ n ∈ (l.tree 1).nodes (some 0), l.store.nodes[n.id]? = some n := by
  intro n hn
  rw [Line.store, List.getElem?_toArray]
  cases l with
  | expr e =>
    have hnum : (e.tree 1).Numbered [(Line.expr e).rooted.top none].length := e.numbered_tree 1
    rw [Line.nodes, ← List.append_nil ((e.tree 1).nodes (some 0))]
    exact hnum.getElem?_nodes n hn
  | assign name e =>
    let r := (Line.assign name e).rooted.top none
    let vs := (e.tree 1).nodes (some (1 + e.size + 1))
    let t := (targetTree (1 + e.size) name).top (some (1 + e.size + 1))
    have hnum : (e.tree 1).Numbered [r].length := e.numbered_tree 1
    have hlen : ([r] ++ vs).length = 1 + e.size := by
      rw [List.length_append, Tree.length_nodes, Expr.size_tree]
      rfl
    have hlen' : ([r] ++ (vs ++ [t])).length = 1 + e.size + 1 := by
      rw [← List.append_assoc, List.length_append, hlen]
      rfl
    simp only [Line.tree, Tree.nodes, Forest.nodes, List.append_nil, List.nil_append,
      List.mem_append, List.mem_singleton] at hn
    rcases hn with (rfl | hn) | rfl
    · exact getElem?_append_length hlen
    · exact hnum.getElem?_nodes n hn
    · have hsplit : r :: (Line.assign name e).nodes 1 (some 0) =
          ([r] ++ (vs ++ [t])) ++ [((Line.assign name e).tree 1).top (some 0)] := by
        rw [List.append_assoc, List.append_assoc]
        rfl
      show (r :: (Line.assign name e).nodes 1 (some 0))[1 + e.size + 1]? = _
      rw [hsplit]
      exact getElem?_append_length hlen'

/-- The store of a line holds the nodes of its tree at their numbers. -/
theorem Line.getElem?_store (l : Line) :
    ∀ n ∈ l.rooted.nodes none, l.store.nodes[n.id]? = some n := by
  intro n hn
  simp only [Line.rooted, Tree.nodes, Forest.nodes, List.append_nil, List.mem_append,
    List.mem_singleton] at hn
  rcases hn with hn | rfl
  · exact l.getElem?_store_tree n hn
  · rfl

theorem Line.kind_ne_initial (l : Line) (next : Nat) (parent : Option Nat) :
    ∀ n ∈ l.nodes next parent, n.kind ≠ .initial := by
  intro n hn
  cases l with
  | expr e => exact (e.fits_tree next).kind_ne_initial n hn
  | assign name e =>
    rw [Line.nodes, List.mem_append] at hn
    rcases hn with hn | hn
    · exact (e.fits_tree next).kind_ne_initial n hn
    · simp only [List.mem_cons, List.not_mem_nil, or_false] at hn
      rcases hn with rfl | rfl <;> simp [targetTree, Tree.top, Line.tree]

theorem Line.isSome_parent (l : Line) (next parent : Nat) :
    ∀ n ∈ l.nodes next (some parent), n.parent.isSome := by
  intro n hn
  cases l with
  | expr e => exact (e.tree next).isSome_parent n hn
  | assign name e =>
    rw [Line.nodes, List.mem_append] at hn
    rcases hn with hn | hn
    · exact (e.tree next).isSome_parent n hn
    · simp only [List.mem_cons, List.not_mem_nil, or_false] at hn
      rcases hn with rfl | rfl <;> rfl

/-- The store of a line is one tree. -/
theorem Line.validate_store (l : Line) : l.store.validate = .ok () :=
  Ast.validate_eq_ok rfl rfl rfl (l.kind_ne_initial 1 _) (l.isSome_parent 1 0)

theorem Line.size_tree (next : Nat) (l : Line) : (l.tree next).size = l.size := by
  cases l with
  | expr e => exact e.size_tree next
  | assign name e =>
    simp only [Line.tree, Tree.size, Forest.size, Expr.size_tree, Line.size]
    omega

theorem Line.size_store (l : Line) : l.store.size = l.size + 1 := by
  obtain ⟨below, hnodes, hlen⟩ := l.exists_nodes_eq 1
  simp [Line.store, Ast.size, hnodes, hlen]

/-- The tree of the store of a line is the tree of the line, below a root. -/
theorem Line.tree?_store (l : Line) : l.store.tree? = some l.rooted := by
  have hsize : l.rooted.size = l.store.size := by
    rw [Line.size_store, Line.rooted, Tree.size, Forest.size, Line.size_tree, Forest.size,
      Nat.add_zero]
  exact congrArg some (l.rooted.below_eq l.getElem?_store (Nat.le_of_eq hsize))

/-- The tree of a line: what is below the root of a store. -/
def Ast.line? (a : Ast) : Option Tree := do
  let n ← a.nodes[← a.top]?
  return a.below a.size n

/-- What is below the root of the store of a line is the tree of the line. -/
theorem Line.line?_store (l : Line) : l.store.line? = some (l.tree 1) := by
  have htop : l.store.top = some (l.tree 1).head.id := rfl
  obtain ⟨below, hbelow, -⟩ := (l.tree 1).exists_nodes_eq
  have hnode := l.getElem?_store_tree ((l.tree 1).top (some 0)) (by simp [hbelow])
  have hsize : (l.tree 1).size ≤ l.store.size := by
    rw [Line.size_store, Line.size_tree]
    omega
  have h := (l.tree 1).below_eq l.getElem?_store_tree hsize
  rw [Tree.id_top] at hnode
  rw [Ast.line?, htop, Option.bind_eq_bind, Option.bind_some, hnode, Option.bind_eq_bind,
    Option.bind_some, h]
  rfl

end Flowline
