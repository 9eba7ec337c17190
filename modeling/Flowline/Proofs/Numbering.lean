/-
  The numbers of the nodes of a line.

  A line is laid out bottom up, so the nodes below a node stand right before
  it.  The tree of an assignment is no exception, though its target is numbered
  after its value and connected before it.

  * `Tree.visits_of_held`: a store that holds the nodes of a tree is walked along
    it;
  * `Tree.Numbered.mem_ids_iff`: the numbers of a numbered tree are consecutive;
  * `Ast.Spans`: the nodes below a node are those from a number up to its own;
  * `Tree.Numbered.exists_spans`, `Line.exists_spans_store`: so for all nodes of
    a tree, and of a line;
  * `numbering_of_parseTokens_eq_ok`: the numbers in a store that tokens are laid
    out in.
-/
import Flowline.Proofs.Traversal
import Flowline.Proofs.Parsing
import Mathlib

namespace Flowline

open Relation

/-! ## Walks along trees -/

mutual
/-- A store that holds the nodes of a tree at their numbers is walked along
    it. -/
theorem Tree.visits_of_held {a : Ast} : ∀ (t : Tree) {parent : Option Nat},
    (∀ n ∈ t.nodes parent, a.nodes[n.id]? = some n) → a.Visits t.head.id t.ids
  | .node head children, parent, h => by
    rw [Tree.nodes, List.forall_mem_append] at h
    exact .node (h.2 _ (List.mem_singleton_self _)) (children.visitsAll_of_held h.1)

/-- The same for children. -/
theorem Forest.visitsAll_of_held {a : Ast} : ∀ (f : Forest) {parent : Option Nat},
    (∀ n ∈ f.nodes parent, a.nodes[n.id]? = some n) → a.VisitsAll (f.edges.map Edge.child) f.ids
  | .nil, _, _ => .nil
  | .cons role tree rest, parent, h => by
    rw [Forest.nodes, List.forall_mem_append] at h
    rw [Forest.edges, List.map_cons, Forest.ids, Forest.heads, List.map_append]
    exact .cons (tree.visits_of_held h.1) (rest.visitsAll_of_held h.2)
end

theorem Tree.mem_ids_node {head : Head} {children : Forest} {j : Nat} :
    j ∈ (Tree.node head children).ids ↔ j = head.id ∨ j ∈ children.ids :=
  List.mem_cons

theorem Forest.mem_ids_cons {role : Role} {tree : Tree} {rest : Forest} {j : Nat} :
    j ∈ (Forest.cons role tree rest).ids ↔ j ∈ tree.ids ∨ j ∈ rest.ids := by
  rw [Forest.ids, Forest.heads, List.map_append, List.mem_append]
  rfl

mutual
/-- The numbers of a numbered tree are consecutive. -/
theorem Tree.Numbered.mem_ids_iff {j : Nat} : ∀ {next : Nat} {t : Tree}, t.Numbered next →
    (j ∈ t.ids ↔ next ≤ j ∧ j < next + t.size)
  | next, .node head children, ⟨hchildren, hid⟩ => by
    rw [Tree.mem_ids_node, hchildren.mem_ids_iff, Tree.size, hid]
    omega

/-- The same for children. -/
theorem Forest.Numbered.mem_ids_iff {j : Nat} : ∀ {next : Nat} {f : Forest}, f.Numbered next →
    (j ∈ f.ids ↔ next ≤ j ∧ j < next + f.size)
  | next, .nil, _ => by
    simp only [Forest.ids, Forest.heads, List.map_nil, List.not_mem_nil, Forest.size, false_iff]
    omega
  | next, .cons _ tree rest, ⟨htree, hrest⟩ => by
    rw [Forest.mem_ids_cons, htree.mem_ids_iff, hrest.mem_ids_iff, Forest.size]
    omega
end

/-! ## Spans -/

/-- The nodes below a node, itself among them, are those from `lo` up to it. -/
def Ast.Spans (a : Ast) (lo i : Nat) : Prop :=
  ∀ j, ReflTransGen a.Down i j ↔ lo ≤ j ∧ j ≤ i

/-- A node comes right after the nodes below it. -/
theorem Ast.Visits.spans {a : Ast} {lo : Nat} {head : Head} {children : Forest}
    (h : a.Visits head.id (Tree.node head children).ids) (hlo : lo ≤ head.id)
    (hids : ∀ j, j ∈ children.ids ↔ lo ≤ j ∧ j < head.id) : a.Spans lo head.id := by
  intro j
  rw [← h.mem_iff, Tree.mem_ids_node, hids]
  omega

mutual
/-- Every node of a numbered tree spans an interval. -/
theorem Tree.Numbered.exists_spans {a : Ast} {parent : Option Nat} {i : Nat} :
    ∀ {next : Nat} {t : Tree}, t.Numbered next →
      (∀ n ∈ t.nodes parent, a.nodes[n.id]? = some n) → next ≤ i → i < next + t.size →
      ∃ lo, next ≤ lo ∧ lo ≤ i ∧ a.Spans lo i
  | next, .node head children, ⟨hchildren, hid⟩, hheld, hlo, hhi => by
    by_cases hi : i = head.id
    · subst hi
      have hvisits := (Tree.node head children).visits_of_held hheld
      refine ⟨next, Nat.le_refl _, hlo, hvisits.spans hlo fun j => ?_⟩
      rw [hchildren.mem_ids_iff, Tree.head, hid]
    · rw [Tree.nodes, List.forall_mem_append] at hheld
      rw [Tree.size] at hhi
      exact hchildren.exists_spans hheld.1 hlo (by omega)

/-- The same for children. -/
theorem Forest.Numbered.exists_spans {a : Ast} {parent : Option Nat} {i : Nat} :
    ∀ {next : Nat} {f : Forest}, f.Numbered next →
      (∀ n ∈ f.nodes parent, a.nodes[n.id]? = some n) → next ≤ i → i < next + f.size →
      ∃ lo, next ≤ lo ∧ lo ≤ i ∧ a.Spans lo i
  | next, .nil, _, _, hlo, hhi => by
    rw [Forest.size] at hhi
    omega
  | next, .cons _ tree rest, ⟨htree, hrest⟩, hheld, hlo, hhi => by
    rw [Forest.nodes, List.forall_mem_append] at hheld
    rw [Forest.size] at hhi
    by_cases hi : i < next + tree.size
    · exact htree.exists_spans hheld.1 hlo hi
    · obtain ⟨lo, hnext, hspans⟩ := hrest.exists_spans (i := i) hheld.2 (by omega) (by omega)
      exact ⟨lo, by omega, hspans⟩
end

/-! ## Lines -/

theorem Ast.Linked.run {t t' : Ast} {steps : List Step} (h : t.Linked)
    (hrun : t.run steps = .ok t') : t'.Linked := by
  induction steps generalizing t with
  | nil =>
    cases hrun
    exact h
  | cons s steps ih =>
    cases hs : t.step s with
    | error f =>
      rw [Ast.run, List.foldlM_cons, hs] at hrun
      cases hrun
    | ok u =>
      rw [Ast.run_cons hs] at hrun
      exact ih (Ast.attempt_of_ok hs ▸ h.attempt s) hrun

/-- The parents and the children in the store of a line agree. -/
theorem Line.linked_store (l : Line) : l.store.Linked := by
  have h : (Ast.build (Reading.whole l).steps).mapError StoreFault.toError = .ok l.store :=
    Reading.tree_whole [] l
  cases hbuild : Ast.build (Reading.whole l).steps with
  | error f =>
    rw [hbuild] at h
    cases h
  | ok a =>
    rw [hbuild] at h
    cases h
    exact Ast.Linked.empty.run hbuild

theorem Line.tree_assign (next : Nat) (name : String) (e : Expr) :
    (Line.assign name e).tree next = .node ⟨next + e.size + 1, .assign, "=", .empty⟩
      (.cons .operand (targetTree (next + e.size) name) (.cons .operand (e.tree next) .nil)) :=
  rfl

/-- Every node of a line spans an interval. -/
theorem Line.exists_spans_store (l : Line) {i : Nat} (hi : 0 < i) (hsize : i < l.store.size) :
    ∃ lo, 0 < lo ∧ lo ≤ i ∧ l.store.Spans lo i := by
  have hheld := l.getElem?_store_tree
  have hvisits := (l.tree 1).visits_of_held hheld
  rw [l.size_store] at hsize
  cases l with
  | expr e =>
    rw [Line.size] at hsize
    refine (e.numbered_tree 1).exists_spans hheld hi ?_
    rw [Expr.size_tree]
    omega
  | assign name e =>
    have hvalue : (e.tree 1).Numbered 1 := e.numbered_tree 1
    have htarget : (targetTree (1 + e.size) name).Numbered (1 + e.size) := ⟨trivial, rfl⟩
    rw [Line.size] at hsize
    rw [Line.tree_assign] at hvisits
    rw [Line.tree_assign, Tree.nodes, Forest.nodes, Forest.nodes, Forest.nodes, List.append_nil,
      List.forall_mem_append, List.forall_mem_append] at hheld
    -- the value takes the numbers up to its size, and the target the next one
    rcases Nat.lt_trichotomy i (1 + e.size) with hlt | rfl | hgt
    · exact hvalue.exists_spans hheld.1.2 hi (by rwa [Expr.size_tree])
    · obtain ⟨lo, hlo, hspans⟩ :=
        htarget.exists_spans hheld.1.1 (Nat.le_refl _) (Nat.lt_succ_self _)
      exact ⟨lo, by omega, hspans⟩
    · obtain rfl : i = 1 + e.size + 1 := by omega
      refine ⟨1, Nat.one_pos, hi, hvisits.spans hi fun j => ?_⟩
      have hnil : j ∉ Forest.nil.ids := List.not_mem_nil
      rw [Forest.mem_ids_cons, Forest.mem_ids_cons, htarget.mem_ids_iff, hvalue.mem_ids_iff,
        Expr.size_tree, Tree.head]
      simp only [targetTree, Tree.size, Forest.size, hnil, or_false]
      omega

theorem Line.childrenOf_store_zero (l : Line) : l.store.childrenOf 0 = [l.store.size - 1] := by
  rw [l.size_store, Nat.add_sub_cancel, ← l.id_tree]
  rfl

/-- **The numbers of the nodes of a line.**  What tokens are laid out as is one
    tree.  Its first node is the root and the only initial node, and the last
    one is the only child of the root.  Every other node comes after its
    children, and the nodes below it have consecutive numbers, the last of which
    is its own. -/
theorem numbering_of_parseTokens_eq_ok {ts : List Token} {a : Ast} (h : parseTokens ts = .ok a) :
    a.validate = .ok () ∧ a.root = some 0 ∧
    (∀ i : Nat, a.nodes[i]?.map (·.kind) = some .initial ↔ i = 0) ∧
    (∀ (i : Nat) n, a.nodes[i]? = some n → n.id = i) ∧
    a.childrenOf 0 = [a.size - 1] ∧
    (∀ p c, p ≠ 0 → a.Down p c → c < p) ∧
    ∀ i, i ≠ 0 → i < a.size →
      ∃ lo, 0 < lo ∧ lo ≤ i ∧ ∀ j, ReflTransGen a.Down i j ↔ lo ≤ j ∧ j ≤ i := by
  obtain ⟨d, -, -, rfl⟩ := parseTokens_eq_ok_iff.1 h
  generalize d.meaning = l
  have hlinked := l.linked_store
  obtain ⟨r, hr⟩ := hlinked.validate_eq_ok_iff.1 l.validate_store
  obtain rfl : 0 = r := Option.some.inj hr.root
  have hspans (i : Nat) (hi : i ≠ 0) (hsize : i < l.store.size) :=
    l.exists_spans_store (Nat.pos_of_ne_zero hi) hsize
  refine ⟨l.validate_store, rfl, hr.initial, fun i n hn => hlinked.id_eq hn,
    l.childrenOf_store_zero, fun p c hp hdown => ?_, hspans⟩
  obtain ⟨lo, -, -, hbelow⟩ := hspans p hp (Ast.lt_size_of_mem_childrenOf hdown)
  have hle : c ≤ p := ((hbelow c).1 (.single hdown)).2
  refine Nat.lt_of_le_of_ne hle ?_
  rintro rfl
  exact hlinked.acyclic c (.single (hlinked.down_iff.1 hdown))

/-- The target of an assignment is numbered after its value. -/
theorem numbering_of_parseTokens_eq_ok_assign :
    let ts := (lex "x = 1 + f(2)").tokens
    let l : Line := .assign "x" (.binary (.arith .plus) (.int 1) (.call "f" [.int 2]))
    let a := l.store
    parseTokens ts = .ok a ∧ a.size = 7 ∧
    a.validate = .ok () ∧ a.root = some 0 ∧
    (∀ i : Nat, a.nodes[i]?.map (·.kind) = some .initial ↔ i = 0) ∧
    (∀ (i : Nat) n, a.nodes[i]? = some n → n.id = i) ∧
    a.childrenOf 0 = [a.size - 1] ∧
    (∀ p c, p ≠ 0 → a.Down p c → c < p) ∧
    ∀ i, i ≠ 0 → i < a.size →
      ∃ lo, 0 < lo ∧ lo ≤ i ∧ ∀ j, ReflTransGen a.Down i j ↔ lo ≤ j ∧ j ≤ i := by
  intro ts l a
  have hread : read ts = .whole l := by
    simp only [ts, l]
    cbv
  have hts : parseTokens ts = .ok a := by
    rw [parseTokens, hread]
    exact Reading.tree_whole ts l
  exact ⟨hts, rfl, numbering_of_parseTokens_eq_ok hts⟩

end Flowline
