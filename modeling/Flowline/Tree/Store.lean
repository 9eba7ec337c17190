/-
  Stores of nodes.

  A store hands out numbers to nodes in the order of their allocation, and
  connects nodes that it holds.  A node takes at most one parent, the root
  takes none, and an edge that would close a cycle is refused; so the nodes
  below any node form a tree.

  * `Ast.allocate`, `Ast.connect`: the two ways in which a store grows;
  * `Ast.validate`: whether the whole store is one tree under its root;
  * `StoreFault`: why an operation is refused;
  * `Step`, `Ast.build`: a store from a record of its operations.
-/
import Flowline.Tree.Node
import Flowline.Error

namespace Flowline

/-! ## Faults -/

/-- Why a store refuses an operation, or is not one tree. -/
inductive StoreFault where
  | noNode (id : Nat)
  | ownChild (id : Nat)
  | rootAsChild (id : Nat)
  | hasParent (child parent : Nat)
  | cycle (parent child : Nat)
  | noInitial
  | severalInitial (count : Nat)
  | rootArity (count : Nat)
  | detached (id : Nat) (label : String)
  deriving DecidableEq

/-- The message of a fault. -/
def StoreFault.message : StoreFault → String
  | noNode id => s!"no node #{id} in this tree"
  | ownChild id => s!"node #{id} cannot be its own child"
  | rootAsChild id => s!"root #{id} cannot have a parent"
  | hasParent child parent => s!"node #{child} already has parent #{parent}"
  | cycle parent child => s!"edge #{parent} -> #{child} would create a cycle"
  | noInitial => "tree has no INITIAL node"
  | severalInitial count => s!"tree has {count} INITIAL nodes"
  | rootArity count => s!"INITIAL node has {count} children, expected 1"
  | detached id label => s!"node #{id} ({label}) is not attached"

/-- A fault as an error. -/
def StoreFault.toError (f : StoreFault) : Error :=
  { kind := .internal, message := f.message }

/-! ## Stores -/

/-- A store of nodes. -/
structure Ast where
  nodes : Array Node
  /-- The first initial node. -/
  root : Option Nat

namespace Ast

/-- The store without nodes. -/
def empty : Ast :=
  { nodes := #[], root := none }

/-- The number of nodes. -/
def size (t : Ast) : Nat :=
  t.nodes.size

/-- The node with the given number. -/
def node (t : Ast) (id : Nat) : Except StoreFault Node :=
  match t.nodes[id]? with
  | some n => .ok n
  | none => .error (.noNode id)

/-- The parent of a node, if the store holds the node and it has one. -/
def parent? (t : Ast) (id : Nat) : Option Nat :=
  t.nodes[id]?.bind Node.parent

/-- The node below the root: the line. -/
def top (t : Ast) : Option Nat := do
  let n ← t.nodes[← t.root]?
  let e ← n.children.head?
  return e.child

/-- Add a node under the next number.  The first initial node becomes the
    root. -/
def allocate (t : Ast) (kind : NodeKind) (label : String) (value : Literal) : Ast :=
  let id := t.nodes.size
  { nodes := t.nodes.push { id, kind, label, value, parent := none, children := [] }
    root := t.root.or (if kind = .initial then some id else none) }

/-- Whether `goal` is met on the way up from `id`, within a number of steps. -/
def climbsTo (t : Ast) (goal : Nat) : Nat → Nat → Bool
  | 0, _ => false
  | n + 1, id =>
    id == goal ||
      match t.parent? id with
      | some p => t.climbsTo goal n p
      | none => false

/-- Record an edge, after its admission. -/
def link (t : Ast) (parent child : Nat) (role : Role) : Ast :=
  { t with
    nodes := (t.nodes.modify child fun n => { n with parent := some parent }).modify parent
      fun n => { n with children := n.children ++ [{ role, child }] } }

/-- Connect a node to its parent. -/
def connect (t : Ast) (parent child : Nat) (role : Role) : Except StoreFault Ast := do
  let _ ← t.node parent
  let target ← t.node child
  if parent = child then throw (.ownChild child)
  if t.root = some child then throw (.rootAsChild child)
  if let some p := target.parent then throw (.hasParent child p)
  if t.climbsTo child t.size parent then throw (.cycle parent child)
  return t.link parent child role

/-- Check that the store is one tree: a single initial node with a single
    child, and a parent for every other node. -/
def validate (t : Ast) : Except StoreFault Unit := do
  let some root := t.root | throw .noInitial
  let initials := t.nodes.countP (·.kind = .initial)
  if initials ≠ 1 then throw (.severalInitial initials)
  let arity := (t.nodes[root]?.map (·.children.length)).getD 0
  if arity ≠ 1 then throw (.rootArity arity)
  if let some n := t.nodes.find? fun n => n.id != root && n.parent.isNone then
    throw (.detached n.id n.label)

end Ast

/-! ## Records of operations -/

/-- An operation on a store. -/
inductive Step where
  | allocate (kind : NodeKind) (label : String) (value : Literal)
  | connect (parent child : Nat) (role : Role)

/-- Carry out one operation. -/
def Ast.step (t : Ast) : Step → Except StoreFault Ast
  | .allocate kind label value => .ok (t.allocate kind label value)
  | .connect parent child role => t.connect parent child role

/-- Carry out operations in order, up to the first that is refused. -/
def Ast.run (t : Ast) (steps : List Step) : Except StoreFault Ast :=
  steps.foldlM Ast.step t

/-- The store that a record of operations leads to. -/
def Ast.build (steps : List Step) : Except StoreFault Ast :=
  Ast.empty.run steps

end Flowline
