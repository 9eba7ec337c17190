/-
  Trees as such, and their outlines.

  A store holds its nodes side by side; a `Tree` holds the nodes below a node
  as one value, which is what an outline is written from and what evaluation
  walks.

  * `Tree`, `Forest`: a node with its children, and children with their roles;
  * `Ast.tree?`: the tree under the root of a store;
  * `Ast.outline`: one line per node, children indented below their parent.
-/
import Flowline.Tree.Store

namespace Flowline

/-! ## Trees -/

mutual
/-- A node and what is below it. -/
inductive Tree where
  | node (head : Head) (children : Forest)

/-- The children of a node in order, with their roles. -/
inductive Forest where
  | nil
  | cons (role : Role) (tree : Tree) (rest : Forest)
end

/-- The roles of the children in order. -/
def Forest.roles : Forest → List Role
  | nil => []
  | cons role _ rest => role :: rest.roles

/-- Children from a list. -/
def Forest.ofList : List (Role × Tree) → Forest
  | [] => nil
  | (role, tree) :: rest => cons role tree (ofList rest)

/-- The tree below a node of a store, down to a depth. -/
def Ast.below (t : Ast) : Nat → Node → Tree
  | 0, n => .node n.toHead .nil
  | d + 1, n =>
    .node n.toHead <| .ofList <| n.children.filterMap fun e =>
      t.nodes[e.child]?.map fun c => (e.role, t.below d c)

/-- The tree under the root.  No path is longer than the number of nodes. -/
def Ast.tree? (t : Ast) : Option Tree := do
  let n ← t.nodes[← t.root]?
  return t.below t.size n

/-! ## Outlines -/

/-- What stands before the label of a child: a role other than that of an
    operand is named. -/
def Role.tag : Role → String
  | operand => ""
  | r => r.name ++ ": "

/-- The line of a node in an outline. -/
def Head.line (h : Head) (depth : Nat) (role : Role) : String :=
  String.ofList (List.replicate (2 * depth) ' ') ++ role.tag ++ h.label ++ " #" ++
    toString h.id ++ "\n"

mutual
/-- The outline of a tree at a depth. -/
def Tree.outline (depth : Nat) (role : Role) : Tree → String
  | .node head children => head.line depth role ++ children.outline (depth + 1)

/-- The outlines of children at a depth. -/
def Forest.outline (depth : Nat) : Forest → String
  | .nil => ""
  | .cons role tree rest => tree.outline depth role ++ rest.outline depth
end

/-- The outline of a store. -/
def Ast.outline (t : Ast) : String :=
  match t.tree? with
  | some tree => tree.outline 0 .operand
  | none => "<empty tree>\n"

end Flowline
