/-
  Nodes of a syntax tree.

  * `NodeKind`, `Literal`: what a node is and what it carries;
  * `Role`: how a child stands to its parent;
  * `Node`: a node of a store, with its parent and the edges to its children.
-/
import Flowline.Operator

namespace Flowline

/-- What a node is. -/
inductive NodeKind where
  /-- The root above a line. -/
  | initial
  /-- An assignment. -/
  | assign
  /-- The name on the left of an assignment. -/
  | target
  | number
  | str
  | var
  | op (o : Operator)
  /-- An expression in parentheses. -/
  | group
  /-- A conditional. -/
  | cond
  /-- A function call. -/
  | call
  deriving DecidableEq

/-- The name of a kind of node. -/
def NodeKind.name : NodeKind → String
  | initial => "INITIAL"
  | assign => "ASSIGN"
  | target => "VARIABLE_ASSIGN"
  | number => "NUMBER"
  | str => "STRING"
  | var => "VARIABLE"
  | op (.arith .plus) => "PLUS"
  | op (.arith .minus) => "MINUS"
  | op (.arith .times) => "TIMES"
  | op (.arith .divide) => "DIVIDE"
  | op (.arith .power) => "POWER"
  | op (.compare .gt) => "GT"
  | op (.compare .lt) => "LT"
  | op (.compare .ge) => "GE"
  | op (.compare .le) => "LE"
  | op (.compare .eq) => "EQ"
  | op (.compare .ne) => "NE"
  | op (.logic .and) => "AND"
  | op (.logic .or) => "OR"
  | group => "GROUP"
  | cond => "IF"
  | call => "FUNCTION_CALL"

/-- What a node carries. -/
inductive Literal where
  /-- Nothing, as operators and other inner nodes. -/
  | empty
  | int (n : Int64)
  | float (x : Float)
  | str (s : String)
  /-- The name of a variable, of an assignment's target or of a function. -/
  | name (s : String)

/-- How a child stands to its parent.  The parts of a conditional are told
    apart by their roles; all other children are operands, told apart by their
    order. -/
inductive Role where
  | operand
  | condition
  /-- The branch of a condition that holds. -/
  | expression
  /-- The branch of a condition that fails. -/
  | alternate
  deriving DecidableEq

/-- The name of a role. -/
def Role.name : Role → String
  | operand => "operand"
  | condition => "condition"
  | expression => "expression"
  | alternate => "alternate"

/-- An edge from a node to one of its children. -/
structure Edge where
  role : Role
  child : Nat
  deriving DecidableEq

/-- What a node is by itself, apart from its place in a tree. -/
structure Head where
  /-- The number of the node in its store. -/
  id : Nat
  kind : NodeKind
  /-- The text that stands for the node in outlines and messages. -/
  label : String
  value : Literal

/-- A node of a store. -/
structure Node extends Head where
  parent : Option Nat
  /-- The edges to the children, in the order in which they were connected. -/
  children : List Edge

/-- The first child with the given role. -/
def Node.child? (n : Node) (r : Role) : Option Nat :=
  (n.children.find? (·.role == r)).map Edge.child

end Flowline
