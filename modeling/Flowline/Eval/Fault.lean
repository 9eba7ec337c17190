/-
  What can go wrong while a tree is evaluated.

  * `Malformation`: how a node can fall short of the shape that its kind asks
    for; trees of lines have none of these faults;
  * `EvalFault`: all faults of an evaluation, as causes, with their kinds and
    messages.
-/
import Flowline.Tree.Store
import Flowline.Value.Compare
import Flowline.Text.Quoted

namespace Flowline

/-! ## Malformed nodes -/

/-- What a node carries, in the words of a message. -/
def Literal.text : Literal → String
  | empty => "Empty"
  | int n => "Int(" ++ Whole.text n ++ ")"
  | float x => "Float(" ++ Decimal.text x ++ ")"
  | str s => "Str(" ++ Text.quote s ++ ")"
  | name s => "Name(" ++ Text.quote s ++ ")"

/-- How a node falls short of the shape that its kind asks for. -/
inductive Malformation where
  /-- It carries the wrong thing. -/
  | payload (l : Literal)
  | noName
  /-- The target of an assignment is not a name. -/
  | target (v : Value)
  | untaggedBranch
  | missingBranch
  | notOneChild
  | notTwoChildren
  | notTwoOperands

/-- The message of a malformation. -/
def Malformation.message : Malformation → String
  | payload l => "payload " ++ l.text
  | noName => "missing name"
  | target v => "target " ++ v.text
  | untaggedBranch => "untagged branch"
  | missingBranch => "missing condition or branch"
  | notOneChild => "expected one child"
  | notTwoChildren => "expected two children"
  | notTwoOperands => "expected two operands"

/-! ## Faults -/

/-- Why an evaluation fails. -/
inductive EvalFault where
  | malformed (head : Head) (what : Malformation)
  /-- The store is not one tree. -/
  | store (f : StoreFault)
  | undefined (name : String)
  | functionAsValue (name : String)
  | unknownFunction (name : String)
  | notCallable (name typeName : String)
  /-- A function failed, with the given message. -/
  | calleeFailed (name message : String)
  | operator (f : OpFault)

/-- The kind of a fault. -/
def EvalFault.kind : EvalFault → ErrorKind
  | malformed .. | store _ => .internal
  | undefined _ => .undefinedVariable
  | functionAsValue _ => .type
  | unknownFunction _ => .unknownFunction
  | notCallable .. => .notCallable
  | calleeFailed .. => .callFailure
  | operator f => f.kind

/-- The message of a fault. -/
def EvalFault.message : EvalFault → String
  | malformed head what =>
    s!"malformed {head.kind.name} node #{head.id}: {what.message}"
  | store f => f.message
  | undefined name => s!"Undefined variable '{name}'"
  | functionAsValue name => s!"'{name}' is a function and cannot be used as a value"
  | unknownFunction name => s!"Unknown function '{name}'"
  | notCallable name typeName => s!"'{name}' is a {typeName}, not a function"
  | calleeFailed name message => s!"Error calling function {name}: {message}"
  | operator f => f.message

/-- A fault as an error; an evaluation knows no place in the source. -/
def EvalFault.toError (f : EvalFault) : Error :=
  { kind := f.kind, message := f.message }

end Flowline
