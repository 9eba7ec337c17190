/-
  The tree of a line.

  A line is laid out in a store bottom up: the nodes of an expression are
  numbered after those of its parts, so the nodes of an expression take
  consecutive numbers, the last of which is its own.  The initial node comes
  first and is connected to the line at the end.

  * `Expr.steps next e`: the operations that lay out `e` from the number `next`;
  * `Reading.steps`: the operations of a whole or a broken reading;
  * `parseTokens`, `parse`: from tokens and from a text to a store.
-/
import Flowline.Parser
import Flowline.Token.Lexer
import Flowline.Tree.Store

namespace Flowline

/-! ## Expressions -/

/-- The label of the node of an operator. -/
def Operator.label : Operator → String
  | .arith .power => "POW"
  | o => o.spelling

/-- Allocate the node `id` and connect its children in order. -/
def nodeSteps (id : Nat) (kind : NodeKind) (label : String) (value : Literal)
    (children : List (Role × Nat)) : List Step :=
  .allocate kind label value :: children.map fun (role, child) => .connect id child role

/-- The number of the node of an expression laid out from `next`. -/
def Expr.idFrom (next : Nat) (e : Expr) : Nat :=
  next + e.size - 1

/-- The numbers of the nodes of expressions laid out one after another. -/
def Expr.idsFrom (next : Nat) : List Expr → List Nat
  | [] => []
  | e :: es => e.idFrom next :: idsFrom (next + e.size) es

mutual
/-- The operations that lay out an expression from the number `next`. -/
def Expr.steps (next : Nat) : Expr → List Step
  | int n => nodeSteps next .number ("NUM_" ++ toString n.toInt) (.int n) []
  | float x => nodeSteps next .number ("NUM_" ++ Decimal.text x) (.float x) []
  | str s => nodeSteps next .str ("str_" ++ s) (.str s) []
  | var name => nodeSteps next .var ("VAR_" ++ name) (.name name) []
  | call name args =>
    Expr.stepsAll next args ++
      nodeSteps (next + Expr.sizeAll args) .call ("FUN_" ++ name) (.name name)
        ((Expr.idsFrom next args).map (.operand, ·))
  | group e =>
    e.steps next ++
      nodeSteps (next + e.size) .group "( )" .empty [(.operand, e.idFrom next)]
  | binary o l r =>
    let mid := next + l.size
    l.steps next ++ r.steps mid ++
      nodeSteps (mid + r.size) (.op o) o.label .empty
        [(.operand, l.idFrom next), (.operand, r.idFrom mid)]
  | ternary c t e | ifElse c t e =>
    let second := next + c.size
    let third := second + t.size
    c.steps next ++ t.steps second ++ e.steps third ++
      nodeSteps (third + e.size) .cond "IF" .empty
        [(.condition, c.idFrom next), (.expression, t.idFrom second),
         (.alternate, e.idFrom third)]
  | ifThen c t =>
    let second := next + c.size
    c.steps next ++ t.steps second ++
      nodeSteps (second + t.size) .cond "IF" .empty
        [(.condition, c.idFrom next), (.expression, t.idFrom second)]

/-- The operations that lay out expressions one after another. -/
def Expr.stepsAll (next : Nat) : List Expr → List Step
  | [] => []
  | e :: es => e.steps next ++ Expr.stepsAll (next + e.size) es
end

/-! ## Lines -/

/-- The operations that lay out a line from the number `next`. -/
def Line.steps (next : Nat) : Line → List Step
  | expr e => e.steps next
  | assign name e =>
    let target := next + e.size
    e.steps next ++
      nodeSteps target .target ("VAR_" ++ name) (.name name) [] ++
      nodeSteps (target + 1) .assign "=" .empty
        [(.operand, target), (.operand, e.idFrom next)]

/-- The allocation of the initial node. -/
def rootStep : Step :=
  .allocate .initial "INIT" .empty

/-- The operations of a reading.  One that fails stops after the expressions
    that were complete. -/
def Reading.steps : Reading → List Step
  | whole l => rootStep :: l.steps 1 ++ [.connect 0 l.size .operand]
  | trailing l _ => rootStep :: l.steps 1
  | broken f => rootStep :: Expr.stepsAll 1 f.built

/-! ## Parsing -/

/-- The store of the line that the tokens form. -/
def Reading.tree (ts : List Token) (r : Reading) : Except Error Ast :=
  match r.error? ts with
  | some e => .error e
  | none => (Ast.build r.steps).mapError StoreFault.toError

/-- The store of the line that the tokens form. -/
def parseTokens (ts : List Token) : Except Error Ast :=
  (read ts).tree ts

/-- The store of the line in a text. -/
def parse (source : String) : Except Error Ast :=
  parseTokens (lex source).tokens

end Flowline
