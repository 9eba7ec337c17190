/-
  Expressions and lines.

  An expression keeps how it was written: the short conditional
  `(c)?(t):(e)` and the keyword conditional `if (c): t else: e` are different
  expressions, and parentheses are kept.  A flow is no expression of its own:
  `s -> f(a) -> g()` is the nested call `g(f(s, a))`.

  * `Expr`, `Line`;
  * `Expr.size`: the number of nodes that an expression takes in a tree.
-/
import Flowline.Operator

namespace Flowline

/-- An expression. -/
inductive Expr where
  | int (n : Int64)
  | float (x : Float)
  | str (s : String)
  | var (name : String)
  | call (name : String) (args : List Expr)
  /-- An expression in parentheses. -/
  | group (e : Expr)
  | binary (o : Operator) (l r : Expr)
  /-- `(c)?(t):(e)` -/
  | ternary (c t e : Expr)
  /-- `if (c): t` -/
  | ifThen (c t : Expr)
  /-- `if (c): t else: e` -/
  | ifElse (c t e : Expr)

/-- A line: an expression, or an assignment of one to a name. -/
inductive Line where
  | expr (e : Expr)
  | assign (name : String) (e : Expr)

mutual
/-- The number of nodes of an expression. -/
def Expr.size : Expr → Nat
  | int _ | float _ | str _ | var _ => 1
  | call _ args => Expr.sizeAll args + 1
  | group e => e.size + 1
  | binary _ l r => l.size + r.size + 1
  | ternary c t e | ifElse c t e => c.size + t.size + e.size + 1
  | ifThen c t => c.size + t.size + 1

/-- The number of nodes of several expressions. -/
def Expr.sizeAll : List Expr → Nat
  | [] => 0
  | e :: es => e.size + Expr.sizeAll es
end

/-- The number of nodes of a line; an assignment adds its target and itself. -/
def Line.size : Line → Nat
  | expr e => e.size
  | assign _ e => e.size + 2

end Flowline
