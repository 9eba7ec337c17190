/-
  The binary operators of the language.

  * `Operator`: arithmetic, comparison and logical operators;
  * `Operator.spelling`: how the operator is written in a line;
  * `Operator.rank`: how loosely it binds.  Operators of rank one and above
    chain to the left within their rank; the power operator, of rank zero,
    takes exactly two factors.
-/

namespace Flowline

/-- Arithmetic operators. -/
inductive Arith where
  | plus
  | minus
  | times
  | divide
  | power
  deriving DecidableEq

/-- Comparison operators. -/
inductive Comparison where
  | gt
  | lt
  | ge
  | le
  | eq
  | ne
  deriving DecidableEq

/-- Logical operators. -/
inductive Connective where
  | and
  | or
  deriving DecidableEq

/-- The binary operators. -/
inductive Operator where
  | arith (o : Arith)
  | compare (o : Comparison)
  | logic (o : Connective)
  deriving DecidableEq

/-- How an operator is written. -/
def Operator.spelling : Operator → String
  | arith .plus => "+"
  | arith .minus => "-"
  | arith .times => "*"
  | arith .divide => "/"
  | arith .power => "^"
  | compare .gt => ">"
  | compare .lt => "<"
  | compare .ge => ">="
  | compare .le => "<="
  | compare .eq => "=="
  | compare .ne => "!="
  | logic .and => "&&"
  | logic .or => "||"

/-- The rank of an operator; a higher rank binds more loosely. -/
def Operator.rank : Operator → Nat
  | arith .power => 0
  | arith .times | arith .divide => 1
  | arith .plus | arith .minus => 2
  | compare _ => 3
  | logic .and => 4
  | logic .or => 5

end Flowline
