/-
  From tokens to a line.

      line        := IDENT '=' flow | IDENT '=' expr | expr
      flow        := IDENT ('->' IDENT '(' args? ')')+
      expr        := conditional | or
      conditional := 'if' '(' expr ')' ':' expr ('else' ':' expr)?
      or          := and ('||' and)*
      and         := compare ('&&' compare)*
      compare     := additive (CMP additive)*
      additive    := (STRING | term) (('+' | '-') term)*
      term        := power (('*' | '/') power)*
      power       := factor ('^' factor)?
      factor      := NUMBER | IDENT | IDENT '(' args? ')' | '(' expr ')'
                   | '(' expr ')' '?' '(' expr ')' ':' '(' expr ')'
      args        := expr (',' expr)*

  Each rule is a function from tokens to what it has read and the tokens that
  are left.  The rules below `expr` take the reader of nested expressions as
  an argument; `expr` ties the knot.  A nested expression stands after at
  least one more token, so the number of tokens bounds the nesting, and every
  round of a loop takes a token, so it bounds the loops as well.

  * `read`: what the tokens of a line amount to, a `Reading`;
  * `Fault`: why and where reading stopped, and which expressions were
    complete by then.
-/
import Flowline.Token
import Flowline.Expr
import Flowline.Error

namespace Flowline

/-! ## Faults -/

/-- Why reading stopped. -/
inductive Cause where
  /-- No rule goes on with the next token. -/
  | unexpected
  /-- The only rule left goes on with the given mark. -/
  | expected (m : Mark)
  deriving DecidableEq

/-- Reading stopped. -/
structure Fault where
  cause : Cause
  /-- The tokens from the offending one on. -/
  rest : List Token
  /-- The expressions that were complete, in the order of their completion. -/
  built : List Expr

namespace Parser

/-- A rule: what it reads off the tokens, and the tokens that are left. -/
abbrev Rule (α : Type) := List Token → Except Fault (α × List Token)

/-- The kind of the next token. -/
def peek : List Token → Kind
  | [] => .eof
  | t :: _ => t.kind

/-- No rule goes on with the next token. -/
def unexpected {α : Type} (ts : List Token) : Except Fault α :=
  .error { cause := .unexpected, rest := ts, built := [] }

/-- Take the given mark. -/
def expect (m : Mark) : List Token → Except Fault (List Token)
  | ⟨.mark m', p⟩ :: ts =>
    if m' = m then .ok ts
    else .error { cause := .expected m, rest := ⟨.mark m', p⟩ :: ts, built := [] }
  | ts => .error { cause := .expected m, rest := ts, built := [] }

/-- A step that comes after the completion of the given expressions. -/
def keeping {α : Type} (es : List Expr) : Except Fault α → Except Fault α
  | .ok a => .ok a
  | .error f => .error { f with built := es ++ f.built }

/-! ## Factors -/

section Rules

variable (expr : Rule Expr)

/-- `args`: expressions divided by commas. -/
def arguments : Nat → Rule (List Expr)
  | 0, ts => unexpected ts
  | n + 1, ts => do
    let (e, ts) ← expr ts
    match ts with
    | ⟨.mark .comma, _⟩ :: ts =>
      let (es, ts) ← keeping [e] (arguments n ts)
      return (e :: es, ts)
    | ts => return ([e], ts)

/-- `args? ')'`: what follows the opening parenthesis of a call. -/
def argumentList : Rule (List Expr)
  | ⟨.mark .rparen, _⟩ :: ts => .ok ([], ts)
  | ts => do
    let (es, ts) ← arguments expr ts.length ts
    let ts ← keeping es (expect .rparen ts)
    return (es, ts)

/-- `'(' expr ')'`, without a node of its own. -/
def parenthesized : Rule Expr := fun ts => do
  let ts ← expect .lparen ts
  let (e, ts) ← expr ts
  let ts ← keeping [e] (expect .rparen ts)
  return (e, ts)

/-- What follows an opening parenthesis: a group or a short conditional. -/
def bracketed : Rule Expr := fun ts => do
  let (e, ts) ← expr ts
  keeping [e] do
    let ts ← expect .rparen ts
    match ts with
    | ⟨.mark .question, _⟩ :: ts =>
      let (t, ts) ← parenthesized expr ts
      keeping [t] do
        let ts ← expect .colon ts
        let (a, ts) ← parenthesized expr ts
        return (.ternary e t a, ts)
    | ts => return (.group e, ts)

/-- `factor` -/
def factor : Rule Expr
  | ⟨.int n, _⟩ :: ts => .ok (.int n, ts)
  | ⟨.float x, _⟩ :: ts => .ok (.float x, ts)
  | ⟨.ident name, _⟩ :: ⟨.mark .lparen, _⟩ :: ts => do
    let (args, ts) ← argumentList expr ts
    return (.call name args, ts)
  | ⟨.ident name, _⟩ :: ts => .ok (.var name, ts)
  | ⟨.mark .lparen, _⟩ :: ts => bracketed expr ts
  | ts => unexpected ts

/-! ## Operators -/

/-- `power` -/
def power : Rule Expr := fun ts => do
  let (b, ts) ← factor expr ts
  match ts with
  | ⟨.op (.arith .power), _⟩ :: ts =>
    let (e, ts) ← keeping [b] (factor expr ts)
    return (.binary (.arith .power) b e, ts)
  | ts => return (b, ts)

end Rules

/-- Operators of one rank and the operands after them, nested to the left. -/
def chain (rank : Nat) (operand : Rule Expr) : Nat → Expr → Rule Expr
  | n + 1, l, ⟨.op o, p⟩ :: ts =>
    if o.rank = rank then do
      let (r, ts) ← keeping [l] (operand ts)
      chain rank operand n (.binary o l r) ts
    else .ok (l, ⟨.op o, p⟩ :: ts)
  | _, l, ts => .ok (l, ts)

/-- A first operand, then operators of one rank and the operands after them. -/
def joined (rank : Nat) (first operand : Rule Expr) : Rule Expr := fun ts => do
  let (e, ts) ← first ts
  chain rank operand ts.length e ts

section Rules

variable (expr : Rule Expr)

/-- `term` -/
def term : Rule Expr :=
  joined 1 (power expr) (power expr)

/-- `STRING | term`: a string opens a sum and stands nowhere else. -/
def opening : Rule Expr
  | ⟨.str s, _⟩ :: ts => .ok (.str s, ts)
  | ts => term expr ts

/-- `additive` -/
def additive : Rule Expr :=
  joined 2 (opening expr) (term expr)

/-- `compare` -/
def comparison : Rule Expr :=
  joined 3 (additive expr) (additive expr)

/-- `and` -/
def conjunction : Rule Expr :=
  joined 4 (comparison expr) (comparison expr)

/-- `or` -/
def disjunction : Rule Expr :=
  joined 5 (conjunction expr) (conjunction expr)

/-! ## Conditionals, flows and lines -/

/-- `conditional`, after its keyword.  An `else` goes to the nearest
    conditional that lacks one. -/
def conditional : Rule Expr := fun ts => do
  let (c, ts) ← parenthesized expr ts
  keeping [c] do
    let ts ← expect .colon ts
    let (t, ts) ← expr ts
    match ts with
    | ⟨.mark .elseWord, _⟩ :: ts =>
      keeping [t] do
        let ts ← expect .colon ts
        let (e, ts) ← expr ts
        return (.ifElse c t e, ts)
    | ts => return (.ifThen c t, ts)

/-- `expr`, over a reader of nested expressions. -/
def exprStep : Rule Expr
  | ⟨.mark .ifWord, _⟩ :: ts => conditional expr ts
  | ts => disjunction expr ts

/-- The stages of a flow: each one is a call with what came before as its
    first argument. -/
def stages : Nat → Expr → Rule Expr
  | n + 1, e, ⟨.mark .arrow, _⟩ :: ts => do
    let (e, ts) ← keeping [e] do
      match ts with
      | ⟨.ident name, _⟩ :: ts =>
        let ts ← expect .lparen ts
        let (args, ts) ← argumentList expr ts
        return (.call name (e :: args), ts)
      | ts => unexpected ts
    stages n e ts
  | _, e, ts => .ok (e, ts)

/-- The right side of an assignment: a flow or an expression. -/
def assigned : Rule Expr
  | ⟨.ident name, _⟩ :: ⟨.mark .arrow, p⟩ :: ts =>
    stages expr (ts.length + 1) (.var name) (⟨.mark .arrow, p⟩ :: ts)
  | ts => expr ts

/-- `line` -/
def lineStep : Rule Line
  | ⟨.ident name, _⟩ :: ⟨.mark .equal, _⟩ :: ts => do
    let (e, ts) ← assigned expr ts
    return (.assign name e, ts)
  | ts => do
    let (e, ts) ← expr ts
    return (.expr e, ts)

end Rules

/-- `expr`, for expressions nested at most as deep as the first argument. -/
def expr : Nat → Rule Expr
  | 0 => unexpected
  | n + 1 => exprStep (expr n)

/-- `line` -/
def line : Rule Line := fun ts =>
  lineStep (expr ts.length) ts

end Parser

/-! ## Readings -/

/-- What the tokens of a line amount to. -/
inductive Reading where
  /-- A line. -/
  | whole (l : Line)
  /-- A line, and tokens after it where the input should end. -/
  | trailing (l : Line) (rest : List Token)
  /-- No line. -/
  | broken (f : Fault)

/-- Read the tokens before the first end of the input. -/
def read (ts : List Token) : Reading :=
  match Parser.line ts with
  | .error f => .broken f
  | .ok (l, rest) =>
    match Parser.peek rest with
    | .eof => .whole l
    | _ => .trailing l rest

/-! ## Reports -/

/-- What was found instead of what was expected. -/
def Cause.message (found : Kind) : Cause → String
  | unexpected =>
    match found with
    | .eof => "Unexpected end of input"
    | k => "Unexpected token '" ++ k.text ++ "'"
  | expected m =>
    "Expected '" ++ m.spelling ++ "', found " ++
      match found with
      | .eof => "end of input"
      | k => "'" ++ k.text ++ "'"

/-- The line and column at which reading the tokens `ts` stopped with `rest`
    left: those of the next token, else of the last one. -/
def stopPlace (ts rest : List Token) : Nat × Nat :=
  match rest.head?.or ts.getLast? with
  | some t => (t.place.line, t.place.col)
  | none => (1, 1)

/-- The report that reading the tokens `ts` stopped with `rest` left. -/
def Cause.toError (cause : Cause) (ts rest : List Token) : Error :=
  let (l, c) := stopPlace ts rest
  { kind := .grammar
    message := cause.message (Parser.peek rest)
    line := some l
    col := some c }

/-- The report on a reading of the tokens `ts`. -/
def Reading.error? (ts : List Token) : Reading → Option Error
  | whole _ => none
  | trailing _ rest => some (Cause.unexpected.toError ts rest)
  | broken f => some (f.cause.toError ts f.rest)

end Flowline
