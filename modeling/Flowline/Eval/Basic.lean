/-
  Evaluation of trees.

  A node is evaluated after its children, which are evaluated in order.  Under
  lazy conditionals, a conditional evaluates its condition and the branch that
  it selects, and a logical operator its second operand only if the first has
  not decided.

  What an evaluation does besides giving a value is recorded as a sequence of
  events: the nodes it visits, the calls it attempts, what is printed, the
  faults it recovers from and the names it binds.

  * `EvalM`: evaluations, which may fail and which change a `State`;
  * `callFunction`: a call, under the setting for failed calls;
  * `Tree.eval`, `Forest.evalAll`: the walk over a tree;
  * `Ast.evaluate`: the value of a store that is one tree.
-/
import Flowline.Eval.Fault
import Flowline.Symbols
import Flowline.Config
import Flowline.Tree.Outline

namespace Flowline

/-! ## States and events -/

/-- What an evaluation does. -/
inductive Event where
  /-- A node is reached. -/
  | visit (id : Nat) (kind : NodeKind)
  /-- A call is attempted at a node; the last part names the function that is
      found. -/
  | call (site : Nat) (name : String) (args : List Value) (found : Option String)
  /-- A function prints. -/
  | print (text : String)
  /-- A failed call is recorded and the evaluation goes on. -/
  | recover (e : Error)
  /-- A name is bound. -/
  | bind (name : String) (v : Value)

/-- What an evaluation changes. -/
structure State (σ : Type) where
  symbols : Symbols σ
  /-- The state of the host. -/
  host : σ
  /-- The errors recorded so far. -/
  diagnostics : List Error
  /-- The events so far, the earliest first. -/
  events : Array Event

/-- What an evaluation takes as given. -/
structure Env (σ : Type) where
  registry : Registry σ
  config : Config

/-- An evaluation. -/
abbrev EvalM (σ : Type) := ExceptT EvalFault (StateM (State σ))

variable {σ : Type}

namespace EvalM

/-- Record an event. -/
def emit (e : Event) : EvalM σ Unit :=
  modify fun s => { s with events := s.events.push e }

/-- The result of an operator. -/
def ofOp {α : Type} : Except OpFault α → EvalM σ α
  | .ok a => pure a
  | .error f => throw (.operator f)

end EvalM

/-! ## Names and calls -/

/-- The value that a name is bound to. -/
def lookup (name : String) : EvalM σ Value := do
  match (← get).symbols.get? name with
  | some (.value v) => return v
  | some (.callable _) => throw (.functionAsValue name)
  | none => throw (.undefined name)

/-- Bind a name to a value. -/
def bindName (name : String) (v : Value) : EvalM σ Unit := do
  EvalM.emit (.bind name v)
  modify fun s => { s with symbols := s.symbols.assign name v }

/-- The function that a call names: what the name is bound to, else what the
    registry finds. -/
def resolve (registry : Registry σ) (symbols : Symbols σ) (name : String) :
    Except EvalFault (Callable σ) :=
  match symbols.get? name with
  | some (.callable f) => .ok f
  | some (.value v) => .error (.notCallable name v.typeName)
  | none =>
    match registry.find? name with
    | some f => .ok f
    | none => .error (.unknownFunction name)

/-- Run a function; whatever it fails with becomes a failure of the call. -/
def runCallable (f : Callable σ) (name : String) (args : List Value) :
    EvalM σ (Except EvalFault Value) := do
  let reply := f.run args (← get).host
  modify fun s => { s with host := reply.host }
  if reply.printed ≠ "" then EvalM.emit (.print reply.printed)
  return reply.result.mapError fun e => .calleeFailed name e.message

/-- Record a failed call and go on with an error value. -/
def recover (f : EvalFault) : EvalM σ Value := do
  EvalM.emit (.recover f.toError)
  modify fun s => { s with diagnostics := s.diagnostics ++ [f.toError] }
  return .error f.message

/-- A call of the node `site`, under the setting for failed calls. -/
def callFunction (env : Env σ) (site : Nat) (name : String) (args : List Value) :
    EvalM σ Value := do
  let found := resolve env.registry (← get).symbols name
  EvalM.emit (.call site name args (found.toOption.map Callable.name))
  let result ←
    match found with
    | .ok f => runCallable f name args
    | .error fault => pure (.error fault)
  match result, env.config.callFaults with
  | .ok v, _ => return v
  | .error fault, .propagate => throw fault
  | .error fault, .sentinel => recover fault

/-! ## Single nodes -/

/-- The name that a node carries. -/
def Head.name (h : Head) : EvalM σ String :=
  match h.value with
  | .name s => pure s
  | _ => throw (.malformed h .noName)

/-- The value of an only child. -/
def Head.single (h : Head) : List Value → EvalM σ Value
  | [v] => pure v
  | _ => throw (.malformed h .notOneChild)

/-- The values of two children. -/
def Head.pair (h : Head) : List Value → EvalM σ (Value × Value)
  | [a, b] => pure (a, b)
  | _ => throw (.malformed h .notTwoChildren)

/-- What a logical operator makes of two truth values. -/
def Connective.apply : Connective → Bool → Bool → Bool
  | and, a, b => a && b
  | or, a, b => a || b

/-- Whether the first truth value decides. -/
def Connective.decides : Connective → Bool → Bool
  | and, a => !a
  | or, a => a

/-- The last of the children with a role. -/
def lastWith (role : Role) (children : List (Role × Value)) : Option Value :=
  (children.filter (·.1 = role)).getLast?.map Prod.snd

/-- A conditional whose children are all evaluated. -/
def Head.choose (h : Head) (children : List (Role × Value)) : EvalM σ Value :=
  if children.any (·.1 = .operand) then throw (.malformed h .untaggedBranch)
  else
    match lastWith .condition children, lastWith .expression children with
    | some c, some t => do
      if ← EvalM.ofOp c.truth then return t
      else return (lastWith .alternate children).getD .none
    | _, _ => throw (.malformed h .missingBranch)

/-- The value of a node whose children have the given roles and values. -/
def Head.settle (env : Env σ) (h : Head) (roles : List Role) (vals : List Value) :
    EvalM σ Value :=
  match h.kind with
  | .initial | .group => h.single vals
  | .number =>
    match h.value with
    | .int n => return .int n
    | .float x => return .float x
    | l => throw (.malformed h (.payload l))
  | .str =>
    match h.value with
    | .str s => return .str s
    | l => throw (.malformed h (.payload l))
  | .target => do return .str (← h.name)
  | .var => do lookup (← h.name)
  | .assign => do
    match ← h.pair vals with
    | (.str name, v) => do
      bindName name v
      return v
    | (other, _) => throw (.malformed h (.target other))
  | .op (.arith o) => do
    let (a, b) ← h.pair vals
    EvalM.ofOp (o.apply a b)
  | .op (.compare o) => do
    let (a, b) ← h.pair vals
    return .bool (← EvalM.ofOp (o.apply a b))
  | .op (.logic o) => do
    let (a, b) ← h.pair vals
    let left ← EvalM.ofOp a.truth
    let right ← EvalM.ofOp b.truth
    return .bool (o.apply left right)
  | .cond => h.choose (roles.zip vals)
  | .call => do callFunction env h.id (← h.name) vals

/-! ## Trees -/

mutual
/-- The value of a tree. -/
def Tree.eval (env : Env σ) : Tree → EvalM σ Value
  | .node head children => do
    EvalM.emit (.visit head.id head.kind)
    match env.config.conditionals, head.kind with
    | .lazy, .cond =>
      match children.evalChild? env .condition, children.evalChild? env .expression with
      | some condition, some branch => do
        if ← EvalM.ofOp (← condition).truth then branch
        else (children.evalChild? env .alternate).getD (pure .none)
      | _, _ => throw (.malformed head .missingBranch)
    | .lazy, .op (.logic o) =>
      match children.evalPair? env with
      | some (first, second) => do
        let left ← EvalM.ofOp (← first).truth
        if o.decides left then return .bool left
        else return .bool (← EvalM.ofOp (← second).truth)
      | none => throw (.malformed head .notTwoOperands)
    | _, _ => do
      let vals ← children.evalAll env
      head.settle env children.roles vals

/-- The values of children, in order. -/
def Forest.evalAll (env : Env σ) : Forest → EvalM σ (List Value)
  | .nil => return []
  | .cons _ tree rest => do
    let v ← tree.eval env
    let vs ← rest.evalAll env
    return v :: vs

/-- The evaluation of the first child with a role. -/
def Forest.evalChild? (env : Env σ) (role : Role) : Forest → Option (EvalM σ Value)
  | .nil => none
  | .cons r tree rest =>
    if r = role then some (tree.eval env) else rest.evalChild? env role

/-- The evaluations of two children, if there are just two. -/
def Forest.evalPair? (env : Env σ) : Forest → Option (EvalM σ Value × EvalM σ Value)
  | .cons _ first (.cons _ second .nil) => some (first.eval env, second.eval env)
  | _ => none
end

/-- The value of a store that is one tree. -/
def Ast.evaluate (env : Env σ) (t : Ast) : EvalM σ Value :=
  match t.validate, t.tree? with
  | .ok (), some tree => tree.eval env
  | .ok (), none => throw (.store .noInitial)
  | .error f, _ => throw (.store f)

end Flowline
