/-
  Evaluation of expressions and lines.

  The nodes of the tree of a line have the children that their kinds ask for,
  so evaluating the tree follows the line.

  * `EvalM.logic`, `EvalM.conditional`: logical operators and conditionals under
    a setting;
  * `Expr.eval`, `Line.eval`: the evaluation of an expression and of a line;
  * `Line.evaluate_store`: evaluating the store of a line is evaluating the line;
  * `Session.evalLine_of_whole`: the same for a line of a session;
  * `run_callFunction_eq`: a call is its result, as the setting for failed calls
    takes it;
  * `EvalM.Respects`, `EvalM.RespectsBranches`: a relation that the steps and
    the branches of evaluations respect;
  * `Expr.eval_respects`, `Line.eval_respects`: it holds between the evaluations
    of an expression, and of a line;
  * `EvalM.KeptBySteps`: a property that evaluations have if their steps do, so
    that finding the value of a node has it.
-/
import Flowline.Session
import Flowline.Proofs.Layout

namespace Flowline

variable {σ : Type}

/-! ## Expressions -/

namespace EvalM

/-- A node is reached. -/
def visit (id : Nat) (kind : NodeKind) : EvalM σ Unit :=
  emit (.visit id kind)

/-- A logical operator between two evaluations. -/
def logic (o : Connective) (a b : EvalM σ Value) : Conditionals → EvalM σ Value
  | .eager => do
    let x ← a
    let y ← b
    let left ← ofOp x.truth
    let right ← ofOp y.truth
    return .bool (o.apply left right)
  | .lazy => do
    let left ← ofOp (← a).truth
    if o.decides left then return .bool left
    else return .bool (← ofOp (← b).truth)

/-- A conditional between three evaluations. -/
def conditional (c t e : EvalM σ Value) : Conditionals → EvalM σ Value
  | .eager => do
    let x ← c
    let y ← t
    let z ← e
    if ← ofOp x.truth then return y else return z
  | .lazy => do
    if ← ofOp (← c).truth then t else e

/-- An operator between two evaluations. -/
def binary (env : Env σ) (a b : EvalM σ Value) : Operator → EvalM σ Value
  | .arith o => do
    let x ← a
    let y ← b
    ofOp (o.apply x y)
  | .compare o => do
    let x ← a
    let y ← b
    return .bool (← ofOp (o.apply x y))
  | .logic o => logic o a b env.config.conditionals

end EvalM

mutual
/-- The evaluation of an expression, the nodes of which are numbered from
    `next`. -/
@[simp] def Expr.eval (env : Env σ) (next : Nat) : Expr → EvalM σ Value
  | .int n => do
    EvalM.visit next .number
    return .int n
  | .float x => do
    EvalM.visit next .number
    return .float x
  | .str s => do
    EvalM.visit next .str
    return .str s
  | .var name => do
    EvalM.visit next .var
    lookup name
  | .call name args => do
    EvalM.visit (next + Expr.sizeAll args) .call
    let vals ← Expr.evalAll env next args
    callFunction env (next + Expr.sizeAll args) name vals
  | .group e => do
    EvalM.visit (next + e.size) .group
    e.eval env next
  | .binary o l r => do
    EvalM.visit (next + l.size + r.size) (.op o)
    EvalM.binary env (l.eval env next) (r.eval env (next + l.size)) o
  | .ternary c t e | .ifElse c t e => do
    EvalM.visit (next + c.size + t.size + e.size) .cond
    EvalM.conditional (c.eval env next) (t.eval env (next + c.size))
      (e.eval env (next + c.size + t.size)) env.config.conditionals
  | .ifThen c t => do
    EvalM.visit (next + c.size + t.size) .cond
    EvalM.conditional (c.eval env next) (t.eval env (next + c.size)) (pure .none)
      env.config.conditionals

/-- The evaluation of expressions in order. -/
@[simp] def Expr.evalAll (env : Env σ) (next : Nat) : List Expr → EvalM σ (List Value)
  | [] => return []
  | e :: es => do
    let v ← e.eval env next
    let vs ← Expr.evalAll env (next + e.size) es
    return v :: vs
end

/-- The evaluation of a line below its root. -/
def Line.eval (env : Env σ) : Line → EvalM σ Value
  | expr e => do
    EvalM.visit 0 .initial
    e.eval env 1
  | assign name e => do
    EvalM.visit 0 .initial
    EvalM.visit (1 + e.size + 1) .assign
    EvalM.visit (1 + e.size) .target
    let v ← e.eval env 1
    bindName name v
    return v

/-- The expression of a line: all of it, or what it assigns. -/
def Line.body : Line → Expr
  | expr e | assign _ e => e

mutual
/-- Evaluating the tree of an expression is evaluating the expression. -/
theorem Expr.eval_tree (env : Env σ) (next : Nat) :
    ∀ e : Expr, (e.tree next).eval env = e.eval env next
  | .int _ | .float _ | .str _ => by
    rw [Expr.tree, Tree.eval, Expr.eval]
    cases env.config.conditionals <;> simp [Forest.evalAll, Head.settle, EvalM.visit]
  | .var name => by
    rw [Expr.tree, Tree.eval, Expr.eval]
    cases env.config.conditionals <;> simp [Forest.evalAll, Head.settle, Head.name, EvalM.visit]
  | .call name args => by
    rw [Expr.tree, Tree.eval, Expr.eval, ← Expr.evalAll_operands]
    cases env.config.conditionals <;> simp [Head.settle, Head.name, EvalM.visit]
  | .group e => by
    rw [Expr.tree, Tree.eval, Expr.eval, ← Expr.eval_tree]
    cases env.config.conditionals <;>
      simp [Forest.evalAll, Head.settle, Head.single, EvalM.visit]
  | .binary o l r => by
    rw [Expr.tree, Tree.eval, Expr.eval, ← Expr.eval_tree, ← Expr.eval_tree]
    cases hc : env.config.conditionals <;> cases o <;>
      simp [Forest.evalAll, Forest.evalPair?, Head.settle, Head.pair, EvalM.visit, EvalM.binary,
        EvalM.logic, hc]
  | .ternary c t e | .ifElse c t e => by
    rw [Expr.tree, Tree.eval, Expr.eval, ← Expr.eval_tree, ← Expr.eval_tree, ← Expr.eval_tree]
    cases env.config.conditionals <;>
      simp [Forest.evalAll, Forest.evalChild?, Forest.roles, Head.settle, Head.choose, lastWith,
        EvalM.visit, EvalM.conditional]
  | .ifThen c t => by
    rw [Expr.tree, Tree.eval, Expr.eval, ← Expr.eval_tree, ← Expr.eval_tree]
    cases env.config.conditionals <;>
      simp [Forest.evalAll, Forest.evalChild?, Forest.roles, Head.settle, Head.choose, lastWith,
        EvalM.visit, EvalM.conditional]

theorem Expr.evalAll_operands (env : Env σ) (next : Nat) :
    ∀ es : List Expr, (Expr.operands next es).evalAll env = Expr.evalAll env next es
  | [] => by
    rw [Expr.operands, Forest.evalAll, Expr.evalAll]
  | e :: es => by
    rw [Expr.operands, Forest.evalAll, Expr.evalAll, Expr.eval_tree, Expr.evalAll_operands]
end

/-- **Evaluating the store of a line is evaluating the line.** -/
theorem Line.evaluate_store (env : Env σ) (l : Line) : l.store.evaluate env = l.eval env := by
  rw [Ast.evaluate, Line.validate_store, Line.tree?_store]
  cases l with
  | expr e =>
    show (Line.expr e).rooted.eval env = _
    rw [Line.rooted, Tree.eval, Line.eval, Line.tree, ← Expr.eval_tree]
    cases env.config.conditionals <;>
      simp [Forest.evalAll, Head.settle, Head.single, EvalM.visit]
  | assign name e =>
    show (Line.assign name e).rooted.eval env = _
    rw [Line.rooted, Tree.eval, Line.eval, Line.tree, ← Expr.eval_tree]
    cases hc : env.config.conditionals <;>
      simp [Tree.eval, Forest.evalAll, Head.settle, Head.single, Head.pair, Head.name, EvalM.visit,
        hc]

/-! ## Lines of a session -/

/-- A text is laid out just if its tokens form a line. -/
theorem parse_eq_ok_iff {source : String} {a : Ast} :
    parse source = .ok a ↔ ∃ l, read (lex source).tokens = .whole l ∧ a = l.store := by
  rw [parse, parseTokens]
  cases read (lex source).tokens with
  | whole l =>
    rw [Reading.tree_whole]
    constructor
    · rintro ⟨⟩
      exact ⟨l, rfl, rfl⟩
    · rintro ⟨_, ⟨⟩, rfl⟩
      rfl
  | trailing l rest =>
    refine ⟨fun h => ?_, ?_⟩
    · cases h
    · rintro ⟨_, ⟨⟩, _⟩
  | broken f =>
    refine ⟨fun h => ?_, ?_⟩
    · cases h
    · rintro ⟨_, ⟨⟩, _⟩

theorem whole_or_error (source : String) :
    (∃ l, read (lex source).tokens = .whole l) ∨ ∃ e, parse source = .error e := by
  cases h : parse source with
  | ok a =>
    obtain ⟨l, hl, -⟩ := parse_eq_ok_iff.1 h
    exact Or.inl ⟨l, hl⟩
  | error e => exact Or.inr ⟨e, rfl⟩

namespace Session

/-- A session that is about to evaluate a text. -/
def scanned (s : Session σ) (source : String) : Session σ :=
  { s with diagnostics := (lex source).diagnostics }

theorem evalLine_of_error {s : Session σ} {source : String} {e : Error}
    (h : Flowline.parse source = .error e) :
    s.evalLine source = { result := .error e, session := s.scanned source, events := [] } := by
  rw [evalLine, parse, h]
  rfl

/-- A text that forms a line is evaluated as the line. -/
theorem evalLine_of_whole {s : Session σ} {source : String} {l : Line}
    (h : read (lex source).tokens = .whole l) :
    s.evalLine source =
      { result := ((l.eval s.env).run (s.scanned source).state).1.mapError EvalFault.toError
        session := (s.scanned source).withState ((l.eval s.env).run (s.scanned source).state).2
        events := ((l.eval s.env).run (s.scanned source).state).2.events.toList } := by
  rw [evalLine, parse, parse_eq_ok_iff.2 ⟨l, h, rfl⟩, ← Line.evaluate_store]
  rfl

end Session

/-! ## Runs -/

namespace EvalM

variable {α β : Type}

@[simp] theorem run_bind (m : EvalM σ α) (f : α → EvalM σ β) (st : State σ) :
    (m >>= f).run st =
      match m.run st with
      | (.ok a, st') => (f a).run st'
      | (.error e, st') => (.error e, st') := by
  show (m.run >>= ExceptT.bindCont f) st = _
  show (match m.run st with | (r, st') => (ExceptT.bindCont f r) st') = _
  cases m.run st with
  | mk r st' => cases r <;> rfl

@[simp] theorem run_pure (a : α) (st : State σ) : (pure a : EvalM σ α).run st = (.ok a, st) :=
  rfl

@[simp] theorem run_get (st : State σ) : (get : EvalM σ (State σ)).run st = (.ok st, st) :=
  rfl

@[simp] theorem run_modify (f : State σ → State σ) (st : State σ) :
    (modify f : EvalM σ Unit).run st = (.ok (), f st) :=
  rfl

@[simp] theorem run_emit (e : Event) (st : State σ) :
    (emit e : EvalM σ Unit).run st = (.ok (), { st with events := st.events.push e }) :=
  rfl

theorem run_bind_eq_ok {m : EvalM σ α} {f : α → EvalM σ β} {st st' : State σ} {b : β} :
    (m >>= f).run st = (.ok b, st') ↔
      ∃ a st₁, m.run st = (.ok a, st₁) ∧ (f a).run st₁ = (.ok b, st') := by
  rw [run_bind]
  constructor
  · intro h
    split at h
    next a st₁ hm => exact ⟨a, st₁, hm, h⟩
    next => cases h
  · rintro ⟨a, st₁, hm, hf⟩
    rw [hm]
    exact hf

theorem run_ofOp_eq_ok {x : Except OpFault α} {st st' : State σ} {a : α} :
    (ofOp x).run st = (.ok a, st') ↔ x = .ok a ∧ st = st' := by
  constructor
  · intro h
    cases x with
    | error f => cases h
    | ok b =>
      cases h
      exact ⟨rfl, rfl⟩
  · rintro ⟨rfl, rfl⟩
    rfl

theorem run_pure_eq_ok {a b : α} {st st' : State σ} :
    (pure a : EvalM σ α).run st = (.ok b, st') ↔ a = b ∧ st = st' := by
  constructor
  · intro h
    cases h
    exact ⟨rfl, rfl⟩
  · rintro ⟨rfl, rfl⟩
    rfl

end EvalM

/-! ## Names and calls -/

/-- The value that a name is bound to in a table. -/
def Symbols.valueOf (s : Symbols σ) (name : String) : Except EvalFault Value :=
  match s.get? name with
  | some (.value v) => .ok v
  | some (.callable _) => .error (.functionAsValue name)
  | none => .error (.undefined name)

theorem run_lookup (name : String) (st : State σ) :
    (lookup name).run st = (st.symbols.valueOf name, st) := by
  simp only [lookup, Symbols.valueOf, EvalM.run_bind, EvalM.run_get]
  rcases st.symbols.get? name with _ | (v | f) <;> rfl

/-- What a call comes to before the setting for failed calls applies. -/
def callResult (registry : Registry σ) (symbols : Symbols σ) (host : σ) (name : String)
    (args : List Value) : Except EvalFault Value :=
  match resolve registry symbols name with
  | .ok f => (f.run args host).result.mapError fun e => .calleeFailed name e.message
  | .error fault => .error fault

/-- What the setting for failed calls makes of the result of a call. -/
def CallFaults.answer : CallFaults → Except EvalFault Value → EvalM σ Value
  | _, .ok v => pure v
  | propagate, .error fault => throw fault
  | sentinel, .error fault => recover fault

/-- The errors that an evaluation recovered from, as its events tell. -/
def recovered (events : List Event) : List Error :=
  events.filterMap fun
    | .recover e => some e
    | _ => none

/-- A call fails as a failed call. -/
theorem isCallFault_of_callResult {registry : Registry σ} {symbols : Symbols σ} {host : σ}
    {name : String} {args : List Value} {fault : EvalFault}
    (h : callResult registry symbols host name args = .error fault) : fault.kind.isCallFault := by
  unfold callResult at h
  split at h
  next f _ =>
    cases hr : (f.run args host).result with
    | ok v =>
      rw [hr] at h
      cases h
    | error e =>
      rw [hr] at h
      cases h
      rfl
  next hf =>
    cases h
    unfold resolve at hf
    split at hf
    next => cases hf
    next =>
      cases hf
      rfl
    next =>
      split at hf
      next => cases hf
      next =>
        cases hf
        rfl

/-- The event of what a function printed, if it printed anything. -/
def Reply.events (r : Reply σ) : List Event :=
  if r.printed = "" then [] else [.print r.printed]

/-- The state of the host after a call. -/
def callHost (registry : Registry σ) (symbols : Symbols σ) (host : σ) (name : String)
    (args : List Value) : σ :=
  match resolve registry symbols name with
  | .ok f => (f.run args host).host
  | .error _ => host

/-- The events of a call: the attempt, then what the function prints. -/
def callEvents (registry : Registry σ) (symbols : Symbols σ) (host : σ) (site : Nat)
    (name : String) (args : List Value) : List Event :=
  match resolve registry symbols name with
  | .ok f => .call site name args (some f.name) :: (f.run args host).events
  | .error _ => [.call site name args none]

theorem run_runCallable (f : Callable σ) (name : String) (args : List Value) (st : State σ) :
    (runCallable f name args).run st =
      (.ok ((f.run args st.host).result.mapError fun e => .calleeFailed name e.message),
        { st with
          host := (f.run args st.host).host
          events := st.events ++ (f.run args st.host).events }) := by
  by_cases hp : (f.run args st.host).printed = ""
  · simp only [runCallable, EvalM.run_bind, EvalM.run_get, EvalM.run_modify, hp, ne_eq,
      not_true_eq_false, if_false, EvalM.run_pure, Reply.events, if_true]
    simp
  · simp only [runCallable, EvalM.run_bind, EvalM.run_get, EvalM.run_modify, hp, ne_eq,
      not_false_eq_true, if_true, EvalM.run_emit, EvalM.run_pure, Reply.events, if_false]
    simp

/-- What a call does: it leaves the host and the events as they are after it,
    and what it comes to is left to the setting for failed calls. -/
theorem run_callFunction_eq (registry : Registry σ) (config : Config) (site : Nat) (name : String)
    (args : List Value) (st : State σ) :
    (callFunction { registry, config } site name args).run st =
      (config.callFaults.answer (callResult registry st.symbols st.host name args)).run
        { st with
          host := callHost registry st.symbols st.host name args
          events := st.events ++ callEvents registry st.symbols st.host site name args } := by
  rw [callResult, callHost, callEvents]
  cases hf : resolve registry st.symbols name with
  | error fault =>
    cases hc : config.callFaults <;>
      simp [callFunction, hf, hc, CallFaults.answer, Except.toOption]
  | ok f =>
    have hevents (es : List Event) : st.events ++ .call site name args (some f.name) :: es =
        st.events.push (.call site name args (some f.name)) ++ es := by
      simp
    simp only [callFunction, EvalM.run_bind, EvalM.run_get, hf, EvalM.run_emit, Except.toOption,
      Option.map_some, run_runCallable, hevents]
    cases (f.run args st.host).result <;> cases hc : config.callFaults <;> rfl

/-- A call changes the host and the events, recovers from no fault on the way,
    and what it comes to is left to the setting for failed calls. -/
theorem run_callFunction (registry : Registry σ) (site : Nat) (name : String) (args : List Value)
    (st : State σ) :
    ∃ host events, recovered events.toList = recovered st.events.toList ∧ ∀ config : Config,
      (callFunction { registry, config } site name args).run st =
        (config.callFaults.answer (callResult registry st.symbols st.host name args)).run
          { st with host, events } := by
  refine ⟨_, _, ?_, fun config => run_callFunction_eq registry config site name args st⟩
  have hcall : recovered (callEvents registry st.symbols st.host site name args) = [] := by
    unfold callEvents Reply.events
    split
    next => split <;> rfl
    next => rfl
  rw [Array.toList_appendList, recovered, List.filterMap_append]
  exact (congrArg _ hcall).trans (List.append_nil _)

/-! ## Respected relations -/

/-- A relation between evaluations that their steps respect. -/
structure EvalM.Respects (env₁ env₂ : Env σ)
    (R : ∀ {α : Type}, EvalM σ α → EvalM σ α → Prop) : Prop where
  ret : ∀ {α : Type} (a : α), R (pure a) (pure a)
  seq : ∀ {α β : Type} {m₁ m₂ : EvalM σ α} {f₁ f₂ : α → EvalM σ β}, R m₁ m₂ →
    (∀ a, R (f₁ a) (f₂ a)) → R (m₁ >>= f₁) (m₂ >>= f₂)
  op : ∀ {α : Type} (x : Except OpFault α), R (EvalM.ofOp x) (EvalM.ofOp x)
  visit : ∀ id kind, R (EvalM.visit id kind) (EvalM.visit id kind)
  var : ∀ name, R (lookup name) (lookup name)
  call : ∀ site name args,
    R (callFunction env₁ site name args) (callFunction env₂ site name args)

/-- A relation between evaluations that logical operators and conditionals
    respect. -/
structure EvalM.RespectsBranches (c₁ c₂ : Conditionals)
    (R : EvalM σ Value → EvalM σ Value → Prop) : Prop where
  logic : ∀ {a₁ a₂ b₁ b₂} (o : Connective), R a₁ a₂ → R b₁ b₂ →
    R (EvalM.logic o a₁ b₁ c₁) (EvalM.logic o a₂ b₂ c₂)
  conditional : ∀ {x₁ x₂ t₁ t₂ e₁ e₂}, R x₁ x₂ → R t₁ t₂ → R e₁ e₂ →
    R (EvalM.conditional x₁ t₁ e₁ c₁) (EvalM.conditional x₂ t₂ e₂ c₂)

/-- A relation between evaluations that results, sequences and operators
    respect. -/
structure EvalM.RespectsSteps (R : ∀ {α : Type}, EvalM σ α → EvalM σ α → Prop) : Prop where
  ret : ∀ {α : Type} (a : α), R (pure a) (pure a)
  seq : ∀ {α β : Type} {m₁ m₂ : EvalM σ α} {f₁ f₂ : α → EvalM σ β}, R m₁ m₂ →
    (∀ a, R (f₁ a) (f₂ a)) → R (m₁ >>= f₁) (m₂ >>= f₂)
  op : ∀ {α : Type} (x : Except OpFault α), R (EvalM.ofOp x) (EvalM.ofOp x)

section

variable {env₁ env₂ : Env σ} {R : ∀ {α : Type}, EvalM σ α → EvalM σ α → Prop}

theorem EvalM.Respects.steps (h : EvalM.Respects env₁ env₂ R) : EvalM.RespectsSteps R where
  ret := h.ret
  seq := h.seq
  op := h.op

/-- Under one setting, branches are made of steps. -/
theorem EvalM.RespectsSteps.branches (h : EvalM.RespectsSteps R) (c : Conditionals) :
    EvalM.RespectsBranches c c R where
  logic := by
    intro a₁ a₂ b₁ b₂ o ha hb
    cases c with
    | eager =>
      exact h.seq ha fun _ => h.seq hb fun _ => h.seq (h.op _) fun _ => h.seq (h.op _) fun _ =>
        h.ret _
    | lazy =>
      refine h.seq ha fun x => h.seq (h.op _) fun left => ?_
      cases o.decides left with
      | true => exact h.ret _
      | false => exact h.seq hb fun _ => h.seq (h.op _) fun _ => h.ret _
  conditional := by
    intro x₁ x₂ t₁ t₂ e₁ e₂ hx ht he
    cases c with
    | eager =>
      refine h.seq hx fun _ => h.seq ht fun _ => h.seq he fun _ => h.seq (h.op _) fun holds => ?_
      cases holds with
      | true => exact h.ret _
      | false => exact h.ret _
    | lazy =>
      refine h.seq hx fun _ => h.seq (h.op _) fun holds => ?_
      cases holds with
      | true => exact ht
      | false => exact he

theorem EvalM.Respects.branches (h : EvalM.Respects env₁ env₂ R) (c : Conditionals) :
    EvalM.RespectsBranches c c R :=
  h.steps.branches c

theorem EvalM.RespectsSteps.binary (h : EvalM.RespectsSteps R)
    (hb : EvalM.RespectsBranches env₁.config.conditionals env₂.config.conditionals R)
    {a₁ a₂ b₁ b₂ : EvalM σ Value} (h₁ : R a₁ a₂) (h₂ : R b₁ b₂) (o : Operator) :
    R (EvalM.binary env₁ a₁ b₁ o) (EvalM.binary env₂ a₂ b₂ o) := by
  cases o with
  | arith o => exact h.seq h₁ fun _ => h.seq h₂ fun _ => h.op _
  | compare o => exact h.seq h₁ fun _ => h.seq h₂ fun _ => h.seq (h.op _) fun _ => h.ret _
  | logic o => exact hb.logic o h₁ h₂

mutual
/-- **A relation that steps and branches respect holds between the evaluations
    of an expression.** -/
theorem Expr.eval_respects (h : EvalM.Respects env₁ env₂ R)
    (hb : EvalM.RespectsBranches env₁.config.conditionals env₂.config.conditionals R)
    (next : Nat) : ∀ e : Expr, R (e.eval env₁ next) (e.eval env₂ next)
  | .int _ | .float _ | .str _ => h.seq (h.visit _ _) fun _ => h.ret _
  | .var name => h.seq (h.visit _ _) fun _ => h.var name
  | .call name args =>
    h.seq (h.visit _ _) fun _ =>
      h.seq (Expr.evalAll_respects h hb next args) fun vals => h.call _ name vals
  | .group e => h.seq (h.visit _ _) fun _ => e.eval_respects h hb next
  | .binary o l r =>
    h.seq (h.visit _ _) fun _ =>
      h.steps.binary hb (l.eval_respects h hb next) (r.eval_respects h hb _) o
  | .ternary c t e | .ifElse c t e =>
    h.seq (h.visit _ _) fun _ =>
      hb.conditional (c.eval_respects h hb next) (t.eval_respects h hb _) (e.eval_respects h hb _)
  | .ifThen c t =>
    h.seq (h.visit _ _) fun _ =>
      hb.conditional (c.eval_respects h hb next) (t.eval_respects h hb _) (h.ret _)

theorem Expr.evalAll_respects (h : EvalM.Respects env₁ env₂ R)
    (hb : EvalM.RespectsBranches env₁.config.conditionals env₂.config.conditionals R)
    (next : Nat) : ∀ es : List Expr, R (Expr.evalAll env₁ next es) (Expr.evalAll env₂ next es)
  | [] => h.ret _
  | e :: es =>
    h.seq (e.eval_respects h hb next) fun _ =>
      h.seq (Expr.evalAll_respects h hb _ es) fun _ => h.ret _
end

/-- The same for lines, if the relation also respects the binding of a name. -/
theorem Line.eval_respects (h : EvalM.Respects env₁ env₂ R)
    (hb : EvalM.RespectsBranches env₁.config.conditionals env₂.config.conditionals R)
    (hname : ∀ name v, R (bindName name v) (bindName name v)) (l : Line) :
    R (l.eval env₁) (l.eval env₂) := by
  cases l with
  | expr e => exact h.seq (h.visit _ _) fun _ => e.eval_respects h hb 1
  | assign name e =>
    exact h.seq (h.visit _ _) fun _ => h.seq (h.visit _ _) fun _ => h.seq (h.visit _ _) fun _ =>
      h.seq (e.eval_respects h hb 1) fun v => h.seq (hname name v) fun _ => h.ret v

end

/-! ## Single nodes -/

/-- A property that evaluations have if their steps have it. -/
structure EvalM.KeptBySteps (P : ∀ {α : Type}, EvalM σ α → Prop) : Prop where
  ret : ∀ {α : Type} (a : α), P (pure a : EvalM σ α)
  fail : ∀ {α : Type} (f : EvalFault), P (throw f : EvalM σ α)
  seq : ∀ {α β : Type} {m : EvalM σ α} {k : α → EvalM σ β}, P m → (∀ a, P (k a)) → P (m >>= k)
  var : ∀ name, P (lookup name)
  bind : ∀ name v, P (bindName name v)

namespace EvalM.KeptBySteps

variable {P : ∀ {α : Type}, EvalM σ α → Prop} (hP : KeptBySteps P) (h : Head)
include hP

theorem ofOp {α : Type} (x : Except OpFault α) : P (EvalM.ofOp x) := by
  cases x with
  | ok a => exact hP.ret a
  | error f => exact hP.fail _

theorem name : P h.name := by
  unfold Head.name
  split
  next => exact hP.ret _
  next => exact hP.fail _

theorem single (vals : List Value) : P (h.single vals) := by
  unfold Head.single
  split
  next => exact hP.ret _
  next => exact hP.fail _

theorem pair (vals : List Value) : P (h.pair vals) := by
  unfold Head.pair
  split
  next => exact hP.ret _
  next => exact hP.fail _

theorem choose (children : List (Role × Value)) : P (h.choose children) := by
  unfold Head.choose
  split
  next => exact hP.fail _
  next =>
    split
    next =>
      refine hP.seq (hP.ofOp _) fun holds => ?_
      cases holds with
      | true => exact hP.ret _
      | false => exact hP.ret _
    next => exact hP.fail _

/-- **The value of a node is found by steps, and by a call if it is a call
    node.** -/
theorem settle (env : Env σ) (roles : List Role) (vals : List Value)
    (hcall : h.kind = .call → ∀ name, P (callFunction env h.id name vals)) :
    P (h.settle env roles vals) := by
  unfold Head.settle
  split
  next => exact hP.single h vals
  next => exact hP.single h vals
  next =>
    split
    next => exact hP.ret _
    next => exact hP.ret _
    next => exact hP.fail _
  next =>
    split
    next => exact hP.ret _
    next => exact hP.fail _
  next => exact hP.seq (hP.name h) fun _ => hP.ret _
  next => exact hP.seq (hP.name h) fun _ => hP.var _
  next =>
    refine hP.seq (hP.pair h vals) fun p => ?_
    split
    next => exact hP.seq (hP.bind _ _) fun _ => hP.ret _
    next => exact hP.fail _
  next => exact hP.seq (hP.pair h vals) fun _ => hP.ofOp _
  next => exact hP.seq (hP.pair h vals) fun _ => hP.seq (hP.ofOp _) fun _ => hP.ret _
  next =>
    exact hP.seq (hP.pair h vals) fun _ => hP.seq (hP.ofOp _) fun _ => hP.seq (hP.ofOp _) fun _ =>
      hP.ret _
  next => exact hP.choose h _
  next hk => exact hP.seq (hP.name h) fun name => hcall hk name

end EvalM.KeptBySteps

end Flowline
