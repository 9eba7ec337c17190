/-
  The arguments of calls.

  * `Tree.Part`: the evaluations of nodes that an evaluation consists of, each
    with the state in which it starts;
  * `Tree.Asks`: among them is that of a call node, the children of which have
    the arguments as their values;
  * `EvalM.Asks`: every call that an evaluation attempts is in a relation to the
    state in which the evaluation starts and to the events before the call;
  * `Tree.asks_eval`: the calls of an evaluation get the values of the children
    of their nodes;
  * `Session.evalLine_calls`: the calls of the lines of a session.
-/
import Flowline.Proofs.Calls

namespace Flowline

variable {σ : Type}

/-! ## Parts of an evaluation -/

/-- The trees of children in order. -/
def Forest.trees : Forest → List Tree
  | nil => []
  | cons _ tree rest => tree :: rest.trees

/-- The first child with a role. -/
def Forest.child? (role : Role) : Forest → Option Tree
  | nil => none
  | cons r tree rest => if r = role then some tree else rest.child? role

/-- Whether all children of a node are evaluated, whatever their values. -/
def Env.isStrict (env : Env σ) (kind : NodeKind) : Bool :=
  match env.config.conditionals, kind with
  | .lazy, .cond | .lazy, .op (.logic _) => false
  | _, _ => true

/-- The state after a node is reached. -/
def State.reached (st : State σ) (h : Head) : State σ :=
  { st with events := st.events.push (.visit h.id h.kind) }

mutual
/-- Evaluating a tree in a state evaluates a tree below it in another state. -/
inductive Tree.Part (env : Env σ) : Tree → State σ → Tree → State σ → Prop
  | self {t : Tree} {st : State σ} : t.Part env st t st
  | child {h : Head} {f : Forest} {st st' : State σ} {c : Tree} :
      env.isStrict h.kind → f.Part env (st.reached h) c st' →
      (Tree.node h f).Part env st c st'
  /-- The condition of a lazy conditional. -/
  | condition {h : Head} {f : Forest} {st st' : State σ} {x c : Tree} :
      env.config.conditionals = .lazy → h.kind = .cond → f.child? .condition = some x →
      x.Part env (st.reached h) c st' → (Tree.node h f).Part env st c st'
  /-- The branch that its condition selects. -/
  | branch {h : Head} {f : Forest} {st st₁ st' : State σ} {x y c : Tree} {v : Value}
      {holds : Bool} :
      env.config.conditionals = .lazy → h.kind = .cond → f.child? .condition = some x →
      (x.eval env).run (st.reached h) = (.ok v, st₁) → v.truth = .ok holds →
      f.child? (if holds then .expression else .alternate) = some y →
      y.Part env st₁ c st' → (Tree.node h f).Part env st c st'
  /-- The first operand of a lazy logical operator. -/
  | first {h : Head} {o : Connective} {r r' : Role} {st st' : State σ} {x y c : Tree} :
      env.config.conditionals = .lazy → h.kind = .op (.logic o) →
      x.Part env (st.reached h) c st' →
      (Tree.node h (.cons r x (.cons r' y .nil))).Part env st c st'
  /-- The second one, if the first has not decided. -/
  | second {h : Head} {o : Connective} {r r' : Role} {st st₁ st' : State σ} {x y c : Tree}
      {v : Value} {left : Bool} :
      env.config.conditionals = .lazy → h.kind = .op (.logic o) →
      (x.eval env).run (st.reached h) = (.ok v, st₁) → v.truth = .ok left →
      o.decides left = false → y.Part env st₁ c st' →
      (Tree.node h (.cons r x (.cons r' y .nil))).Part env st c st'

/-- Evaluating trees in order evaluates a tree among or below them. -/
inductive Forest.Part (env : Env σ) : Forest → State σ → Tree → State σ → Prop
  | head {r : Role} {t c : Tree} {f : Forest} {st st' : State σ} :
      t.Part env st c st' → (Forest.cons r t f).Part env st c st'
  | tail {r : Role} {t c : Tree} {f : Forest} {st st₁ st' : State σ} {v : Value} :
      (t.eval env).run st = (.ok v, st₁) → f.Part env st₁ c st' →
      (Forest.cons r t f).Part env st c st'
end

/-- A call: the number of its node, the name of the function and the
    arguments. -/
structure Call where
  site : Nat
  name : String
  args : List Value

/-- The call is at a node that is evaluated in a state, and the children of the
    node have the arguments as their values, with the given events up to
    then. -/
def Call.At (env : Env σ) (c : Call) (t : Tree) (st : State σ) (sofar : List Event) : Prop :=
  ∃ h f st', t = .node h f ∧ h.kind = .call ∧ h.id = c.site ∧ h.value = .name c.name ∧
    (f.evalAll env).run (st.reached h) = (.ok c.args, st') ∧ st'.events.toList = sofar

/-- An evaluation of a tree asks for a call after the given events. -/
def Tree.Asks (env : Env σ) (t : Tree) (st : State σ) (sofar : List Event) (c : Call) : Prop :=
  ∃ t' st', t.Part env st t' st' ∧ c.At env t' st' sofar

def Forest.Asks (env : Env σ) (f : Forest) (st : State σ) (sofar : List Event) (c : Call) : Prop :=
  ∃ t' st', f.Part env st t' st' ∧ c.At env t' st' sofar

/-- The calls that an evaluation attempts in a state, each after the given
    events, are in a relation. -/
def EvalM.Asks {α : Type} (m : EvalM σ α) (P : State σ → List Event → Call → Prop) : Prop :=
  ∀ st, ∃ new, (m.run st).2.events.toList = st.events.toList ++ new ∧
    ∀ before site name args found after, new = before ++ .call site name args found :: after →
      P st (st.events.toList ++ before) ⟨site, name, args⟩

namespace EvalM.Asks

variable {α β : Type} {P Q : State σ → List Event → Call → Prop}

theorem bind {m : EvalM σ α} {k : α → EvalM σ β} {R : α → State σ → List Event → Call → Prop}
    (hm : m.Asks P) (hk : ∀ a, (k a).Asks (R a)) (hP : ∀ st sofar c, P st sofar c → Q st sofar c)
    (hR : ∀ st a st', m.run st = (.ok a, st') → ∀ sofar c, R a st' sofar c → Q st sofar c) :
    (m >>= k).Asks Q := by
  intro st
  obtain ⟨new, hevents, hnew⟩ := hm st
  rw [EvalM.run_bind]
  cases hr : m.run st with
  | mk r st' =>
    rw [hr] at hevents
    cases r with
    | error f => exact ⟨new, hevents, fun _ _ _ _ _ _ h => hP _ _ _ (hnew _ _ _ _ _ _ h)⟩
    | ok a =>
      obtain ⟨new', hevents', hnew'⟩ := hk a st'
      have hevents : st'.events.toList = st.events.toList ++ new := hevents
      refine ⟨new ++ new', ?_, fun before site name args found after h => ?_⟩
      · show ((k a).run st').2.events.toList = _
        rw [hevents', hevents, List.append_assoc]
      · have hsecond {before' : List Event}
            (h : new' = before' ++ .call site name args found :: after) :
            Q st (st.events.toList ++ (new ++ before')) ⟨site, name, args⟩ := by
          rw [← List.append_assoc, ← hevents]
          exact hR st a st' hr _ _ (hnew' _ _ _ _ _ _ h)
        rcases List.append_eq_append_iff.1 h with ⟨before', rfl, h'⟩ | ⟨rest, h', hrest⟩
        · exact hsecond h'
        · cases rest with
          | nil =>
            rw [List.append_nil] at h'
            subst h'
            simpa using @hsecond [] hrest.symm
          | cons e rest =>
            obtain ⟨rfl, -⟩ := List.cons.inj hrest
            exact hP _ _ _ (hnew _ _ _ _ _ _ h')

theorem imp {m : EvalM σ α} (hm : m.Asks P) (h : ∀ st sofar c, P st sofar c → Q st sofar c) :
    m.Asks Q := by
  intro st
  obtain ⟨new, hevents, hnew⟩ := hm st
  exact ⟨new, hevents, fun _ _ _ _ _ _ he => h _ _ _ (hnew _ _ _ _ _ _ he)⟩

theorem of_calm {m : EvalM σ α} (h : m.Calm) : m.Asks P := by
  intro st
  obtain ⟨new, hnew, hevents⟩ := h st
  refine ⟨new, hevents, fun before site name args found after he => ?_⟩
  rw [he, attempted_append] at hnew
  simp [attempted] at hnew

/-- A step without a call before an evaluation. -/
theorem after {m : EvalM σ α} {k : α → EvalM σ β} {R : α → State σ → List Event → Call → Prop}
    (h : m.Calm) (hk : ∀ a, (k a).Asks (R a))
    (hR : ∀ st a st', m.run st = (.ok a, st') → ∀ sofar c, R a st' sofar c → Q st sofar c) :
    (m >>= k).Asks Q :=
  bind (P := Q) (of_calm h) hk (fun _ _ _ h => h) hR

/-- A step without a call after an evaluation. -/
theorem before {m : EvalM σ α} {k : α → EvalM σ β} (hm : m.Asks P) (h : ∀ a, (k a).Calm) :
    (m >>= k).Asks P :=
  hm.bind (R := fun _ _ _ _ => False) (fun a => of_calm (h a)) (fun _ _ _ h => h) nofun

theorem call (env : Env σ) (site : Nat) (name : String) (args : List Value) :
    (callFunction env site name args).Asks
      fun st sofar c => c = ⟨site, name, args⟩ ∧ sofar = st.events.toList := by
  intro st
  obtain ⟨found, new, hnew, hevents⟩ := exists_events_callFunction env site name args st
  refine ⟨_, hevents, fun before site' name' args' found' after h => ?_⟩
  cases before with
  | nil =>
    obtain ⟨h, -⟩ := List.cons.inj h
    cases h
    exact ⟨rfl, List.append_nil _⟩
  | cons e before =>
    obtain ⟨-, rfl⟩ := List.cons.inj h
    simp [attempted] at hnew

end EvalM.Asks

/-! ## Trees -/

theorem Forest.evalChild?_eq (env : Env σ) (role : Role) (f : Forest) :
    f.evalChild? env role = (f.child? role).map (Tree.eval env) := by
  cases f with
  | nil => rfl
  | cons r tree rest =>
    rw [Forest.evalChild?, Forest.child?]
    split
    next => rfl
    next => exact rest.evalChild?_eq env role

theorem Forest.mem_trees_of_child? {role : Role} {t : Tree} : ∀ {f : Forest},
    f.child? role = some t → t ∈ f.trees
  | .nil, h => by cases h
  | .cons r tree rest, h => by
    rw [Forest.child?] at h
    split at h
    next =>
      cases h
      exact List.mem_cons_self
    next => exact List.mem_cons_of_mem _ (mem_trees_of_child? h)

/-- The children of a strict node are evaluated in order, and their values
    settle its own. -/
theorem Tree.eval_of_isStrict {env : Env σ} {h : Head} (hs : env.isStrict h.kind) (f : Forest) :
    (Tree.node h f).eval env = (do
      EvalM.emit (.visit h.id h.kind)
      let vals ← f.evalAll env
      h.settle env f.roles vals) := by
  rw [Tree.eval]
  cases hc : env.config.conditionals with
  | eager => rfl
  | lazy =>
    cases hk : h.kind with
    | cond => simp [Env.isStrict, hc, hk] at hs
    | op o =>
      cases o with
      | logic o => simp [Env.isStrict, hc, hk] at hs
      | arith | compare => rfl
    | _ => rfl

/-- A node is settled by a call just if it is a call node. -/
theorem EvalM.asks_settle (env : Env σ) (h : Head) (roles : List Role) (vals : List Value) :
    (h.settle env roles vals).Asks fun st sofar c =>
      h.kind = .call ∧ h.id = c.site ∧ h.value = .name c.name ∧ c.args = vals ∧
        sofar = st.events.toList := by
  by_cases hk : h.kind = .call
  · have hsettle : h.settle env roles vals =
        (h.name >>= fun name => callFunction env h.id name vals) := by
      rw [Head.settle, hk]
    rw [hsettle]
    refine .after (EvalM.Calm.steps.name h) (fun name => .call env h.id name vals) ?_
    rintro st name st' hname sofar c ⟨rfl, rfl⟩
    unfold Head.name at hname
    split at hname
    next s hs =>
      cases hname
      exact ⟨hk, rfl, hs, rfl, rfl⟩
    next => cases hname
  · exact .of_calm (.settle env hk roles vals)

section

variable {env : Env σ} {h : Head} {f : Forest}

theorem Forest.asks_evalAll : ∀ {f : Forest},
    (∀ t ∈ f.trees, (t.eval env).Asks (t.Asks env)) → (f.evalAll env).Asks (f.Asks env)
  | .nil, _ => .of_calm (.pure _)
  | .cons r t f, hf => by
    obtain ⟨ht, hf⟩ := List.forall_mem_cons.1 hf
    refine ht.bind (fun v => (asks_evalAll hf).before fun _ => .pure _) ?_ ?_
    · rintro st sofar c ⟨t', st', hpart, hcall⟩
      exact ⟨t', st', .head hpart, hcall⟩
    · rintro st v st₁ hv sofar c ⟨t', st', hpart, hcall⟩
      exact ⟨t', st', .tail hv hpart, hcall⟩

/-- A node is reached before its children. -/
theorem EvalM.Asks.reached {m : EvalM σ Value}
    (hm : m.Asks fun st' sofar c =>
      ∀ st, st' = st.reached h → (Tree.node h f).Asks env st sofar c) :
    (EvalM.emit (.visit h.id h.kind) >>= fun _ => m).Asks ((Tree.node h f).Asks env) := by
  refine .after (.emit rfl) (fun _ => hm) ?_
  intro st _ st' hrun sofar c hc
  cases hrun
  exact hc st rfl

theorem Tree.asks_of_isStrict (hs : env.isStrict h.kind)
    (hf : ∀ t ∈ f.trees, (t.eval env).Asks (t.Asks env)) :
    ((Tree.node h f).eval env).Asks ((Tree.node h f).Asks env) := by
  rw [Tree.eval_of_isStrict hs]
  refine .reached ((Forest.asks_evalAll hf).bind (fun vals => EvalM.asks_settle env h _ vals) ?_ ?_)
  · rintro _ sofar c ⟨t', st', hpart, hcall⟩ st rfl
    exact ⟨t', st', .child hs hpart, hcall⟩
  · rintro _ vals st' hvals sofar c ⟨hk, hsite, hname, rfl, rfl⟩ st rfl
    exact ⟨_, st, .self, h, f, st', rfl, hk, hsite, hname, hvals, rfl⟩

theorem Tree.asks_of_cond (hc : env.config.conditionals = .lazy) (hk : h.kind = .cond)
    (hf : ∀ t ∈ f.trees, (t.eval env).Asks (t.Asks env)) :
    ((Tree.node h f).eval env).Asks ((Tree.node h f).Asks env) := by
  rw [Tree.eval, hc, hk]
  simp only [Forest.evalChild?_eq, ← hk]
  refine .reached ?_
  cases hx : f.child? .condition with
  | none => exact .of_calm (.throw _)
  | some x =>
    cases hy : f.child? .expression with
    | none => exact .of_calm (.throw _)
    | some y =>
      -- the branch that is evaluated is the child with the role that the condition selects
      let R (v : Value) (st₁ : State σ) (sofar : List Event) (c : Call) : Prop :=
        ∃ holds t, v.truth = .ok holds ∧
          f.child? (if holds then .expression else .alternate) = some t ∧ t.Asks env st₁ sofar c
      refine (hf x (Forest.mem_trees_of_child? hx)).bind (R := R) (fun v => ?_) ?_ ?_
      · refine .after (.ofOp _) (R := fun holds st₁ sofar c => ∃ t,
          f.child? (if holds then .expression else .alternate) = some t ∧ t.Asks env st₁ sofar c)
          (fun holds => ?_) ?_
        · cases holds with
          | true =>
            exact (hf y (Forest.mem_trees_of_child? hy)).imp fun _ _ _ hc => ⟨y, hy, hc⟩
          | false =>
            cases hz : f.child? .alternate with
            | none => exact .of_calm (.pure _)
            | some z =>
              exact (hf z (Forest.mem_trees_of_child? hz)).imp fun _ _ _ hc => ⟨z, hz, hc⟩
        · rintro st₁ holds st₂ hholds sofar c ⟨t, ht, hasks⟩
          obtain ⟨htruth, rfl⟩ := EvalM.run_ofOp_eq_ok.1 hholds
          exact ⟨holds, t, htruth, ht, hasks⟩
      · rintro _ sofar c ⟨t', st', hpart, hcall⟩ st rfl
        exact ⟨t', st', .condition hc hk hx hpart, hcall⟩
      · rintro _ v st₁ hv sofar c ⟨holds, t, hholds, ht, t', st', hpart, hcall⟩ st rfl
        exact ⟨t', st', .branch hc hk hx hv hholds ht hpart, hcall⟩

/-- The second operand of a lazy logical operator is evaluated after the first. -/
theorem Tree.asks_of_operands {o : Connective} {r r' : Role} {x y : Tree}
    (hc : env.config.conditionals = .lazy) (hk : h.kind = .op (.logic o))
    (hx : (x.eval env).Asks (x.Asks env)) (hy : (y.eval env).Asks (y.Asks env)) :
    ((Tree.node h (.cons r x (.cons r' y .nil))).eval env).Asks
      ((Tree.node h (.cons r x (.cons r' y .nil))).Asks env) := by
  rw [Tree.eval, hc, hk]
  simp only [← hk]
  let R (v : Value) (st₁ : State σ) (sofar : List Event) (c : Call) : Prop :=
    ∃ left, v.truth = .ok left ∧ o.decides left = false ∧ y.Asks env st₁ sofar c
  refine .reached (hx.bind (R := R) (fun v => ?_) ?_ ?_)
  · refine .after (.ofOp _) (R := fun left st₁ sofar c =>
      o.decides left = false ∧ y.Asks env st₁ sofar c) (fun left => ?_) ?_
    · cases hd : o.decides left with
      | true => exact .of_calm (.pure _)
      | false =>
        exact (hy.imp fun _ _ _ hc => ⟨rfl, hc⟩).before fun _ => .bind (.ofOp _) fun _ => .pure _
    · rintro st₁ left st₂ hleft sofar c ⟨hd, hasks⟩
      obtain ⟨htruth, rfl⟩ := EvalM.run_ofOp_eq_ok.1 hleft
      exact ⟨left, htruth, hd, hasks⟩
  · rintro _ sofar c ⟨t', st', hpart, hcall⟩ st rfl
    exact ⟨t', st', .first hc hk hpart, hcall⟩
  · rintro _ v st₁ hv sofar c ⟨left, hleft, hd, t', st', hpart, hcall⟩ st rfl
    exact ⟨t', st', .second hc hk hv hleft hd hpart, hcall⟩

theorem Tree.asks_of_logic {o : Connective} (hc : env.config.conditionals = .lazy)
    (hk : h.kind = .op (.logic o)) (hf : ∀ t ∈ f.trees, (t.eval env).Asks (t.Asks env)) :
    ((Tree.node h f).eval env).Asks ((Tree.node h f).Asks env) := by
  rcases f with _ | ⟨r, x, _ | ⟨r', y, _ | _⟩⟩
  case cons.cons.nil =>
    exact Tree.asks_of_operands hc hk (hf x (by simp [Forest.trees]))
      (hf y (by simp [Forest.trees]))
  -- other numbers of operands are faults
  all_goals
    rw [Tree.eval, hc, hk]
    exact .of_calm (.bind (.emit rfl) fun _ => .throw _)

end

mutual
/-- **A call gets the values of the children of its node.** -/
theorem Tree.asks_eval (env : Env σ) : ∀ t : Tree, (t.eval env).Asks (t.Asks env)
  | .node h f => by
    have hf := f.asks_trees env
    by_cases hs : env.isStrict h.kind
    · exact Tree.asks_of_isStrict hs hf
    · unfold Env.isStrict at hs
      split at hs
      next hc hk => exact Tree.asks_of_cond hc hk hf
      next hc hk => exact Tree.asks_of_logic hc hk hf
      next => exact absurd rfl hs

theorem Forest.asks_trees (env : Env σ) : ∀ f : Forest,
    ∀ t ∈ f.trees, (t.eval env).Asks (t.Asks env)
  | .nil => by simp [Forest.trees]
  | .cons _ t f => List.forall_mem_cons.2 ⟨t.asks_eval env, f.asks_trees env⟩
end

/-! ## Lines -/

theorem Line.eval_rooted (env : Env σ) (l : Line) : l.rooted.eval env = l.eval env := by
  rw [← Line.evaluate_store, Ast.evaluate, Line.validate_store, Line.tree?_store]

/-- **Calls happen once, arguments before their call.**  Under eager conditionals
    a line attempts the calls of its tree one after another, all of them if it
    succeeds, and under lazy ones some of them, in the same order.  The call
    nodes are all different, and each call gets the values that the children of
    its node had before, in their order. -/
theorem Session.evalLine_calls (s : Session σ) (source : String) (a : Ast)
    (h : Flowline.parse source = .ok a) :
    ∃ t, a.tree? = some t ∧ t.calls.Nodup ∧
      (s.config.conditionals = .eager →
        attempted (s.evalLine source).events <+: t.calls ∧
        ∀ v, (s.evalLine source).result = .ok v →
          attempted (s.evalLine source).events = t.calls) ∧
      (s.config.conditionals = .lazy →
        (attempted (s.evalLine source).events).Sublist t.calls) ∧
      ∀ before site name args found after,
        (s.evalLine source).events = before ++ .call site name args found :: after →
        t.Asks s.env (s.scanned source).state before ⟨site, name, args⟩ := by
  obtain ⟨l, hl, rfl⟩ := parse_eq_ok_iff.1 h
  refine ⟨l.rooted, l.tree?_store, l.nodup_calls, ?_⟩
  obtain ⟨tried, htried, horder⟩ := l.attempts_eval s.env (s.scanned source).state
  obtain ⟨new, hnew, hasks⟩ := l.rooted.asks_eval s.env (s.scanned source).state
  rw [Line.eval_rooted] at hnew
  rw [Session.evalLine_of_whole hl]
  have htried : attempted ((l.eval s.env).run (s.scanned source).state).2.events.toList = tried :=
    htried
  refine ⟨fun hc => ?_, fun hc => ?_, fun before site name args found after hevents => ?_⟩
  · rw [show s.env.config.conditionals = .eager from hc] at horder
    rw [htried]
    refine ⟨horder.1, fun v hv => ?_⟩
    cases hr : ((l.eval s.env).run (s.scanned source).state).1 with
    | ok w => exact horder.2 w hr
    | error f =>
      rw [hr] at hv
      cases hv
  · rw [show s.env.config.conditionals = .lazy from hc] at horder
    rw [htried]
    exact horder
  · exact hasks before site name args found after (hnew.symm.trans hevents)

/-- The branch that is not taken is left out. -/
theorem Session.evalLine_calls_branch :
    let s : Session Unit := Session.start .standard { conditionals := .lazy } ()
    let source := "x = (1 < 2)?(max(min(3, 4), 2)):(min(5, 6))"
    attempted (s.evalLine source).events = [6, 8] ∧
    ∃ a, Flowline.parse source = .ok a ∧ ∃ t, a.tree? = some t ∧ t.calls.Nodup ∧
      (s.config.conditionals = .eager →
        attempted (s.evalLine source).events <+: t.calls ∧
        ∀ v, (s.evalLine source).result = .ok v →
          attempted (s.evalLine source).events = t.calls) ∧
      (s.config.conditionals = .lazy →
        (attempted (s.evalLine source).events).Sublist t.calls) ∧
      ∀ before site name args found after,
        (s.evalLine source).events = before ++ .call site name args found :: after →
        t.Asks s.env (s.scanned source).state before ⟨site, name, args⟩ := by
  intro s source
  have hparse : ∃ a, Flowline.parse source = .ok a := by
    have hok : (Flowline.parse source).isOk := by decide +kernel
    cases ha : Flowline.parse source with
    | ok a => exact ⟨a, rfl⟩
    | error e =>
      rw [ha] at hok
      cases hok
  obtain ⟨a, ha⟩ := hparse
  exact ⟨by decide +kernel, a, ha, Session.evalLine_calls s source a ha⟩

end Flowline
