/-
  The order of calls.

  * `Tree.calls`: the call nodes of a tree, arguments before their call;
  * `attempted`: the nodes at which an evaluation attempts a call;
  * `EvalM.Attempts`: an evaluation attempts the calls at the given nodes, in
    order and up to the point where it fails, or, if operands may be left out,
    some of them in order;
  * `Expr.attempts_eval`, `Line.attempts_eval`: so for the call nodes of an
    expression and of a line.
-/
import Flowline.Proofs.Evaluation

namespace Flowline

variable {σ : Type}

/-! ## Call nodes -/

mutual
/-- The numbers of the call nodes of a tree, a node after those below it. -/
def Tree.calls : Tree → List Nat
  | .node head children =>
    children.calls ++
      match head.kind with
      | .call => [head.id]
      | _ => []

/-- The numbers of the call nodes of trees, one tree after another. -/
def Forest.calls : Forest → List Nat
  | .nil => []
  | .cons _ tree rest => tree.calls ++ rest.calls
end

mutual
/-- The call nodes of a numbered tree are met in the order of their numbers. -/
theorem Tree.Numbered.ascending_calls {next : Nat} : ∀ {t : Tree}, t.Numbered next →
    t.calls.Pairwise (· < ·) ∧ ∀ id ∈ t.calls, next ≤ id ∧ id < next + t.size
  | .node head children, ⟨hchildren, hid⟩ => by
    obtain ⟨hascending, hbounds⟩ := hchildren.ascending_calls
    have hown : ∀ id ∈ (match head.kind with | .call => [head.id] | _ => []), id = head.id := by
      intro id h
      split at h
      next => exact List.mem_singleton.1 h
      next => cases h
    rw [Tree.calls, Tree.size]
    refine ⟨List.pairwise_append.2 ⟨hascending, ?_, fun id h id' h' => ?_⟩, fun id h => ?_⟩
    · split
      next => exact List.pairwise_singleton _ _
      next => exact List.Pairwise.nil
    · rw [hown id' h', hid]
      exact (hbounds id h).2
    · rcases List.mem_append.1 h with h | h
      · have := hbounds id h
        omega
      · rw [hown id h]
        omega

theorem Forest.Numbered.ascending_calls {next : Nat} : ∀ {f : Forest}, f.Numbered next →
    f.calls.Pairwise (· < ·) ∧ ∀ id ∈ f.calls, next ≤ id ∧ id < next + f.size
  | .nil, _ => ⟨List.Pairwise.nil, by simp [Forest.calls]⟩
  | .cons _ tree rest, ⟨htree, hrest⟩ => by
    obtain ⟨hascending, hbounds⟩ := htree.ascending_calls
    obtain ⟨hascending', hbounds'⟩ := hrest.ascending_calls
    rw [Forest.calls, Forest.size]
    refine ⟨List.pairwise_append.2 ⟨hascending, hascending', fun id h id' h' => ?_⟩, fun id h => ?_⟩
    · have := hbounds id h
      have := hbounds' id' h'
      omega
    · rcases List.mem_append.1 h with h | h
      · have := hbounds id h
        omega
      · have := hbounds' id h
        omega
end

/-- The call nodes of a line are those of its expression. -/
theorem Line.calls_rooted (l : Line) : l.rooted.calls = (l.body.tree 1).calls := by
  cases l <;> simp [Line.rooted, Line.tree, Line.body, Tree.calls, Forest.calls]

theorem Line.nodup_calls (l : Line) : l.rooted.calls.Nodup := by
  rw [Line.calls_rooted]
  exact (l.body.numbered_tree 1).ascending_calls.1.imp Nat.ne_of_lt

/-! ## Attempts -/

/-- The nodes at which calls were attempted, as events tell. -/
def attempted (events : List Event) : List Nat :=
  events.filterMap fun
    | .call site _ _ _ => some site
    | _ => none

@[simp] theorem attempted_append (es es' : List Event) :
    attempted (es ++ es') = attempted es ++ attempted es' :=
  List.filterMap_append

/-- An evaluation attempts no call. -/
def EvalM.Calm {α : Type} (m : EvalM σ α) : Prop :=
  ∀ st, ∃ new, attempted new = [] ∧ (m.run st).2.events.toList = st.events.toList ++ new

namespace EvalM.Calm

variable {α β : Type}

theorem bind {m : EvalM σ α} {k : α → EvalM σ β} (hm : m.Calm) (hk : ∀ a, (k a).Calm) :
    (m >>= k).Calm := by
  intro st
  obtain ⟨new, hnew, hevents⟩ := hm st
  rw [EvalM.run_bind]
  cases hr : m.run st with
  | mk r st' =>
    rw [hr] at hevents
    cases r with
    | error f => exact ⟨new, hnew, hevents⟩
    | ok a =>
      obtain ⟨new', hnew', hevents'⟩ := hk a st'
      refine ⟨new ++ new', by simp [hnew, hnew'], ?_⟩
      show ((k a).run st').2.events.toList = _
      rw [hevents', hevents, List.append_assoc]

/-- An evaluation without events. -/
theorem of_eq {m : EvalM σ α} (h : ∀ st, (m.run st).2.events = st.events) : m.Calm :=
  fun st => ⟨[], rfl, by rw [h, List.append_nil]⟩

theorem pure (a : α) : (Pure.pure a : EvalM σ α).Calm :=
  of_eq fun _ => rfl

theorem throw (f : EvalFault) : (MonadExcept.throw f : EvalM σ α).Calm :=
  of_eq fun _ => rfl

theorem emit {e : Event} (h : attempted [e] = []) : (EvalM.emit e : EvalM σ Unit).Calm :=
  fun _ => ⟨[e], h, by simp⟩

theorem visit (id : Nat) (kind : NodeKind) : (EvalM.visit id kind : EvalM σ Unit).Calm :=
  emit rfl

theorem bindName (name : String) (v : Value) : (Flowline.bindName name v : EvalM σ Unit).Calm :=
  bind (emit rfl) fun _ => of_eq fun _ => rfl

theorem steps : KeptBySteps fun {α : Type} (m : EvalM σ α) => m.Calm where
  ret := pure
  fail := throw
  seq := bind
  var name := of_eq fun st => by rw [run_lookup]
  bind := bindName

theorem ofOp (x : Except OpFault α) : (EvalM.ofOp x : EvalM σ α).Calm :=
  steps.ofOp x

theorem lookup (name : String) : (Flowline.lookup name : EvalM σ Value).Calm :=
  steps.var name

theorem answer (c : CallFaults) (r : Except EvalFault Value) :
    (c.answer r : EvalM σ Value).Calm := by
  cases r with
  | ok v => exact pure v
  | error fault =>
    cases c with
    | propagate => exact throw fault
    | sentinel => exact bind (emit rfl) fun _ => bind (of_eq fun _ => rfl) fun _ => pure _

/-- Only the value of a call node is found by a call. -/
theorem settle (env : Env σ) {h : Head} (hk : h.kind ≠ .call) (roles : List Role)
    (vals : List Value) : (h.settle env roles vals).Calm :=
  steps.settle h env roles vals fun hcall => absurd hcall hk

end EvalM.Calm

/-- A call is attempted once, and before anything else happens. -/
theorem exists_events_callFunction (env : Env σ) (site : Nat) (name : String) (args : List Value)
    (st : State σ) : ∃ found new, attempted new = [] ∧
      ((callFunction env site name args).run st).2.events.toList =
        st.events.toList ++ .call site name args found :: new := by
  have hcall : ∃ found new, attempted new = [] ∧
      callEvents env.registry st.symbols st.host site name args =
        .call site name args found :: new := by
    unfold callEvents Reply.events
    split
    next f _ => exact ⟨some f.name, _, by split <;> rfl, rfl⟩
    next => exact ⟨none, [], rfl, rfl⟩
  obtain ⟨found, new, hnew, hevents⟩ := hcall
  rw [run_callFunction_eq env.registry env.config, hevents]
  obtain ⟨new', hnew', hevents'⟩ := EvalM.Calm.answer env.config.callFaults
    (callResult env.registry st.symbols st.host name args)
    { st with
      host := callHost env.registry st.symbols st.host name args
      events := st.events ++ .call site name args found :: new }
  refine ⟨found, new ++ new', by simp [hnew, hnew'], ?_⟩
  rw [hevents']
  simp

/-! ## Order of attempts -/

/-- An evaluation attempts the calls at the given nodes in order.  Under eager
    conditionals it attempts all of them unless it fails, and under lazy ones it
    may leave some out. -/
def EvalM.Attempts {α : Type} (c : Conditionals) (m : EvalM σ α) (sites : List Nat) : Prop :=
  ∀ st, ∃ tried,
    attempted (m.run st).2.events.toList = attempted st.events.toList ++ tried ∧
    match c with
    | .eager => tried <+: sites ∧ ∀ a, (m.run st).1 = .ok a → tried = sites
    | .lazy => tried.Sublist sites

namespace EvalM.Attempts

variable {α β : Type} {c : Conditionals} {xs ys zs : List Nat}

theorem bind {m : EvalM σ α} {k : α → EvalM σ β} (hm : m.Attempts c xs)
    (hk : ∀ a, (k a).Attempts c ys) : (m >>= k).Attempts c (xs ++ ys) := by
  intro st
  obtain ⟨tried, hevents, htried⟩ := hm st
  rw [EvalM.run_bind]
  cases hr : m.run st with
  | mk r st' =>
    rw [hr] at hevents htried
    cases r with
    | error f =>
      refine ⟨tried, hevents, ?_⟩
      cases c with
      | eager => exact ⟨htried.1.trans (List.prefix_append _ _), nofun⟩
      | lazy => exact htried.trans (List.sublist_append_left _ _)
    | ok a =>
      obtain ⟨tried', hevents', htried'⟩ := hk a st'
      refine ⟨tried ++ tried', ?_, ?_⟩
      · show attempted ((k a).run st').2.events.toList = _
        rw [hevents', hevents, List.append_assoc]
      · cases c with
        | eager =>
          obtain rfl := htried.2 a rfl
          exact ⟨(List.prefix_append_right_inj tried).2 htried'.1, fun b hb => by
            rw [htried'.2 b hb]⟩
        | lazy => exact htried.append htried'

theorem of_calm {m : EvalM σ α} (h : m.Calm) : m.Attempts c [] := by
  intro st
  obtain ⟨new, hnew, hevents⟩ := h st
  refine ⟨[], by rw [hevents, attempted_append, hnew], ?_⟩
  cases c with
  | eager => exact ⟨List.prefix_rfl, fun _ _ => rfl⟩
  | lazy => exact List.Sublist.refl _

/-- A step without a call before an evaluation. -/
theorem after {m : EvalM σ α} {k : α → EvalM σ β} (h : m.Calm) (hk : ∀ a, (k a).Attempts c xs) :
    (m >>= k).Attempts c xs :=
  (of_calm h).bind hk

/-- A step without a call after an evaluation. -/
theorem before {m : EvalM σ α} {k : α → EvalM σ β} (hm : m.Attempts c xs) (h : ∀ a, (k a).Calm) :
    (m >>= k).Attempts c xs := by
  have hbind := hm.bind fun a => of_calm (c := c) (h a)
  rwa [List.append_nil] at hbind

/-- Operands may be left out. -/
theorem skip {m : EvalM σ α} (hm : m.Attempts .lazy xs) (h : xs.Sublist ys) :
    m.Attempts .lazy ys := by
  intro st
  obtain ⟨tried, hevents, htried⟩ := hm st
  exact ⟨tried, hevents, htried.trans h⟩

theorem call (env : Env σ) (site : Nat) (name : String) (args : List Value) :
    (callFunction env site name args).Attempts c [site] := by
  intro st
  obtain ⟨found, new, hnew, hevents⟩ := exists_events_callFunction env site name args st
  refine ⟨[site], ?_, ?_⟩
  · rw [hevents, attempted_append]
    show _ ++ site :: attempted new = _
    rw [hnew]
  · cases c with
    | eager => exact ⟨List.prefix_rfl, fun _ _ => rfl⟩
    | lazy => exact List.Sublist.refl _

theorem logic (o : Connective) {a b : EvalM σ Value} (ha : a.Attempts c xs)
    (hb : b.Attempts c ys) : (EvalM.logic o a b c).Attempts c (xs ++ ys) := by
  cases c with
  | eager =>
    exact ha.bind fun _ => hb.before fun _ => .bind (.ofOp _) fun _ => .bind (.ofOp _) fun _ =>
      .pure _
  | lazy =>
    refine ha.bind fun x => after (.ofOp _) fun left => ?_
    cases o.decides left with
    | true => exact (of_calm (.pure _)).skip (List.nil_sublist _)
    | false => exact hb.before fun _ => .bind (.ofOp _) fun _ => .pure _

theorem conditional {x t e : EvalM σ Value} (hx : x.Attempts c xs) (ht : t.Attempts c ys)
    (he : e.Attempts c zs) : (EvalM.conditional x t e c).Attempts c (xs ++ (ys ++ zs)) := by
  cases c with
  | eager =>
    refine hx.bind fun _ => ht.bind fun _ => he.before fun _ => .bind (.ofOp _) fun holds => ?_
    cases holds with
    | true => exact .pure _
    | false => exact .pure _
  | lazy =>
    refine hx.bind fun _ => after (.ofOp _) fun holds => ?_
    cases holds with
    | true => exact ht.skip (List.sublist_append_left _ _)
    | false => exact he.skip (List.sublist_append_right _ _)

theorem binary (env : Env σ) (o : Operator) {a b : EvalM σ Value}
    (ha : a.Attempts env.config.conditionals xs) (hb : b.Attempts env.config.conditionals ys) :
    (EvalM.binary env a b o).Attempts env.config.conditionals (xs ++ ys) := by
  cases o with
  | arith o => exact ha.bind fun _ => hb.before fun _ => .ofOp _
  | compare o => exact ha.bind fun _ => hb.before fun _ => .bind (.ofOp _) fun _ => .pure _
  | logic o => exact ha.logic o hb

end EvalM.Attempts

mutual
/-- The evaluation of an expression attempts the calls of its tree. -/
theorem Expr.attempts_eval (env : Env σ) (next : Nat) : ∀ e : Expr,
    (e.eval env next).Attempts env.config.conditionals (e.tree next).calls
  | .int _ | .float _ | .str _ => .of_calm (.bind (.visit _ _) fun _ => .pure _)
  | .var name => .of_calm (.bind (.visit _ _) fun _ => .lookup name)
  | .call name args => .after (.visit _ _) fun _ =>
      (Expr.attempts_evalAll env next args).bind fun vals => .call env _ name vals
  | .group e => by
    simpa [Tree.calls, Forest.calls] using
      EvalM.Attempts.after (.visit _ _) fun _ => e.attempts_eval env next
  | .binary o l r => by
    simpa [Tree.calls, Forest.calls] using
      EvalM.Attempts.after (.visit _ _) fun _ =>
        (l.attempts_eval env next).binary env o (r.attempts_eval env (next + l.size))
  | .ternary c t e | .ifElse c t e => by
    simpa [Tree.calls, Forest.calls] using
      EvalM.Attempts.after (.visit _ _) fun _ =>
        (c.attempts_eval env next).conditional (t.attempts_eval env (next + c.size))
          (e.attempts_eval env (next + c.size + t.size))
  | .ifThen c t => by
    simpa [Tree.calls, Forest.calls] using
      EvalM.Attempts.after (.visit _ _) fun _ =>
        (c.attempts_eval env next).conditional (t.attempts_eval env (next + c.size))
          (.of_calm (.pure .none))

theorem Expr.attempts_evalAll (env : Env σ) (next : Nat) : ∀ es : List Expr,
    (Expr.evalAll env next es).Attempts env.config.conditionals (Expr.operands next es).calls
  | [] => .of_calm (.pure _)
  | e :: es =>
    (e.attempts_eval env next).bind fun _ =>
      (Expr.attempts_evalAll env (next + e.size) es).before fun _ => .pure _
end

theorem Line.attempts_eval (env : Env σ) (l : Line) :
    (l.eval env).Attempts env.config.conditionals l.rooted.calls := by
  rw [Line.calls_rooted]
  cases l with
  | expr e => exact .after (.visit _ _) fun _ => e.attempts_eval env 1
  | assign name e =>
    exact .after (.visit _ _) fun _ => .after (.visit _ _) fun _ => .after (.visit _ _) fun _ =>
      (e.attempts_eval env 1).before fun v =>
        .bind (.bindName name v) fun _ => .pure v

end Flowline
