/-
  Lazy conditionals refine eager ones.

  * `Callable.Determined`: the result of a function depends on its arguments
    only;
  * `State.Trails`: a state that binds the same names as another one and has
    recorded some of its diagnostics;
  * `EvalM.Refines`: where the first evaluation succeeds, the second one does
    with the same value, and trails it;
  * `Expr.refines_eval`: eager and lazy evaluations of an expression;
  * `Session.evalLine_lazy_of_eager`: so for the lines of a session.
-/
import Flowline.Proofs.Atomicity

namespace Flowline

variable {σ : Type}

/-! ## Determined functions -/

/-- The result depends on the arguments only. -/
def Callable.Determined (f : Callable σ) : Prop :=
  ∀ args host host', (f.run args host).result = (f.run args host').result

/-- The results of all functions of the registry depend on their arguments
    only. -/
def Registry.Determined (r : Registry σ) : Prop :=
  ∀ name f, r.find? name = some f → f.Determined

/-- The results of all functions in the table depend on their arguments only. -/
def Symbols.Determined (s : Symbols σ) : Prop :=
  ∀ name f, s.get? name = some (.callable f) → f.Determined

/-- The results of the built-in functions depend on their arguments only. -/
theorem Registry.determined_standard : (Registry.standard : Registry σ).Determined := by
  have key (fs : List Builtin) (name : String) (f : Callable σ)
      (h : Builtin.lookup fs name = some f) : f.Determined := by
    obtain ⟨b, -, rfl⟩ := Option.map_eq_some_iff.1 h
    exact fun _ _ _ => rfl
  intro name f h
  rcases Option.or_eq_some_iff.1 h with h | ⟨-, h⟩
  · exact key _ name f h
  · exact key _ name f h

theorem Symbols.determined_empty : (Symbols.empty : Symbols σ).Determined := by
  intro name f h
  cases h

theorem Symbols.Determined.assign {s : Symbols σ} (hs : s.Determined) (name : String) (v : Value) :
    (s.assign name v).Determined := by
  intro x f h
  rw [Symbols.get?_assign] at h
  split at h
  next => cases h
  next => exact hs x f h

theorem determined_of_resolve {r : Registry σ} {s : Symbols σ} (hr : r.Determined)
    (hs : s.Determined) {name : String} {f : Callable σ} (h : resolve r s name = .ok f) :
    f.Determined := by
  unfold resolve at h
  split at h
  next hf =>
    cases h
    exact hs name f hf
  next => cases h
  next =>
    split at h
    next hf =>
      cases h
      exact hr name f hf
    next => cases h

/-- What a call of a determined function comes to does not depend on the host. -/
theorem callResult_congr {r : Registry σ} {s : Symbols σ} (hr : r.Determined) (hs : s.Determined)
    (host host' : σ) (name : String) (args : List Value) :
    callResult r s host name args = callResult r s host' name args := by
  unfold callResult
  split
  next f hf => rw [determined_of_resolve hr hs hf args host host']
  next => rfl

/-! ## Refinement -/

/-- The second state binds the same names, and has recorded some of the
    diagnostics of the first. -/
structure State.Trails (st₁ st₂ : State σ) : Prop where
  symbols : st₂.symbols = st₁.symbols
  diagnostics : st₂.diagnostics.Sublist st₁.diagnostics

/-- Where the first evaluation succeeds, the second one does with the same
    result, and goes on trailing. -/
def EvalM.Refines {α : Type} (m₁ m₂ : EvalM σ α) : Prop :=
  ∀ ⦃st₁ st₂ : State σ⦄, st₁.symbols.Determined → st₁.Trails st₂ → ∀ ⦃a st₁'⦄,
    m₁.run st₁ = (.ok a, st₁') → ∃ st₂', m₂.run st₂ = (.ok a, st₂') ∧ st₁'.Trails st₂'

namespace EvalM

variable {α β : Type}

/-- A quiet step of the first evaluation alone is trailed. -/
theorem Quiet.trails {m : EvalM σ α} (hm : m.Quiet) {st₁ st₂ st₁' : State σ}
    (h : st₁.Trails st₂) {r : Except EvalFault α} (hr : m.run st₁ = (r, st₁')) :
    st₁'.Trails st₂ := by
  obtain ⟨hs, hd⟩ := hm st₁
  rw [hr] at hs hd
  exact ⟨h.symbols.trans hs.symm, h.diagnostics.trans hd.sublist⟩

theorem Quiet.determined {m : EvalM σ α} (hm : m.Quiet) {st st' : State σ}
    (h : st.symbols.Determined) {r : Except EvalFault α} (hr : m.run st = (r, st')) :
    st'.symbols.Determined := by
  have hs := (hm st).1
  rw [hr] at hs
  rw [hs]
  exact h

theorem Refines.bind {m₁ m₂ : EvalM σ α} {f₁ f₂ : α → EvalM σ β} (hq : m₁.Quiet)
    (hm : m₁.Refines m₂) (hf : ∀ a, (f₁ a).Refines (f₂ a)) : (m₁ >>= f₁).Refines (m₂ >>= f₂) := by
  intro st₁ st₂ hdet htrails b st₁' hrun
  obtain ⟨a, s₁, hrun₁, hrun₂⟩ := run_bind_eq_ok.1 hrun
  obtain ⟨s₂, hrun₁', htrails'⟩ := hm hdet htrails hrun₁
  obtain ⟨st₂', hrun₂', htrails''⟩ := hf a (hq.determined hdet hrun₁) htrails' hrun₂
  exact ⟨st₂', run_bind_eq_ok.2 ⟨a, s₂, hrun₁', hrun₂'⟩, htrails''⟩

/-- A lazy logical operator leaves out a second operand that an eager one
    evaluates. -/
theorem Refines.logic {a₁ a₂ b₁ b₂ : EvalM σ Value} (hqa : a₁.Quiet) (hqb : b₁.Quiet)
    (ha : a₁.Refines a₂) (hb : b₁.Refines b₂) (o : Connective) :
    (EvalM.logic o a₁ b₁ .eager).Refines (EvalM.logic o a₂ b₂ .lazy) := by
  intro st₁ st₂ hdet htrails v st₁' hrun
  simp only [EvalM.logic, run_bind_eq_ok, run_ofOp_eq_ok, run_pure_eq_ok] at hrun
  obtain ⟨x, s₁, hx, y, s₂, hy, left, _, ⟨hleft, rfl⟩, right, _, ⟨hright, rfl⟩, rfl, rfl⟩ := hrun
  obtain ⟨s₁', hx', htrails₁⟩ := ha hdet htrails hx
  by_cases hd : o.decides left
  · refine ⟨s₁', ?_, hqb.trails htrails₁ hy⟩
    have happly : o.apply left right = left := by
      cases o <;> cases left <;> first | rfl | cases hd
    simp only [EvalM.logic, run_bind_eq_ok, run_ofOp_eq_ok]
    refine ⟨x, s₁', hx', left, s₁', ⟨hleft, rfl⟩, ?_⟩
    rw [if_pos hd, happly]
    rfl
  · obtain ⟨s₂', hy', htrails₂⟩ := hb (hqa.determined hdet hx) htrails₁ hy
    refine ⟨s₂', ?_, htrails₂⟩
    have happly : o.apply left right = right := by
      cases o <;> cases left <;> first | rfl | exact absurd rfl hd
    simp only [EvalM.logic, run_bind_eq_ok, run_ofOp_eq_ok]
    refine ⟨x, s₁', hx', left, s₁', ⟨hleft, rfl⟩, ?_⟩
    rw [if_neg hd, happly]
    simp only [run_bind_eq_ok, run_ofOp_eq_ok]
    exact ⟨y, s₂', hy', right, s₂', ⟨hright, rfl⟩, rfl⟩

/-- A lazy conditional leaves out a branch that an eager one evaluates. -/
theorem Refines.conditional {c₁ c₂ t₁ t₂ e₁ e₂ : EvalM σ Value} (hqc : c₁.Quiet) (hqt : t₁.Quiet)
    (hqe : e₁.Quiet) (hc : c₁.Refines c₂) (ht : t₁.Refines t₂) (he : e₁.Refines e₂) :
    (EvalM.conditional c₁ t₁ e₁ .eager).Refines (EvalM.conditional c₂ t₂ e₂ .lazy) := by
  intro st₁ st₂ hdet htrails v st₁' hrun
  simp only [EvalM.conditional, run_bind_eq_ok, run_ofOp_eq_ok] at hrun
  obtain ⟨x, s₁, hx, y, s₂, hy, z, s₃, hz, holds, _, ⟨hholds, rfl⟩, hrun⟩ := hrun
  obtain ⟨s₁', hx', htrails₁⟩ := hc hdet htrails hx
  have hdet₁ := hqc.determined hdet hx
  cases holds with
  | true =>
    obtain ⟨rfl, rfl⟩ := run_pure_eq_ok.1 hrun
    obtain ⟨s₂', hy', htrails₂⟩ := ht hdet₁ htrails₁ hy
    refine ⟨s₂', ?_, hqe.trails htrails₂ hz⟩
    simp only [EvalM.conditional, run_bind_eq_ok, run_ofOp_eq_ok]
    exact ⟨x, s₁', hx', true, s₁', ⟨hholds, rfl⟩, hy'⟩
  | false =>
    obtain ⟨rfl, rfl⟩ := run_pure_eq_ok.1 hrun
    obtain ⟨s₃', hz', htrails₃⟩ := he (hqt.determined hdet₁ hy) (hqt.trails htrails₁ hy) hz
    refine ⟨s₃', ?_, htrails₃⟩
    simp only [EvalM.conditional, run_bind_eq_ok, run_ofOp_eq_ok]
    exact ⟨x, s₁', hx', false, s₁', ⟨hholds, rfl⟩, hz'⟩

/-- What the setting makes of one result is trailed. -/
theorem Refines.answer (c : CallFaults) (r : Except EvalFault Value) :
    (c.answer r : EvalM σ Value).Refines (c.answer r) := by
  intro st₁ st₂ _ htrails v st₁' hrun
  cases r with
  | ok w =>
    obtain ⟨rfl, rfl⟩ := run_pure_eq_ok.1 hrun
    exact ⟨st₂, rfl, htrails⟩
  | error f =>
    cases c with
    | propagate => cases hrun
    | sentinel =>
      cases hrun
      exact ⟨_, rfl, htrails.symbols, htrails.diagnostics.append (List.Sublist.refl _)⟩

theorem Refines.call {registry : Registry σ} (hr : registry.Determined) {c₁ c₂ : Config}
    (hc : c₁.callFaults = c₂.callFaults) (site : Nat) (name : String) (args : List Value) :
    (callFunction { registry, config := c₁ } site name args).Refines
      (callFunction { registry, config := c₂ } site name args) := by
  intro st₁ st₂ hdet htrails v st₁' hrun
  obtain ⟨host₁, events₁, -, hrun₁⟩ := run_callFunction registry site name args st₁
  obtain ⟨host₂, events₂, -, hrun₂⟩ := run_callFunction registry site name args st₂
  rw [hrun₁ c₁, hc] at hrun
  rw [hrun₂ c₂, htrails.symbols, callResult_congr hr hdet st₂.host st₁.host]
  refine Refines.answer _ _ ?_ ?_ hrun
  · exact hdet
  · exact ⟨rfl, htrails.diagnostics⟩

theorem Refines.lookup (name : String) : (lookup name : EvalM σ Value).Refines (lookup name) := by
  intro st₁ st₂ _ htrails v st₁' hrun
  rw [run_lookup] at hrun
  obtain ⟨hv, rfl⟩ := Prod.mk.inj hrun
  exact ⟨st₂, by rw [run_lookup, htrails.symbols, hv], htrails⟩

theorem Refines.visit (id : Nat) (kind : NodeKind) :
    (visit id kind : EvalM σ Unit).Refines (visit id kind) := by
  intro st₁ st₂ _ htrails a st₁' hrun
  cases hrun
  exact ⟨_, rfl, htrails.symbols, htrails.diagnostics⟩

theorem Refines.pure (a : α) : (pure a : EvalM σ α).Refines (pure a) := by
  intro st₁ st₂ _ htrails b st₁' hrun
  obtain ⟨rfl, rfl⟩ := run_pure_eq_ok.1 hrun
  exact ⟨st₂, rfl, htrails⟩

theorem Refines.ofOp (x : Except OpFault α) : (ofOp x : EvalM σ α).Refines (ofOp x) := by
  intro st₁ st₂ _ htrails a st₁' hrun
  obtain ⟨rfl, rfl⟩ := run_ofOp_eq_ok.1 hrun
  exact ⟨st₂, rfl, htrails⟩

end EvalM

section

variable {registry : Registry σ} {c₁ c₂ : Config}

/-- Evaluations under one setting for failed calls. -/
theorem EvalM.respects_refines (hr : registry.Determined) (hc : c₁.callFaults = c₂.callFaults) :
    EvalM.Respects { registry, config := c₁ } { registry, config := c₂ }
      fun m₁ m₂ => m₁.Quiet ∧ m₁.Refines m₂ := by
  have hq := EvalM.respects_quiet { registry, config := c₁ }
  exact {
    ret := fun a => ⟨hq.ret a, Refines.pure a⟩
    seq := fun hm hf => ⟨hm.1.bind fun a => (hf a).1, Refines.bind hm.1 hm.2 fun a => (hf a).2⟩
    op := fun x => ⟨hq.op x, Refines.ofOp x⟩
    visit := fun id kind => ⟨hq.visit id kind, Refines.visit id kind⟩
    var := fun name => ⟨hq.var name, Refines.lookup name⟩
    call := fun site name args => ⟨hq.call site name args, Refines.call hr hc site name args⟩ }

/-- Lazy branches against eager ones. -/
theorem EvalM.respectsBranches_refines (env : Env σ) :
    EvalM.RespectsBranches .eager .lazy
      fun m₁ m₂ : EvalM σ Value => m₁.Quiet ∧ m₁.Refines m₂ := by
  have hq := (EvalM.respects_quiet env).branches .eager
  constructor
  · intro a₁ a₂ b₁ b₂ o ha hb
    exact ⟨@hq.logic a₁ a₂ b₁ b₂ o ha.1 hb.1, Refines.logic ha.1 hb.1 ha.2 hb.2 o⟩
  · intro x₁ x₂ t₁ t₂ e₁ e₂ hx ht he
    exact ⟨@hq.conditional x₁ x₂ t₁ t₂ e₁ e₂ hx.1 ht.1 he.1,
      Refines.conditional hx.1 ht.1 he.1 hx.2 ht.2 he.2⟩

/-- **Where the eager evaluation of an expression succeeds, the lazy one does
    with the same value.** -/
theorem Expr.refines_eval (hr : registry.Determined) (hc : c₁.callFaults = c₂.callFaults)
    (h₁ : c₁.conditionals = .eager) (h₂ : c₂.conditionals = .lazy) (next : Nat) (e : Expr) :
    (e.eval { registry, config := c₁ } next).Refines (e.eval { registry, config := c₂ } next) := by
  have hb := EvalM.respectsBranches_refines { registry, config := c₁ }
  rw [← h₁, ← h₂] at hb
  exact (Expr.eval_respects (EvalM.respects_refines hr hc) hb next e).2

theorem Line.refines_eval (hr : registry.Determined) (hc : c₁.callFaults = c₂.callFaults)
    (h₁ : c₁.conditionals = .eager) (h₂ : c₂.conditionals = .lazy) (l : Line) :
    (l.eval { registry, config := c₁ }).Refines (l.eval { registry, config := c₂ }) := by
  have hvisit (id : Nat) (kind : NodeKind) := EvalM.Quiet.visit (σ := σ) id kind
  cases l with
  | expr e =>
    exact EvalM.Refines.bind (hvisit _ _) (.visit _ _) fun _ => e.refines_eval hr hc h₁ h₂ 1
  | assign name e =>
    refine EvalM.Refines.bind (hvisit _ _) (.visit _ _) fun _ =>
      EvalM.Refines.bind (hvisit _ _) (.visit _ _) fun _ =>
      EvalM.Refines.bind (hvisit _ _) (.visit _ _) fun _ =>
      EvalM.Refines.bind (e.quiet_eval _ 1) (e.refines_eval hr hc h₁ h₂ 1) fun v => ?_
    intro st₁ st₂ _ htrails w st₁' hrun
    cases hrun
    exact ⟨_, rfl, congrArg (Symbols.assign · name v) htrails.symbols, htrails.diagnostics⟩

end

/-! ## Lines -/

/-- A session under a setting for conditionals. -/
def Session.withConditionals (s : Session σ) (c : Conditionals) : Session σ :=
  s.withConfig { s.config with conditionals := c }

/-- Whether an outcome is a given integer. -/
instance decidableEqInt (n : Int64) : (r : Except Error Value) → Decidable (r = .ok (.int n))
  | .ok (.int m) => decidable_of_iff (m = n) (by simp)
  | .ok (.float _) | .ok (.str _) | .ok (.bool _) | .ok .none | .ok (.list _) | .ok (.error _)
  | .error _ => isFalse (by simp)

/-- A session without names that records failed calls. -/
def Session.recording : Session Unit :=
  { symbols := .empty
    registry := .standard
    config := { callFaults := .sentinel }
    diagnostics := []
    host := () }

/-- **Lazy conditionals refine eager ones.**  If the results of functions depend
    on their arguments only, a line that succeeds under eager conditionals
    succeeds under lazy ones, with the same value, the same symbol table after
    it, and some of the diagnostics in the same order. -/
theorem Session.evalLine_lazy_of_eager {s : Session σ} (hr : s.registry.Determined)
    (hs : s.symbols.Determined) (source : String) (v : Value)
    (h : ((s.withConditionals .eager).evalLine source).result = .ok v) :
    ((s.withConditionals .lazy).evalLine source).result = .ok v ∧
      ((s.withConditionals .lazy).evalLine source).session.symbols =
        ((s.withConditionals .eager).evalLine source).session.symbols ∧
      ((s.withConditionals .lazy).evalLine source).session.diagnostics.Sublist
        ((s.withConditionals .eager).evalLine source).session.diagnostics := by
  rcases whole_or_error source with ⟨l, hl⟩ | ⟨e, he⟩
  · have hline : (l.eval (s.withConditionals .eager).env).Refines
        (l.eval (s.withConditionals .lazy).env) := by
      refine Line.refines_eval hr ?_ ?_ ?_ l <;> rfl
    have htrails : ((s.withConditionals .eager).scanned source).state.Trails
        ((s.withConditionals .lazy).scanned source).state := ⟨rfl, List.Sublist.refl _⟩
    rw [Session.evalLine_of_whole hl] at h
    rw [Session.evalLine_of_whole hl, Session.evalLine_of_whole hl]
    cases hrun : (l.eval (s.withConditionals .eager).env).run
        ((s.withConditionals .eager).scanned source).state with
    | mk r st₁ =>
      rw [hrun] at h
      cases r with
      | error f => cases h
      | ok w =>
        cases h
        obtain ⟨st₂, hrun', htrails'⟩ := hline hs htrails hrun
        rw [hrun']
        exact ⟨rfl, htrails'.symbols, htrails'.diagnostics⟩
  · rw [Session.evalLine_of_error he] at h
    cases h

/-- The call in the branch that is not taken is recorded under eager
    conditionals only. -/
theorem Session.evalLine_lazy_of_eager_recording :
    let s := Session.recording
    let source := "x = (1 < 2)?(3):(missing(4))"
    (s.registry.Determined ∧ s.symbols.Determined ∧
      ((s.withConditionals .eager).evalLine source).result = .ok (.int 3)) ∧
    (((s.withConditionals .lazy).evalLine source).result = .ok (.int 3) ∧
      ((s.withConditionals .lazy).evalLine source).session.symbols =
        ((s.withConditionals .eager).evalLine source).session.symbols ∧
      ((s.withConditionals .lazy).evalLine source).session.diagnostics.Sublist
        ((s.withConditionals .eager).evalLine source).session.diagnostics) ∧
    ((s.withConditionals .lazy).evalLine source).session.diagnostics.length = 0 ∧
    ((s.withConditionals .eager).evalLine source).session.diagnostics.length = 1 := by
  intro s source
  have hr : s.registry.Determined := Registry.determined_standard
  have hs : s.symbols.Determined := Symbols.determined_empty
  have h : ((s.withConditionals .eager).evalLine source).result = .ok (.int 3) := by decide +kernel
  exact ⟨⟨hr, hs, h⟩, Session.evalLine_lazy_of_eager hr hs source (.int 3) h, by decide +kernel,
    by decide +kernel⟩

end Flowline
