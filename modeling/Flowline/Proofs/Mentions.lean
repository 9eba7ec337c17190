/-
  A line depends only on the names it mentions.

  * `EvalM.Agree J`: two evaluations give the same result in states that `J`
    relates, and leave states that it relates;
  * `State.Alike`: states with two given tables;
  * `Expr.agree_subst`: an expression and the one after a substitution, if the
    variables do;
  * `Expr.agree_eval`: an expression in states with tables that bind its names
    to the same;
  * `Session.evalLine_mentions`: the lines of two sessions.
-/
import Flowline.Proofs.Substitution
import Flowline.Proofs.Laziness
import Mathlib

namespace Flowline

variable {σ : Type}

/-! ## Agreement -/

/-- In related states, both evaluations give the same result and leave related
    states. -/
def EvalM.Agree (J : State σ → State σ → Prop) {α : Type} (m₁ m₂ : EvalM σ α) : Prop :=
  ∀ ⦃st₁ st₂⦄, J st₁ st₂ → (m₁.run st₁).1 = (m₂.run st₂).1 ∧ J (m₁.run st₁).2 (m₂.run st₂).2

namespace EvalM.Agree

variable {J : State σ → State σ → Prop}

theorem bind {α β : Type} {m₁ m₂ : EvalM σ α} {f₁ f₂ : α → EvalM σ β} (hm : Agree J m₁ m₂)
    (hf : ∀ a, Agree J (f₁ a) (f₂ a)) : Agree J (m₁ >>= f₁) (m₂ >>= f₂) := by
  intro st₁ st₂ hJ
  obtain ⟨hresult, hJ⟩ := hm hJ
  rw [run_bind, run_bind]
  generalize m₁.run st₁ = out₁ at hresult hJ
  generalize m₂.run st₂ = out₂ at hresult hJ
  obtain ⟨r₁, st₁'⟩ := out₁
  obtain ⟨r₂, st₂'⟩ := out₂
  obtain rfl : r₁ = r₂ := hresult
  cases r₁ with
  | ok a => exact hf a hJ
  | error f => exact ⟨rfl, hJ⟩

theorem steps (J : State σ → State σ → Prop) : RespectsSteps (Agree J) where
  ret _ _ _ hJ := ⟨rfl, hJ⟩
  seq := bind
  op x _ _ hJ := by cases x <;> exact ⟨rfl, hJ⟩

end EvalM.Agree

/-- The steps in which the evaluations of an expression and of the one after a
    substitution agree, wherever their nodes are numbered from. -/
structure EvalM.Substitutes (env : Env σ) (J : State σ → State σ → Prop) (V F : String → Prop)
    (θ : String → Expr) : Prop where
  visit : ∀ id id' kind, Agree J (visit id kind) (visit id' kind)
  var : ∀ y, V y → ∀ next next', Agree J ((Expr.var y).eval env next) ((θ y).eval env next')
  call : ∀ f, F f → ∀ site site' args,
    Agree J (callFunction env site f args) (callFunction env site' f args)

section

variable {env : Env σ} {J : State σ → State σ → Prop} {V F : String → Prop} {θ : String → Expr}

mutual
/-- **Where variables agree with what is substituted for them, so does an
    expression with the one after the substitution.** -/
theorem Expr.agree_subst (h : EvalM.Substitutes env J V F θ) (next next' : Nat) :
    ∀ e : Expr, e.Uses V F → EvalM.Agree J (e.eval env next) ((e.subst θ).eval env next')
  | .int _, _ | .float _, _ | .str _, _ =>
    (h.visit _ _ _).bind fun _ => (EvalM.Agree.steps J).ret _
  | .var y, hy => h.var y hy next next'
  | .call f args, hu =>
    (h.visit _ _ _).bind fun _ =>
      (Expr.agree_substAll h next next' args hu.2).bind fun vals => h.call f hu.1 _ _ vals
  | .group e, hu => (h.visit _ _ _).bind fun _ => e.agree_subst h next next' hu
  | .binary o l r, hu =>
    (h.visit _ _ _).bind fun _ =>
      (EvalM.Agree.steps J).binary ((EvalM.Agree.steps J).branches _)
        (l.agree_subst h next next' hu.1) (r.agree_subst h _ _ hu.2) o
  | .ternary c t e, hu | .ifElse c t e, hu =>
    (h.visit _ _ _).bind fun _ =>
      ((EvalM.Agree.steps J).branches _).conditional (c.agree_subst h next next' hu.1)
        (t.agree_subst h _ _ hu.2.1) (e.agree_subst h _ _ hu.2.2)
  | .ifThen c t, hu =>
    (h.visit _ _ _).bind fun _ =>
      ((EvalM.Agree.steps J).branches _).conditional (c.agree_subst h next next' hu.1)
        (t.agree_subst h _ _ hu.2) ((EvalM.Agree.steps J).ret _)

theorem Expr.agree_substAll (h : EvalM.Substitutes env J V F θ) (next next' : Nat) :
    ∀ es : List Expr, Expr.AllUse V F es →
      EvalM.Agree J (Expr.evalAll env next es) (Expr.evalAll env next' (Expr.substAll θ es))
  | [], _ => (EvalM.Agree.steps J).ret _
  | e :: es, hu =>
    (e.agree_subst h next next' hu.1).bind fun _ =>
      (Expr.agree_substAll h _ _ es hu.2).bind fun _ => (EvalM.Agree.steps J).ret _
end

end

/-! ## Two tables -/

/-- States with two given tables, and with hosts and diagnostics in given
    relations. -/
structure State.Alike (T₁ T₂ : Symbols σ) (H : σ → σ → Prop) (D : List Error → List Error → Prop)
    (st₁ st₂ : State σ) : Prop where
  symbols₁ : st₁.symbols = T₁
  symbols₂ : st₂.symbols = T₂
  host : H st₁.host st₂.host
  diagnostics : D st₁.diagnostics st₂.diagnostics

/-- What a call of a name comes to is the same with hosts in a relation, and the
    relation holds after it. -/
def CallsAlike (registry : Registry σ) (T₁ T₂ : Symbols σ) (H : σ → σ → Prop) (name : String) :
    Prop :=
  ∀ args h₁ h₂, H h₁ h₂ →
    callResult registry T₁ h₁ name args = callResult registry T₂ h₂ name args ∧
      H (callHost registry T₁ h₁ name args) (callHost registry T₂ h₂ name args)

section

variable {registry : Registry σ} {T₁ T₂ : Symbols σ} {name : String}

/-- A name that is bound to the same stands for the same function. -/
theorem resolve_congr (h : T₁.get? name = T₂.get? name) :
    resolve registry T₁ name = resolve registry T₂ name := by
  rw [resolve, resolve, h]

theorem callsAlike_eq (registry : Registry σ) (h : T₁.get? name = T₂.get? name) :
    CallsAlike registry T₁ T₂ Eq name := by
  rintro args host _ rfl
  rw [callResult, callResult, callHost, callHost, resolve_congr h]
  exact ⟨rfl, rfl⟩

/-- The hosts do not matter if results depend on the arguments only. -/
theorem callsAlike_of_determined (hr : registry.Determined) (hT : T₁.Determined)
    (h : T₁.get? name = T₂.get? name) : CallsAlike registry T₁ T₂ (fun _ _ => True) name := by
  intro args h₁ h₂ _
  have hhost : callResult registry T₁ h₁ name args = callResult registry T₁ h₂ name args :=
    callResult_congr hr hT h₁ h₂ name args
  obtain ⟨htable, -⟩ := callsAlike_eq registry h args h₂ h₂ rfl
  exact ⟨hhost.trans htable, trivial⟩

end

/-- The relation holds on when the same error is recorded on both sides. -/
def KeptByRecording (D : List Error → List Error → Prop) : Prop :=
  ∀ ds₁ ds₂ e, D ds₁ ds₂ → D (ds₁ ++ [e]) (ds₂ ++ [e])

section

variable {env : Env σ} {T₁ T₂ : Symbols σ} {H : σ → σ → Prop} {D : List Error → List Error → Prop}

namespace EvalM.Agree

theorem visit (id id' : Nat) (kind : NodeKind) :
    Agree (State.Alike T₁ T₂ H D) (EvalM.visit id kind) (EvalM.visit id' kind) :=
  fun _ _ hJ => ⟨rfl, hJ.symbols₁, hJ.symbols₂, hJ.host, hJ.diagnostics⟩

theorem answer (hD : KeptByRecording D) (c : CallFaults) (r : Except EvalFault Value) :
    Agree (State.Alike T₁ T₂ H D) (c.answer r) (c.answer r) := by
  intro st₁ st₂ hJ
  cases r with
  | ok v => cases c <;> exact ⟨rfl, hJ⟩
  | error f =>
    cases c with
    | propagate => exact ⟨rfl, hJ⟩
    | sentinel => exact ⟨rfl, hJ.symbols₁, hJ.symbols₂, hJ.host, hD _ _ _ hJ.diagnostics⟩

theorem call (hD : KeptByRecording D) {name : String}
    (hname : CallsAlike env.registry T₁ T₂ H name) (site site' : Nat) (args : List Value) :
    Agree (State.Alike T₁ T₂ H D) (callFunction env site name args)
      (callFunction env site' name args) := by
  rintro st₁ st₂ ⟨rfl, rfl, hhost, hdiagnostics⟩
  obtain ⟨hresult, hhost⟩ := hname args _ _ hhost
  rw [run_callFunction_eq env.registry env.config, run_callFunction_eq env.registry env.config,
    hresult]
  exact answer hD env.config.callFaults _ ⟨rfl, rfl, hhost, hdiagnostics⟩

theorem lookup {name : String} (h : T₁.get? name = T₂.get? name) :
    Agree (State.Alike T₁ T₂ H D) (Flowline.lookup name) (Flowline.lookup name) := by
  intro st₁ st₂ hJ
  rw [run_lookup, run_lookup, Symbols.valueOf, Symbols.valueOf, hJ.symbols₁, hJ.symbols₂, h]
  exact ⟨rfl, hJ⟩

end EvalM.Agree

/-- **The evaluation of an expression depends on what its names are bound to
    only.** -/
theorem Expr.agree_eval (env : Env σ) (hD : KeptByRecording D) {V F : String → Prop}
    (hV : ∀ y, V y → T₁.get? y = T₂.get? y) (hF : ∀ f, F f → CallsAlike env.registry T₁ T₂ H f)
    (next next' : Nat) {e : Expr} (he : e.Uses V F) :
    EvalM.Agree (State.Alike T₁ T₂ H D) (e.eval env next) (e.eval env next') := by
  have h : EvalM.Substitutes env (State.Alike T₁ T₂ H D) V F Expr.var := {
    visit := EvalM.Agree.visit
    var := fun y hy next next' => (EvalM.Agree.visit _ _ _).bind fun _ => .lookup (hV y hy)
    call := fun f hf => EvalM.Agree.call hD (hF f hf) }
  simpa using Expr.agree_subst h next next' e he

end

/-! ## Lines -/

/-- The result of a line is that of its expression, and so are the diagnostics. -/
theorem Line.run_eval (env : Env σ) (l : Line) (st : State σ) : ∃ events,
    ((l.eval env).run st).1 = ((l.body.eval env 1).run { st with events }).1 ∧
      ((l.eval env).run st).2.diagnostics =
        ((l.body.eval env 1).run { st with events }).2.diagnostics := by
  cases l with
  | expr e => exact ⟨_, rfl, rfl⟩
  | assign x e =>
    let events := ((st.events.push (.visit 0 .initial)).push (.visit (1 + e.size + 1) .assign)).push
      (.visit (1 + e.size) .target)
    refine ⟨events, ?_⟩
    simp only [Line.eval, Line.body, EvalM.visit, bindName, EvalM.run_bind, EvalM.run_emit,
      EvalM.run_modify, EvalM.run_pure]
    generalize (e.eval env 1).run { st with events } = out
    obtain ⟨r, st'⟩ := out
    cases r <;> exact ⟨rfl, rfl⟩

/-- Lines agree if their expressions do. -/
theorem Line.agree {env : Env σ} {T₁ T₂ : Symbols σ} {H : σ → σ → Prop}
    {D : List Error → List Error → Prop} {l₁ l₂ : Line}
    (h : EvalM.Agree (State.Alike T₁ T₂ H D) (l₁.body.eval env 1) (l₂.body.eval env 1))
    {st₁ st₂ : State σ} (hst : State.Alike T₁ T₂ H D st₁ st₂) :
    ((l₁.eval env).run st₁).1 = ((l₂.eval env).run st₂).1 ∧
      D ((l₁.eval env).run st₁).2.diagnostics ((l₂.eval env).run st₂).2.diagnostics := by
  obtain ⟨events₁, hresult₁, hdiagnostics₁⟩ := l₁.run_eval env st₁
  obtain ⟨events₂, hresult₂, hdiagnostics₂⟩ := l₂.run_eval env st₂
  have hst' : State.Alike T₁ T₂ H D { st₁ with events := events₁ } { st₂ with events := events₂ } :=
    ⟨hst.symbols₁, hst.symbols₂, hst.host, hst.diagnostics⟩
  obtain ⟨hresult, hout⟩ := h hst'
  rw [hresult₁, hresult₂, hdiagnostics₁, hdiagnostics₂]
  exact ⟨hresult, hout.diagnostics⟩

/-- The same line leaves a name alike in two tables, or binds it in both. -/
theorem Line.get?_bind_congr {T₁ T₂ : Symbols σ} {y : String} (h : T₁.get? y = T₂.get? y)
    (l : Line) (v : Value) : (l.bind v T₁).get? y = (l.bind v T₂).get? y := by
  cases l with
  | expr e => exact h
  | assign x e =>
    show (T₁.assign x v).get? y = (T₂.assign x v).get? y
    rw [Symbols.get?_assign, Symbols.get?_assign, h]

/-- A line binds no name but its target. -/
theorem Line.get?_bind_of_ne {T : Symbols σ} {y : String} {l : Line} {v : Value}
    (h : ∀ x e, l = .assign x e → y ≠ x) : (l.bind v T).get? y = T.get? y := by
  cases l with
  | expr e => rfl
  | assign x e =>
    show (T.assign x v).get? y = _
    rw [Symbols.get?_assign, if_neg (h x e rfl)]

/-- The symbol table after a line is as its result says. -/
theorem Session.symbols_evalLine (s : Session σ) {source : String} {l : Line}
    (hl : read (lex source).tokens = .whole l) :
    (∀ e, (s.evalLine source).result = .error e →
      (s.evalLine source).session.symbols = s.symbols) ∧
    ∀ v, (s.evalLine source).result = .ok v →
      (s.evalLine source).session.symbols = l.bind v s.symbols := by
  obtain ⟨herror, hok⟩ := l.symbols_run s.env (s.scanned source).state
  rw [Session.evalLine_of_whole hl]
  generalize (l.eval s.env).run (s.scanned source).state = out at herror hok
  obtain ⟨r, st⟩ := out
  cases r with
  | error f => exact ⟨fun _ _ => herror f rfl, nofun⟩
  | ok w =>
    refine ⟨nofun, fun v hv => ?_⟩
    cases hv
    exact hok w rfl

/-- The name occurs as a token of the text. -/
def Mentions (source : String) (name : String) : Prop :=
  .ident name ∈ words (lex source).tokens

/-- The names of a line are those that its text mentions. -/
theorem named_of_sentence {source : String} {w : List Kind}
    (h : w = sentence (lex source).tokens) : Named (Mentions source) w := by
  subst h
  exact fun _ hy => List.takeWhile_subset _ hy

theorem Derivation.mem_yield_of_assign {d : Derivation .line} {x : String} {e : Expr}
    (h : d.meaning = .assign x e) : .ident x ∈ d.yield := by
  cases d with
  | assignFlow | assign =>
    cases h
    exact List.mem_cons_self
  | bare => cases h

/-- **A line depends only on the names it mentions.**  In two sessions with the
    same functions and settings, the symbol tables of which bind these names to
    the same, it has the same result and the same diagnostics; the tables go on
    to bind them to the same, and keep what they bind the other names to.  The
    hosts may differ if the results of functions depend on the arguments
    only. -/
theorem Session.evalLine_mentions {s₁ s₂ : Session σ} (hregistry : s₁.registry = s₂.registry)
    (hconfig : s₁.config = s₂.config) (source : String)
    (hhost : s₁.host = s₂.host ∨ (s₁.registry.Determined ∧ s₁.symbols.Determined))
    (hnames : ∀ x, Mentions source x → s₁.symbols.get? x = s₂.symbols.get? x) :
    (s₁.evalLine source).result = (s₂.evalLine source).result ∧
    (s₁.evalLine source).session.diagnostics = (s₂.evalLine source).session.diagnostics ∧
    (∀ x, Mentions source x → (s₁.evalLine source).session.symbols.get? x =
      (s₂.evalLine source).session.symbols.get? x) ∧
    ∀ x, ¬ Mentions source x →
      (s₁.evalLine source).session.symbols.get? x = s₁.symbols.get? x ∧
      (s₂.evalLine source).session.symbols.get? x = s₂.symbols.get? x := by
  rcases whole_or_error source with ⟨l, hl⟩ | ⟨e, he⟩
  · obtain ⟨d, -, hyield, rfl⟩ := read_eq_whole_iff.1 hl
    have hd := named_of_sentence hyield
    obtain ⟨H, hH, hcalls⟩ : ∃ H : σ → σ → Prop, H s₁.host s₂.host ∧
        ∀ x, Mentions source x → CallsAlike s₁.registry s₁.symbols s₂.symbols H x := by
      rcases hhost with hhost | ⟨hr, hs⟩
      · exact ⟨Eq, hhost, fun x hx => callsAlike_eq _ (hnames x hx)⟩
      · exact ⟨_, trivial, fun x hx => callsAlike_of_determined hr hs (hnames x hx)⟩
    have henv : s₁.env = s₂.env := by rw [env, env, hregistry, hconfig]
    have huses : d.meaning.body.Uses (Mentions source) (Mentions source) :=
      d.uses_meaning (θ := .var) hd (by simpa using hd)
    have hrecording : KeptByRecording Eq := fun _ _ e h => congrArg (· ++ [e]) h
    have hst : State.Alike s₁.symbols s₂.symbols H Eq (s₁.scanned source).state
        (s₂.scanned source).state := ⟨rfl, rfl, hH, rfl⟩
    obtain ⟨hresult, hdiagnostics⟩ := Line.agree
      (Expr.agree_eval s₁.env hrecording hnames hcalls 1 1 huses) hst
    have hresult : (s₁.evalLine source).result = (s₂.evalLine source).result := by
      rw [Session.evalLine_of_whole hl, Session.evalLine_of_whole hl, ← henv, hresult]
    refine ⟨hresult, ?_, ?_⟩
    · rw [Session.evalLine_of_whole hl, Session.evalLine_of_whole hl, ← henv]
      exact hdiagnostics
    · obtain ⟨herror₁, hok₁⟩ := s₁.symbols_evalLine hl
      obtain ⟨herror₂, hok₂⟩ := s₂.symbols_evalLine hl
      cases hr : (s₂.evalLine source).result with
      | error e =>
        rw [herror₁ e (hresult.trans hr), herror₂ e hr]
        exact ⟨hnames, fun _ _ => ⟨rfl, rfl⟩⟩
      | ok v =>
        rw [hok₁ v (hresult.trans hr), hok₂ v hr]
        refine ⟨fun x hx => Line.get?_bind_congr (hnames x hx) _ v, fun x hx => ?_⟩
        have hkeep (T : Symbols σ) : (d.meaning.bind v T).get? x = T.get? x := by
          refine Line.get?_bind_of_ne fun y e hy => ?_
          rintro rfl
          exact hx (hd x (Derivation.mem_yield_of_assign hy))
        exact ⟨hkeep _, hkeep _⟩
  · rw [Session.evalLine_of_error he, Session.evalLine_of_error he]
    exact ⟨rfl, rfl, hnames, fun _ _ => ⟨rfl, rfl⟩⟩

/-- A name that is not mentioned may be bound on one side only, and the hosts
    may differ. -/
theorem Session.evalLine_mentions_hosts :
    let s₁ : Session Nat :=
      { symbols := Symbols.empty.assign "x" (.int 1)
        registry := .standard
        config := {}
        diagnostics := []
        host := 0 }
    let s₂ : Session Nat := { s₁ with symbols := s₁.symbols.assign "z" (.int 9), host := 5 }
    let source := "y = max(x, 2)"
    (s₁.registry = s₂.registry ∧ s₁.config = s₂.config ∧
      (s₁.host = s₂.host ∨ (s₁.registry.Determined ∧ s₁.symbols.Determined)) ∧
      ∀ x, Mentions source x → s₁.symbols.get? x = s₂.symbols.get? x) ∧
    (s₁.evalLine source).result = .ok (.int 2) ∧
    (s₁.evalLine source).result = (s₂.evalLine source).result ∧
    (s₁.evalLine source).session.diagnostics = (s₂.evalLine source).session.diagnostics ∧
    (∀ x, Mentions source x → (s₁.evalLine source).session.symbols.get? x =
      (s₂.evalLine source).session.symbols.get? x) ∧
    ∀ x, ¬ Mentions source x →
      (s₁.evalLine source).session.symbols.get? x = s₁.symbols.get? x ∧
      (s₂.evalLine source).session.symbols.get? x = s₂.symbols.get? x := by
  intro s₁ s₂ source
  have hhost : s₁.host = s₂.host ∨ (s₁.registry.Determined ∧ s₁.symbols.Determined) :=
    Or.inr ⟨Registry.determined_standard, Symbols.determined_empty.assign _ _⟩
  have hwords : words (lex source).tokens = [.ident "y", .mark .equal, .ident "max", .mark .lparen,
      .ident "x", .mark .comma, .int 2, .mark .rparen, .eof] := by
    simp only [source]
    cbv
  have hnames : ∀ x, Mentions source x → s₁.symbols.get? x = s₂.symbols.get? x := by
    intro x hx
    have hz : x ≠ "z" := by
      rintro rfl
      simp [Mentions, hwords] at hx
    exact (if_neg hz).symm.trans (s₁.symbols.get?_assign "z" x (.int 9)).symm
  have hregistry : s₁.registry = s₂.registry := rfl
  have hconfig : s₁.config = s₂.config := rfl
  exact ⟨⟨hregistry, hconfig, hhost, hnames⟩, by decide +kernel,
    Session.evalLine_mentions hregistry hconfig source hhost hnames⟩

end Flowline
