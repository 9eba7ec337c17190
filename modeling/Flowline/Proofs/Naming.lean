/-
  Naming a subexpression changes nothing.

  * `Context`: a line with holes in the places of factors;
  * `Context.exists_read_fill`: with a name in its holes, the line stands for
    one that becomes the line with an expression in parentheses when the
    expression is substituted for the name;
  * `EvalM.substitutes_value`: a name bound to the value of an expression agrees
    with the expression;
  * `Session.evalLine_naming`: so for the lines of a session.
-/
import Flowline.Proofs.Mentions

namespace Flowline

variable {σ : Type}

/-! ## Contexts -/

/-- A line with holes in the places of factors.  The holes are the factors that
    are the variable `hole`. -/
structure Context where
  line : Derivation .line
  hole : String

/-- The line with a factor in its holes. -/
def Context.fill (C : Context) (g : Derivation (.phrase .factor)) : Derivation .line :=
  C.line.subst (Derivation.only C.hole g)

/-- Factors with the same word give the same words. -/
theorem Derivation.yield_only_congr {x : String} {g g' : Derivation (.phrase .factor)}
    (h : g.yield = g'.yield) :
    (fun y => (only x g y).yield) = fun y => (only x g' y).yield := by
  funext y
  unfold only
  split
  next => exact h
  next => rfl

/-- A line with a fresh name in its holes stands for one from which substitution
    gives what the line with an expression in its holes stands for. -/
theorem Context.exists_read_fill {C : Context} {e e' : Derivation (.phrase .expr)} {x : String}
    (hx : .ident x ∉ (C.fill (.group e)).yield) (hnear : e'.Nearest) (he : e'.yield = e.yield)
    {ts₁ ts₂ : List Token} (h₁ : sentence ts₁ = (C.fill (.var x)).yield)
    (h₂ : sentence ts₂ = (C.fill (.group e)).yield) :
    ∃ l, read ts₁ = .whole l ∧ l.body.Uses (fun _ => True) (· ≠ x) ∧
      read ts₂ = .whole (l.subst (Derivation.meanings (Derivation.only x (.group e')))) := by
  obtain ⟨d, hd, hyield⟩ := (C.fill (.var x)).exists_nearest
  -- the word determines the word with the expression, whichever derivation it is taken from
  have hword : (d.subst (Derivation.only x (.group e'))).yield = (C.fill (.group e)).yield := by
    have hgroup : (Derivation.group e').yield = (Derivation.group e).yield := by
      rw [Derivation.yield, Derivation.yield, he]
    calc (d.subst (Derivation.only x (.group e'))).yield
        = expand (fun y => (Derivation.only x (.group e) y).yield) d.yield := by
          rw [Derivation.yield_subst, Derivation.yield_only_congr hgroup]
      _ = ((C.fill (.var x)).subst (Derivation.only x (.group e))).yield := by
          rw [hyield, Derivation.yield_subst]
      _ = (C.fill (.group e)).yield :=
          congrArg Derivation.yield (Derivation.subst_only_var C.line hx)
  have hleft : .ident x ∉ (d.subst (Derivation.only x (.group e'))).yield := by rwa [hword]
  refine ⟨d.meaning, read_eq_whole_iff.2 ⟨d, hd, hyield.trans h₁.symm, rfl⟩, ?_, ?_⟩
  · have hnames : Named (· ≠ x) (d.subst (Derivation.only x (.group e'))).yield := by
      rintro y hy rfl
      exact hleft hy
    exact d.uses_meaning (fun _ _ => trivial) hnames
  · exact read_eq_whole_iff.2 ⟨_, hd.subst (Derivation.nearest_only hnear), hword.trans h₂.symm,
      d.meaning_subst (Derivation.named_only hleft)⟩

/-! ## Values of names -/

section

variable {env : Env σ} {T : Symbols σ}

/-- The tables of two states are given, and nothing else matters. -/
abbrev State.InTables (T₁ T₂ : Symbols σ) : State σ → State σ → Prop :=
  State.Alike T₁ T₂ (fun _ _ => True) (fun _ _ => True)

theorem keptByRecording_true : KeptByRecording fun _ _ => True :=
  fun _ _ _ _ => trivial

/-- If the results of functions depend on the arguments only, an expression has
    the same value wherever it stands. -/
theorem Expr.agree_eval_self (env : Env σ) (hr : env.registry.Determined) (hT : T.Determined)
    (next next' : Nat) {e : Expr} (he : e.Uses (fun _ => True) (fun _ => True)) :
    EvalM.Agree (State.InTables T T) (e.eval env next) (e.eval env next') :=
  Expr.agree_eval env keptByRecording_true (fun _ _ => rfl)
    (fun _ _ => callsAlike_of_determined hr hT rfl) next next' he

/-- **A name that is bound to the value of an expression agrees with the
    expression in a table where it is not.** -/
theorem EvalM.substitutes_value (hr : env.registry.Determined) (hT : T.Determined) {x : String}
    {v : Value} {θ : String → Expr} (hθ : ∀ y, y ≠ x → θ y = .var y)
    (hx : ∀ next st, st.symbols = T → (((θ x).eval env next).run st).1 = .ok v) :
    EvalM.Substitutes env (State.InTables (T.assign x v) T) (fun _ => True) (· ≠ x) θ where
  visit := EvalM.Agree.visit
  call f hf := by
    have hget : (T.assign x v).get? f = T.get? f := by rw [Symbols.get?_assign, if_neg hf]
    exact EvalM.Agree.call keptByRecording_true
      (callsAlike_of_determined hr (hT.assign x v) hget)
  var y _ next next' := by
    by_cases hy : y = x
    · subst hy
      rintro st₁ st₂ ⟨hst₁, hst₂, -, -⟩
      have hbound : st₁.symbols.valueOf y = .ok v := by
        rw [Symbols.valueOf, hst₁, Symbols.get?_assign, if_pos rfl]
      have hname : ((Expr.var y).eval env next).run st₁ =
          (.ok v, { st₁ with events := st₁.events.push (.visit next .var) }) := by
        simp only [Expr.eval, EvalM.visit, EvalM.run_bind, EvalM.run_emit, run_lookup, hbound]
      have hquiet := ((θ y).quiet_eval env next' st₂).1
      rw [hname, hx next' st₂ hst₂]
      exact ⟨rfl, hst₁, hquiet.trans hst₂, trivial, trivial⟩
    · rw [hθ y hy]
      refine (EvalM.Agree.visit next next' .var).bind fun _ => EvalM.Agree.lookup ?_
      rw [Symbols.get?_assign, if_neg hy]

end

/-! ## Lines -/

@[simp] theorem Session.env_evalLine (s : Session σ) (source : String) :
    (s.evalLine source).session.env = s.env := by
  rcases whole_or_error source with ⟨l, hl⟩ | ⟨e, he⟩
  · rw [Session.evalLine_of_whole hl]
    rfl
  · rw [Session.evalLine_of_error he]
    rfl

@[simp] theorem Line.bind_subst (θ : String → Expr) (l : Line) (v : Value) (T : Symbols σ) :
    (l.subst θ).bind v T = l.bind v T := by
  cases l <;> rfl

/-- Parentheses evaluate to what stands in them. -/
theorem Expr.run_group (env : Env σ) (next : Nat) (e : Expr) (st : State σ) :
    ((Expr.group e).eval env next).run st = (e.eval env next).run
      { st with events := st.events.push (.visit (next + e.size) .group) } := by
  simp [EvalM.visit]

/-- An assignment succeeds with the value that its expression has, wherever the
    expression stands. -/
theorem Session.result_eval_of_assign {s : Session σ} (hr : s.registry.Determined)
    (hs : s.symbols.Determined) {source : String} {x : String} {e : Expr}
    (he : e.Uses (fun _ => True) (fun _ => True))
    (hl : read (lex source).tokens = .whole (.assign x e)) {v : Value}
    (h : (s.evalLine source).result = .ok v) (next : Nat) (st : State σ)
    (hst : st.symbols = s.symbols) : ((e.eval s.env next).run st).1 = .ok v := by
  obtain ⟨events, hline, -⟩ := (Line.assign x e).run_eval s.env (s.scanned source).state
  have hvalue : (((Line.assign x e).eval s.env).run (s.scanned source).state).1 = .ok v := by
    rw [Session.evalLine_of_whole hl] at h
    cases hr : (((Line.assign x e).eval s.env).run (s.scanned source).state).1 with
    | ok w =>
      rw [hr] at h
      cases h
      rfl
    | error f =>
      rw [hr] at h
      cases h
  have hstates : State.InTables s.symbols s.symbols st
      { (s.scanned source).state with events } := ⟨hst, rfl, trivial, trivial⟩
  obtain ⟨hsame, -⟩ := Expr.agree_eval_self s.env hr hs next 1 he hstates
  exact hsame.trans (hline.symm.trans hvalue)

/-- A line with a name for an expression has the result, after the name is
    assigned, that the line with the expression in parentheses has before. -/
theorem Session.evalLine_subst {s : Session σ} (hr : s.registry.Determined)
    (hs : s.symbols.Determined) {naming named written : String} {x : String} {e : Expr} {l : Line}
    {θ : String → Expr} (hself : θ x = .group e) (hother : ∀ y, y ≠ x → θ y = .var y)
    (he : e.Uses (fun _ => True) (fun _ => True)) (huses : l.body.Uses (fun _ => True) (· ≠ x))
    (hnaming : read (lex naming).tokens = .whole (.assign x e))
    (hnamed : read (lex named).tokens = .whole l)
    (hwritten : read (lex written).tokens = .whole (l.subst θ)) {v : Value}
    (h : (s.evalLine naming).result = .ok v) :
    ((s.evalLine naming).session.evalLine named).result = (s.evalLine written).result ∧
      ∀ y, y ≠ x → ((s.evalLine naming).session.evalLine named).session.symbols.get? y =
        (s.evalLine written).session.symbols.get? y := by
  have hvalue := Session.result_eval_of_assign hr hs he hnaming h
  have htable : (s.evalLine naming).session.symbols = s.symbols.assign x v :=
    (s.symbols_evalLine hnaming).2 v h
  have henv : (s.evalLine naming).session.env = s.env := s.env_evalLine naming
  generalize (s.evalLine naming).session = s' at htable henv
  have hgroup (next : Nat) (st : State σ) (hst : st.symbols = s.symbols) :
      (((θ x).eval s.env next).run st).1 = .ok v := by
    rw [hself, Expr.run_group]
    exact hvalue next _ hst
  -- in the table after the assignment the name agrees with the expression in parentheses
  have hbody : EvalM.Agree (State.InTables (s.symbols.assign x v) s.symbols)
      (l.body.eval s.env 1) ((l.subst θ).body.eval s.env 1) := by
    rw [Line.body_subst]
    exact Expr.agree_subst (EvalM.substitutes_value hr hs hother hgroup) 1 1 l.body huses
  have hstates : State.InTables (s.symbols.assign x v) s.symbols (s'.scanned named).state
      (s.scanned written).state := ⟨htable, rfl, trivial, trivial⟩
  have hresult : (s'.evalLine named).result = (s.evalLine written).result := by
    rw [Session.evalLine_of_whole hnamed, Session.evalLine_of_whole hwritten, henv]
    exact congrArg (Except.mapError EvalFault.toError) (Line.agree hbody hstates).1
  refine ⟨hresult, fun y hy => ?_⟩
  obtain ⟨herror₁, hok₁⟩ := s'.symbols_evalLine hnamed
  obtain ⟨herror₂, hok₂⟩ := s.symbols_evalLine hwritten
  have hget : s'.symbols.get? y = s.symbols.get? y := by
    rw [htable, Symbols.get?_assign, if_neg hy]
  cases hw : (s.evalLine written).result with
  | error f => rw [herror₁ f (hresult.trans hw), herror₂ f hw, hget]
  | ok w =>
    rw [hok₁ w (hresult.trans hw), hok₂ w hw, Line.bind_subst]
    exact Line.get?_bind_congr hget l w

/-- **Naming a subexpression changes nothing.**  If the results of functions
    depend on the arguments only and the line `x = e` succeeds, a line with the
    fresh name `x` in its holes has the result after it that the line with `e`
    in parentheses has before it, and both leave every other name alike. -/
theorem Session.evalLine_naming {s : Session σ} (hr : s.registry.Determined)
    (hs : s.symbols.Determined) (C : Context) (e : Derivation (.phrase .expr)) (x : String)
    (hx : .ident x ∉ (C.fill (.group e)).yield) {naming named written : String}
    (hnaming : sentence (lex naming).tokens = (Derivation.assign x e).yield)
    (hnamed : sentence (lex named).tokens = (C.fill (.var x)).yield)
    (hwritten : sentence (lex written).tokens = (C.fill (.group e)).yield) (v : Value)
    (h : (s.evalLine naming).result = .ok v) :
    ((s.evalLine naming).session.evalLine named).result = (s.evalLine written).result ∧
      ∀ y, y ≠ x → ((s.evalLine naming).session.evalLine named).session.symbols.get? y =
        (s.evalLine written).session.symbols.get? y := by
  obtain ⟨e', hnear, he⟩ := e.exists_nearest
  obtain ⟨l, hl, huses, hl'⟩ := C.exists_read_fill hx hnear he hnamed hwritten
  have hassign : read (lex naming).tokens = .whole (.assign x e'.meaning) := by
    refine read_eq_whole_iff.2 ⟨.assign x e', hnear, ?_, rfl⟩
    rw [hnaming, Derivation.yield, Derivation.yield, he]
  have huses' : e'.meaning.Uses (fun _ => True) (fun _ => True) :=
    e'.uses_meaning (θ := .var) (fun _ _ => trivial) (fun _ _ => trivial)
  exact Session.evalLine_subst hr hs Derivation.meanings_only_self
    (fun _ => Derivation.meanings_only_of_ne) huses' huses hassign hl hl' h

/-- A sum under a power. -/
theorem Session.evalLine_naming_power :
    let s := Session.recording
    let ofSum (a : Derivation (.phrase (.chain .additive))) : Derivation (.phrase .expr) :=
      .or (.chain .or (.chain .and (.chain .compare a (.noOperator _)) (.noOperator _))
        (.noOperator _))
    let e := ofSum (.chain .additive (.term (.chain .term (.base (.int 1)) (.noOperator _)))
      (.operator .additive (.arith .plus) rfl (.chain .term (.base (.int 2)) (.noOperator _))
        (.noOperator _)))
    let C : Context :=
      { line := .assign "y" (ofSum (.chain .additive
          (.term (.chain .term (.raised (.var "h") (.int 2)) (.noOperator _))) (.noOperator _)))
        hole := "h" }
    (s.registry.Determined ∧ s.symbols.Determined ∧ .ident "x" ∉ (C.fill (.group e)).yield ∧
      sentence (lex "x = 1 + 2").tokens = (Derivation.assign "x" e).yield ∧
      sentence (lex "y = x ^ 2").tokens = (C.fill (.var "x")).yield ∧
      sentence (lex "y = (1 + 2) ^ 2").tokens = (C.fill (.group e)).yield ∧
      (s.evalLine "x = 1 + 2").result = .ok (.int 3)) ∧
    (((s.evalLine "x = 1 + 2").session.evalLine "y = x ^ 2").result =
        (s.evalLine "y = (1 + 2) ^ 2").result ∧
      ∀ y, y ≠ "x" →
        ((s.evalLine "x = 1 + 2").session.evalLine "y = x ^ 2").session.symbols.get? y =
          (s.evalLine "y = (1 + 2) ^ 2").session.symbols.get? y) ∧
    (s.evalLine "y = (1 + 2) ^ 2").result = .ok (.int 9) := by
  intro s ofSum e C
  have hr : s.registry.Determined := Registry.determined_standard
  have hs : s.symbols.Determined := Symbols.determined_empty
  have hx : .ident "x" ∉ (C.fill (.group e)).yield := by
    simp [C, e, ofSum, Context.fill, Derivation.only]
  have hnaming : sentence (lex "x = 1 + 2").tokens = (Derivation.assign "x" e).yield := by
    simp only [e, ofSum]
    cbv
  have hnamed : sentence (lex "y = x ^ 2").tokens = (C.fill (.var "x")).yield := by
    simp only [C, ofSum]
    cbv
  have hwritten : sentence (lex "y = (1 + 2) ^ 2").tokens = (C.fill (.group e)).yield := by
    simp only [C, e, ofSum]
    cbv
  have h : (s.evalLine "x = 1 + 2").result = .ok (.int 3) := by decide +kernel
  exact ⟨⟨hr, hs, hx, hnaming, hnamed, hwritten, h⟩,
    Session.evalLine_naming hr hs C e "x" hx hnaming hnamed hwritten (.int 3) h, by decide +kernel⟩

end Flowline
