/-
  Lines are atomic.

  * `EvalM.Quiet`: an evaluation binds no name, and forgets no diagnostic;
  * `Expr.quiet_eval`: so for all expressions;
  * `Ast.Assigns`: the line of a store is an assignment to a name;
  * `Session.symbols_evalLine`: a line that fails leaves the symbol table as it
    was, and one that succeeds changes at most the name that it assigns to.
-/
import Flowline.Proofs.Evaluation

namespace Flowline

variable {σ : Type}

/-! ## Quiet evaluations -/

/-- An evaluation binds no name and forgets no diagnostic. -/
def EvalM.Quiet {α : Type} (m : EvalM σ α) : Prop :=
  ∀ st, (m.run st).2.symbols = st.symbols ∧ st.diagnostics <+: (m.run st).2.diagnostics

theorem EvalM.Quiet.bind {α β : Type} {m : EvalM σ α} {f : α → EvalM σ β} (hm : m.Quiet)
    (hf : ∀ a, (f a).Quiet) : (m >>= f).Quiet := by
  intro st
  obtain ⟨hs, hd⟩ := hm st
  rw [EvalM.run_bind]
  cases hr : m.run st with
  | mk r st' =>
    rw [hr] at hs hd
    cases r with
    | error e => exact ⟨hs, hd⟩
    | ok a =>
      obtain ⟨hs', hd'⟩ := hf a st'
      exact ⟨hs'.trans hs, hd.trans hd'⟩

theorem EvalM.Quiet.visit (id : Nat) (kind : NodeKind) :
    (EvalM.visit id kind : EvalM σ Unit).Quiet :=
  fun _ => ⟨rfl, List.prefix_rfl⟩

theorem EvalM.Quiet.answer (c : CallFaults) (r : Except EvalFault Value) :
    (c.answer r : EvalM σ Value).Quiet := by
  intro st
  cases r with
  | ok v => cases c <;> exact ⟨rfl, List.prefix_rfl⟩
  | error f =>
    cases c with
    | propagate => exact ⟨rfl, List.prefix_rfl⟩
    | sentinel => exact ⟨rfl, List.prefix_append _ _⟩

theorem EvalM.respects_quiet (env : Env σ) : EvalM.Respects env env fun m _ => m.Quiet where
  ret _ _ := ⟨rfl, List.prefix_rfl⟩
  seq := EvalM.Quiet.bind
  op x _ := by cases x <;> exact ⟨rfl, List.prefix_rfl⟩
  visit := EvalM.Quiet.visit
  var name st := by
    rw [run_lookup]
    exact ⟨rfl, List.prefix_rfl⟩
  call site name args st := by
    obtain ⟨host, events, -, hrun⟩ := run_callFunction env.registry site name args st
    rw [hrun env.config]
    exact EvalM.Quiet.answer _ _ _

/-- Expressions bind no name. -/
theorem Expr.quiet_eval (env : Env σ) (next : Nat) (e : Expr) : (e.eval env next).Quiet :=
  Expr.eval_respects (EvalM.respects_quiet env) ((EvalM.respects_quiet env).branches _) next e

/-! ## Assignments -/

/-- The line of a store is an assignment. -/
def Ast.IsAssignment (a : Ast) : Prop :=
  ∃ t, a.line? = some t ∧ t.head.kind = .assign

/-- The line of a store is an assignment to a name. -/
def Ast.Assigns (a : Ast) (name : String) : Prop :=
  ∃ head target value, a.line? = some (.node head (.cons .operand (.node target .nil) value)) ∧
    head.kind = .assign ∧ target.kind = .target ∧ target.value = .name name

theorem Tree.Fits.kind_ne_assign : ∀ {t : Tree}, t.Fits → t.head.kind ≠ .assign
  | .node head children, ⟨hhead, _⟩, hk => by
    rw [Tree.head] at hk
    rw [Head.Fits, hk] at hhead
    exact hhead

theorem Line.not_isAssignment_expr (e : Expr) : ¬ (Line.expr e).store.IsAssignment := by
  rintro ⟨t, ht, hk⟩
  rw [Line.line?_store] at ht
  cases ht
  exact (e.fits_tree 1).kind_ne_assign hk

theorem Line.assigns_assign (name : String) (e : Expr) : (Line.assign name e).store.Assigns name :=
  ⟨_, _, _, Line.line?_store _, rfl, rfl, rfl⟩

/-- The symbol table after a line with the given value. -/
def Line.bind (v : Value) (symbols : Symbols σ) : Line → Symbols σ
  | expr _ => symbols
  | assign name _ => symbols.assign name v

/-- A line that fails binds no name, and one that succeeds at most the name
    that it assigns to. -/
theorem Line.symbols_run (env : Env σ) (l : Line) (st : State σ) :
    (∀ f, ((l.eval env).run st).1 = .error f → ((l.eval env).run st).2.symbols = st.symbols) ∧
      ∀ v, ((l.eval env).run st).1 = .ok v →
        ((l.eval env).run st).2.symbols = l.bind v st.symbols := by
  cases l with
  | expr e =>
    have h : ((Line.expr e).eval env).Quiet :=
      EvalM.Quiet.bind (EvalM.Quiet.visit 0 .initial) fun _ => e.quiet_eval env 1
    exact ⟨fun _ _ => (h st).1, fun _ _ => (h st).1⟩
  | assign name e =>
    simp only [Line.eval, EvalM.visit, bindName, EvalM.run_bind, EvalM.run_emit, EvalM.run_modify,
      EvalM.run_pure]
    -- the name is bound after the value is found, and finding it binds none
    have hquiet := fun st => (e.quiet_eval env 1 st).1
    generalize hst : ({ st with events := _ } : State σ) = st'
    have hsymbols : st'.symbols = st.symbols := by rw [← hst]
    have h := hquiet st'
    cases hr : (e.eval env 1).run st' with
    | mk r st'' =>
      rw [hr, hsymbols] at h
      cases r with
      | error f =>
        refine ⟨fun _ _ => h, fun v hv => ?_⟩
        cases hv
      | ok v =>
        refine ⟨fun f hf => ?_, fun w hw => ?_⟩
        · cases hf
        · cases hw
          exact congrArg (Symbols.assign · name v) h

/-! ## Lines -/

/-- **A line is atomic.**  One that fails leaves the symbol table as it was.
    One that succeeds is an assignment, which binds its name to the value of
    the line and touches no other name, or it leaves the table as it was. -/
theorem Session.evalLine_atomic (s : Session σ) (source : String) :
    (∀ e, (s.evalLine source).result = .error e →
      (s.evalLine source).session.symbols = s.symbols) ∧
    ∀ v, (s.evalLine source).result = .ok v → ∃ a, Flowline.parse source = .ok a ∧
      ((∃ x, a.Assigns x ∧ (s.evalLine source).session.symbols = s.symbols.assign x v ∧
        ∀ y, (s.evalLine source).session.symbols.get? y =
          if y = x then some (.value v) else s.symbols.get? y) ∨
      (¬ a.IsAssignment ∧ (s.evalLine source).session.symbols = s.symbols)) := by
  rcases whole_or_error source with ⟨l, hl⟩ | ⟨e, he⟩
  · have hrun := l.symbols_run s.env (s.scanned source).state
    rw [Session.evalLine_of_whole hl]
    generalize (l.eval s.env).run (s.scanned source).state = out at hrun
    obtain ⟨r, st⟩ := out
    obtain ⟨herror, hok⟩ := hrun
    constructor
    · intro e he
      cases r with
      | error f => exact herror f rfl
      | ok v => cases he
    · intro v hv
      cases r with
      | error f => cases hv
      | ok w =>
        cases hv
        have hsymbols : st.symbols = l.bind v s.symbols := hok v rfl
        refine ⟨l.store, parse_eq_ok_iff.2 ⟨l, hl, rfl⟩, ?_⟩
        cases l with
        | expr e => exact Or.inr ⟨Line.not_isAssignment_expr e, hsymbols⟩
        | assign x e =>
          refine Or.inl ⟨x, Line.assigns_assign x e, hsymbols, fun y => ?_⟩
          show st.symbols.get? y = _
          rw [hsymbols]
          exact s.symbols.get?_assign x y v
  · rw [Session.evalLine_of_error he]
    exact ⟨fun _ _ => rfl, nofun⟩

end Flowline
