/-
  How a line can fail.

  A line is laid out as a tree in which every node has the payload and the
  children that its kind asks for, so evaluating it meets no malformed node.

  * `EvalM.FailsIn P`: an evaluation fails with the faults of a class only;
  * `EvalFault.Allowed`: the faults of a line under a setting for failed calls;
  * `Line.failsIn_eval`: lines fail with those only;
  * `Session.evalLine_error_kind`: so for the lines of a session, and only an
    error of the grammar has a place.
-/
import Flowline.Proofs.Evaluation
import Flowline.Proofs.Parsing

namespace Flowline

variable {σ : Type}

/-! ## Classes of faults -/

/-- An evaluation fails with the faults of a class only. -/
def EvalM.FailsIn {α : Type} (P : EvalFault → Prop) (m : EvalM σ α) : Prop :=
  ∀ st f, (m.run st).1 = .error f → P f

namespace EvalM.FailsIn

variable {α β : Type} {P : EvalFault → Prop}

theorem bind {m : EvalM σ α} {k : α → EvalM σ β} (hm : m.FailsIn P)
    (hk : ∀ a, (k a).FailsIn P) : (m >>= k).FailsIn P := by
  intro st f hf
  rw [EvalM.run_bind] at hf
  cases hr : m.run st with
  | mk r st' =>
    rw [hr] at hf
    cases r with
    | error g =>
      cases hf
      exact hm st f (by rw [hr])
    | ok a => exact hk a st' f hf

theorem of_ok {m : EvalM σ α} (h : ∀ st, ∃ a, (m.run st).1 = .ok a) : m.FailsIn P := by
  intro st f hf
  obtain ⟨a, ha⟩ := h st
  rw [ha] at hf
  cases hf

end EvalM.FailsIn

/-- The kinds of the faults that a line can meet when it is evaluated. -/
def ErrorKind.ofLines : List ErrorKind :=
  [.undefinedVariable, .unknownFunction, .notCallable, .callFailure, .type, .divisionByZero,
    .overflow]

/-- The faults that a line can end with: those of names, of operators and, if
    failed calls end a line, of calls. -/
def EvalFault.Allowed (c : CallFaults) (f : EvalFault) : Prop :=
  f.kind ∈ ErrorKind.ofLines ∧ (c = .sentinel → f.kind.isCallFault = false)

theorem ErrorKind.mem_ofLines_of_isCallFault {k : ErrorKind} (h : k.isCallFault) :
    k ∈ ErrorKind.ofLines := by
  revert h
  cases k <;> decide

theorem OpFault.allowed (c : CallFaults) (f : OpFault) : (EvalFault.operator f).Allowed c := by
  cases f <;>
    simp [EvalFault.Allowed, EvalFault.kind, OpFault.kind, ErrorKind.ofLines, ErrorKind.isCallFault]

theorem Symbols.allowed_of_valueOf (c : CallFaults) {s : Symbols σ} {name : String}
    {f : EvalFault} (h : s.valueOf name = .error f) : f.Allowed c := by
  unfold Symbols.valueOf at h
  split at h
  next => cases h
  next =>
    cases h
    exact ⟨by simp [EvalFault.kind, ErrorKind.ofLines], fun _ => rfl⟩
  next =>
    cases h
    exact ⟨by simp [EvalFault.kind, ErrorKind.ofLines], fun _ => rfl⟩

/-! ## Lines -/

theorem EvalM.FailsIn.answer (c : CallFaults) {r : Except EvalFault Value}
    (hr : ∀ f, r = .error f → f.kind.isCallFault) :
    (c.answer r : EvalM σ Value).FailsIn (EvalFault.Allowed c) := by
  intro st f hf
  cases r with
  | ok v => cases c <;> cases hf
  | error g =>
    cases c with
    | propagate =>
      cases hf
      exact ⟨ErrorKind.mem_ofLines_of_isCallFault (hr f rfl), nofun⟩
    | sentinel => cases hf

theorem EvalM.respects_failsIn (env : Env σ) :
    EvalM.Respects env env fun m _ => m.FailsIn (EvalFault.Allowed env.config.callFaults) where
  ret a := .of_ok fun _ => ⟨a, rfl⟩
  seq := EvalM.FailsIn.bind
  op x st f hf := by
    cases x with
    | ok a => cases hf
    | error g =>
      cases hf
      exact g.allowed _
  visit _ _ := .of_ok fun _ => ⟨(), rfl⟩
  var name st f hf := by
    rw [run_lookup] at hf
    exact Symbols.allowed_of_valueOf _ hf
  call site name args st f hf := by
    obtain ⟨host, events, -, hrun⟩ := run_callFunction env.registry site name args st
    rw [hrun env.config] at hf
    exact EvalM.FailsIn.answer _ (fun g hg => isCallFault_of_callResult hg) _ f hf

theorem Line.failsIn_eval (env : Env σ) (l : Line) :
    (l.eval env).FailsIn (EvalFault.Allowed env.config.callFaults) := by
  have h := EvalM.respects_failsIn env
  exact l.eval_respects h (h.branches _) fun _ _ => .of_ok fun _ => ⟨(), rfl⟩

theorem located_of_parseTokens_eq_error {ts : List Token} {e : Error}
    (h : parseTokens ts = .error e) : ∃ l c, e.line = some l ∧ e.col = some c := by
  rw [parseTokens_eq_error_iff] at h
  cases hr : read ts with
  | whole l =>
    rw [hr] at h
    cases h
  | trailing l rest =>
    rw [hr] at h
    cases h
    exact ⟨_, _, rfl, rfl⟩
  | broken f =>
    rw [hr] at h
    cases h
    exact ⟨_, _, rfl, rfl⟩

/-- Whether an outcome is a given error. -/
instance decidableEqError {α : Type} (e : Error) : (r : Except Error α) → Decidable (r = .error e)
  | .ok _ => isFalse nofun
  | .error e' => decidable_of_iff (e' = e) (by simp)

/-- **A line fails with an error of the grammar, or of names, calls and
    operators, and never because of its tree.**  If failed calls are recorded,
    no line ends with one.  The errors of the grammar have a line and a column,
    and the others have neither. -/
theorem Session.evalLine_error_kind (s : Session σ) (source : String) (e : Error)
    (h : (s.evalLine source).result = .error e) :
    e.kind ∈ [ErrorKind.grammar, .undefinedVariable, .unknownFunction, .notCallable, .callFailure,
        .type, .divisionByZero, .overflow] ∧
      (s.config.callFaults = .sentinel →
        e.kind ∉ [ErrorKind.unknownFunction, .notCallable, .callFailure]) ∧
      ((∃ l c, e.line = some l ∧ e.col = some c) ↔ e.kind = .grammar) ∧
      (e.kind ≠ .grammar → e.line = none ∧ e.col = none) := by
  rcases whole_or_error source with ⟨l, hl⟩ | ⟨e', he⟩
  · rw [Session.evalLine_of_whole hl] at h
    have hfails := l.failsIn_eval s.env (s.scanned source).state
    cases hr : ((l.eval s.env).run (s.scanned source).state).1 with
    | ok v =>
      rw [hr] at h
      cases h
    | error f =>
      rw [hr] at h
      cases h
      obtain ⟨hkind, hcall⟩ := hfails f hr
      refine ⟨List.mem_cons_of_mem _ hkind, fun hc => ?_, ⟨?_, ?_⟩, fun _ => ⟨rfl, rfl⟩⟩
      · have hnot := hcall hc
        show f.kind ∉ _
        revert hnot
        cases f.kind <;> decide
      · rintro ⟨l, c, hline, -⟩
        cases hline
      · intro hg
        rw [show f.kind = .grammar from hg] at hkind
        exact absurd hkind (by decide)
  · rw [Session.evalLine_of_error he] at h
    cases h
    have hkind : e.kind = .grammar := kind_of_parseTokens_eq_error he
    have hplace := located_of_parseTokens_eq_error he
    rw [hkind]
    exact ⟨by decide, fun _ => by decide, ⟨fun _ => rfl, fun _ => hplace⟩,
      fun hne => absurd rfl hne⟩

/-- A failed call that is recorded leaves a value that cannot be added. -/
theorem Session.evalLine_error_kind_recorded :
    let s : Session Unit := Session.start .none { callFaults := .sentinel } ()
    let e : Error := { kind := .type, message := "Cannot add error and int" }
    (s.evalLine "x = missing(1) + 2").result = .error e ∧
      e.kind ∈ [ErrorKind.grammar, .undefinedVariable, .unknownFunction, .notCallable,
        .callFailure, .type, .divisionByZero, .overflow] ∧
      (s.config.callFaults = .sentinel →
        e.kind ∉ [ErrorKind.unknownFunction, .notCallable, .callFailure]) ∧
      ((∃ l c, e.line = some l ∧ e.col = some c) ↔ e.kind = .grammar) ∧
      (e.kind ≠ .grammar → e.line = none ∧ e.col = none) := by
  intro s e
  have h : (s.evalLine "x = missing(1) + 2").result = .error e := by decide +kernel
  exact ⟨h, Session.evalLine_error_kind s _ e h⟩

end Flowline
