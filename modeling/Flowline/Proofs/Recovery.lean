/-
  A line that ends at a failed call is the line that records failed calls, cut
  at the first of them.

  * `EvalM.Cuts`: the first evaluation is the second one, cut at the first
    failed call that it records;
  * `Expr.cuts_eval`, `Line.cuts_eval`: so for expressions and lines under the
    two settings;
  * `Session.evalLine_propagate_of_sentinel`: so for the lines of a session.
-/
import Flowline.Proofs.Atomicity

namespace Flowline

variable {σ : Type}

/-! ## Cuts -/

/-- The first evaluation is the second one, cut at the first failed call that
    the second one records. -/
def EvalM.Cuts {α : Type} (m₁ m₂ : EvalM σ α) : Prop :=
  ∀ st, ∃ fs : List EvalFault, (∀ f ∈ fs, f.kind.isCallFault) ∧
    (m₂.run st).2.diagnostics = st.diagnostics ++ fs.map EvalFault.toError ∧
    recovered (m₂.run st).2.events.toList =
      recovered st.events.toList ++ fs.map EvalFault.toError ∧
    match fs with
    | [] => m₁.run st = m₂.run st
    | f :: _ => (m₁.run st).1 = .error f ∧ (m₁.run st).2.diagnostics = st.diagnostics

namespace EvalM.Cuts

variable {α β : Type}

/-- An evaluation that records nothing is not cut. -/
theorem of_silent {m : EvalM σ α} (hd : ∀ st, (m.run st).2.diagnostics = st.diagnostics)
    (he : ∀ st, recovered (m.run st).2.events.toList = recovered st.events.toList) : m.Cuts m :=
  fun st => ⟨[], by simp, by simp [hd], by simp [he], rfl⟩

theorem bind {m₁ m₂ : EvalM σ α} {f₁ f₂ : α → EvalM σ β} (hm : m₁.Cuts m₂)
    (hf : ∀ a, (f₁ a).Cuts (f₂ a)) : (m₁ >>= f₁).Cuts (m₂ >>= f₂) := by
  intro st
  obtain ⟨fs, hfs, hd, he, hcut⟩ := hm st
  rw [EvalM.run_bind, EvalM.run_bind]
  cases hr₂ : m₂.run st with
  | mk r st' =>
    rw [hr₂] at hd he hcut
    cases r with
    | error e =>
      refine ⟨fs, hfs, hd, he, ?_⟩
      cases fs with
      | nil => rw [hcut]
      | cons f rest =>
        cases hr₁ : m₁.run st with
        | mk r₁ st₁ =>
          rw [hr₁] at hcut
          obtain ⟨rfl, hd₁⟩ := hcut
          exact ⟨rfl, hd₁⟩
    | ok a =>
      obtain ⟨gs, hgs, hd', he', hcut'⟩ := hf a st'
      refine ⟨fs ++ gs, ?_, ?_, ?_, ?_⟩
      · exact List.forall_mem_append.2 ⟨hfs, hgs⟩
      · show ((f₂ a).run st').2.diagnostics = _
        rw [hd', hd, List.map_append, List.append_assoc]
      · show recovered ((f₂ a).run st').2.events.toList = _
        rw [he', he, List.map_append, List.append_assoc]
      · cases fs with
        | nil =>
          rw [hcut]
          have hd₀ : st'.diagnostics = st.diagnostics := by simpa using hd
          rw [hd₀] at hcut'
          exact hcut'
        | cons f rest =>
          cases hr₁ : m₁.run st with
          | mk r₁ st₁ =>
            rw [hr₁] at hcut
            obtain ⟨rfl, hd₁⟩ := hcut
            exact ⟨rfl, hd₁⟩

/-- A failed call ends an evaluation or is recorded. -/
theorem call (registry : Registry σ) {c₁ c₂ : Config} (h₁ : c₁.callFaults = .propagate)
    (h₂ : c₂.callFaults = .sentinel) (site : Nat) (name : String) (args : List Value) :
    (callFunction { registry, config := c₁ } site name args).Cuts
      (callFunction { registry, config := c₂ } site name args) := by
  intro st
  obtain ⟨host, events, hevents, hrun⟩ := run_callFunction registry site name args st
  rw [hrun c₁, hrun c₂, h₁, h₂]
  cases hr : callResult registry st.symbols st.host name args with
  | ok v =>
    exact ⟨[], by simp, by simp [CallFaults.answer], by simp [CallFaults.answer, hevents], rfl⟩
  | error f =>
    refine ⟨[f], by simpa using isCallFault_of_callResult hr, rfl, ?_, rfl, rfl⟩
    show recovered (events.push (.recover f.toError)).toList = _
    rw [← hevents]
    simp [recovered]

end EvalM.Cuts

/-- Evaluations that end at failed calls, against those that record them. -/
theorem EvalM.respects_cuts (registry : Registry σ) {c₁ c₂ : Config}
    (h₁ : c₁.callFaults = .propagate) (h₂ : c₂.callFaults = .sentinel) :
    EvalM.Respects { registry, config := c₁ } { registry, config := c₂ } EvalM.Cuts where
  ret _ := .of_silent (fun _ => rfl) fun _ => rfl
  seq := EvalM.Cuts.bind
  op x := by
    cases x with
    | ok a => exact .of_silent (fun _ => rfl) fun _ => rfl
    | error f => exact .of_silent (fun _ => rfl) fun _ => rfl
  visit id kind := .of_silent (fun _ => rfl) fun st => by simp [EvalM.visit, recovered]
  var name := .of_silent (fun st => by rw [run_lookup]) fun st => by rw [run_lookup]
  call := EvalM.Cuts.call registry h₁ h₂

section

variable {registry : Registry σ} {c₁ c₂ : Config} (h₁ : c₁.callFaults = .propagate)
  (h₂ : c₂.callFaults = .sentinel) (hc : c₁.conditionals = c₂.conditionals)
include h₁ h₂ hc

theorem Expr.cuts_eval (next : Nat) (e : Expr) :
    (e.eval { registry, config := c₁ } next).Cuts (e.eval { registry, config := c₂ } next) := by
  have h := EvalM.respects_cuts registry h₁ h₂
  refine Expr.eval_respects h ?_ next e
  show EvalM.RespectsBranches c₁.conditionals c₂.conditionals EvalM.Cuts
  rw [hc]
  exact h.branches c₂.conditionals

theorem Line.cuts_eval (l : Line) :
    (l.eval { registry, config := c₁ }).Cuts (l.eval { registry, config := c₂ }) := by
  have h := EvalM.respects_cuts registry h₁ h₂
  cases l with
  | expr e => exact h.seq (h.visit _ _) fun _ => e.cuts_eval h₁ h₂ hc 1
  | assign name e =>
    refine h.seq (h.visit _ _) fun _ => h.seq (h.visit _ _) fun _ => h.seq (h.visit _ _) fun _ =>
      h.seq (e.cuts_eval h₁ h₂ hc 1) fun v => .of_silent (fun _ => rfl) fun st => ?_
    show recovered (st.events.push (.bind name v)).toList = _
    simp [recovered]

end

/-! ## Lines -/

/-- A session under a setting for failed calls. -/
def Session.withCallFaults (s : Session σ) (c : CallFaults) : Session σ :=
  s.withConfig { s.config with callFaults := c }

/-- **A line that ends at a failed call is the line that records failed calls,
    cut at the first of them.**  The line that records them has the diagnostics
    of the scanner, followed by the failed calls in the order in which it
    recovers from them.  If there are none, the two lines have the same result,
    symbol table and diagnostics.  Otherwise the other line fails with the
    first of them, has the diagnostics of the scanner only, and leaves the
    symbol table as it was. -/
theorem Session.evalLine_propagate_of_sentinel (s : Session σ) (source : String) :
    ∃ fs : List Error, (∀ f ∈ fs, f.kind.isCallFault ∧ f.line = none ∧ f.col = none) ∧
      ((s.withCallFaults .sentinel).evalLine source).session.diagnostics =
        (lex source).diagnostics ++ fs ∧
      recovered ((s.withCallFaults .sentinel).evalLine source).events = fs ∧
      (fs = [] →
        ((s.withCallFaults .propagate).evalLine source).result =
          ((s.withCallFaults .sentinel).evalLine source).result ∧
        ((s.withCallFaults .propagate).evalLine source).session.symbols =
          ((s.withCallFaults .sentinel).evalLine source).session.symbols ∧
        ((s.withCallFaults .propagate).evalLine source).session.diagnostics =
          ((s.withCallFaults .sentinel).evalLine source).session.diagnostics) ∧
      ∀ f rest, fs = f :: rest →
        ((s.withCallFaults .propagate).evalLine source).result = .error f ∧
        ((s.withCallFaults .propagate).evalLine source).session.diagnostics =
          (lex source).diagnostics ∧
        ((s.withCallFaults .propagate).evalLine source).session.symbols = s.symbols := by
  rcases whole_or_error source with ⟨l, hl⟩ | ⟨e, he⟩
  · have hcuts : (l.eval (s.withCallFaults .propagate).env).Cuts
        (l.eval (s.withCallFaults .sentinel).env) := by
      refine Line.cuts_eval ?_ ?_ ?_ l <;> rfl
    obtain ⟨fs, hfs, hd, he, hcut⟩ := hcuts (s.scanned source).state
    have hsymbols := (l.symbols_run (s.withCallFaults .propagate).env (s.scanned source).state).1
    have hstate (c : CallFaults) :
        ((s.withCallFaults c).scanned source).state = (s.scanned source).state := rfl
    rw [Session.evalLine_of_whole hl, Session.evalLine_of_whole hl, hstate, hstate]
    refine ⟨fs.map EvalFault.toError, ?_, hd, he, ?_, ?_⟩
    · intro f hf
      obtain ⟨fault, hfault, rfl⟩ := List.mem_map.1 hf
      exact ⟨hfs fault hfault, rfl, rfl⟩
    · intro hnil
      obtain rfl := List.map_eq_nil_iff.1 hnil
      rw [hcut]
      exact ⟨rfl, rfl, rfl⟩
    · intro f rest hcons
      cases fs with
      | nil => cases hcons
      | cons fault faults =>
        obtain ⟨rfl, -⟩ := List.cons.inj hcons
        obtain ⟨hfault, hd'⟩ := hcut
        refine ⟨?_, hd', hsymbols fault hfault⟩
        show Except.mapError EvalFault.toError _ = _
        rw [hfault]
        rfl
  · rw [Session.evalLine_of_error he, Session.evalLine_of_error he]
    refine ⟨[], ?_, ?_, rfl, fun _ => ⟨rfl, rfl, rfl⟩, ?_⟩
    · intro f hf
      cases hf
    · exact (List.append_nil _).symm
    · intro f rest hfs
      cases hfs

end Flowline
