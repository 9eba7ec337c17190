/-
  What a line shows of its diagnostics.

  * `Line.exists_recorded`: an evaluation adds only failed calls to the
    diagnostics;
  * `Shown source lineno os es`: the warnings among the outputs `os` are those on
    the errors `es`, in order;
  * `runLine_shown`: a line shows what the scanner reports on it and, if it
    succeeds, the failed calls that it recorded;
  * `runLine_showsDiagnostics_iff`: so a line that fails shows none of them.
-/
import Flowline.Command.Run
import Flowline.Proofs.Recovery

namespace Flowline

/-! ## Diagnostics -/

theorem kind_of_mem_diagnosticsFrom {e : Error} :
    ∀ {xs : List Piece} {p : Place}, e ∈ diagnosticsFrom p xs → e.kind = .lexical
  | [], _, h => nomatch h
  | x :: xs, p, h => by
    rw [diagnosticsFrom] at h
    split at h
    next message _ =>
      rcases List.mem_cons.1 h with rfl | h
      · rfl
      · exact kind_of_mem_diagnosticsFrom h
    next => exact kind_of_mem_diagnosticsFrom h

/-- The scanner reports lexical errors. -/
theorem kind_of_mem_diagnostics {source : String} {e : Error}
    (h : e ∈ (lex source).diagnostics) : e.kind = .lexical :=
  kind_of_mem_diagnosticsFrom h

/-- An evaluation records failed calls only. -/
theorem Line.exists_recorded {σ : Type} (env : Env σ) (l : Line) (st : State σ) :
    ∃ fs : List EvalFault, (∀ f ∈ fs, f.kind.isCallFault) ∧
      ((l.eval env).run st).2.diagnostics = st.diagnostics ++ fs.map EvalFault.toError := by
  obtain ⟨registry, conditionals, callFaults⟩ := env
  -- Both settings are read off the cut of the one by the other.
  have hcuts : (l.eval { registry, config := { conditionals, callFaults := .propagate } }).Cuts
      (l.eval { registry, config := { conditionals, callFaults := .sentinel } }) := by
    refine Line.cuts_eval ?_ ?_ ?_ l <;> rfl
  obtain ⟨fs, hfs, hd, -, hcut⟩ := hcuts st
  cases callFaults with
  | sentinel => exact ⟨fs, hfs, hd⟩
  | propagate =>
    refine ⟨[], by simp, ?_⟩
    cases fs with
    | nil => rw [hcut, hd]
    | cons f rest => simpa using hcut.2

end Flowline

namespace Flowline.Command

open Text (Style)

/-! ## Headlines -/

/-- The output is the first line of a warning. -/
def Output.IsWarning (o : Output) : Prop :=
  ∃ e, o = headline .yellow e

/-- The control sequences that a warning starts with. -/
def warningMark : List Char :=
  (Text.control Style.bold.on ++ Text.control Style.yellow.on).toList

/-- A line on the standard error stream that starts otherwise is no warning. -/
theorem not_isWarning_errLine {text : String} (h : ¬ warningMark <+: (text ++ "\n").toList) :
    ¬ (Output.errLine text).IsWarning := by
  rintro ⟨e, he⟩
  rw [headline, Output.errLine, Output.errLine, Output.err.injEq] at he
  apply h
  rw [he]
  simp [warningMark, Style.paint, List.append_assoc]

theorem not_isWarning_out (text : String) : ¬ (Output.out text).IsWarning := by
  rintro ⟨e, he⟩
  cases he

theorem not_isWarning_log (r : Record) : ¬ (Output.log r).IsWarning := by
  rintro ⟨e, he⟩
  cases he

/-- Pointing at a place is no warning by itself. -/
theorem not_isWarning_of_mem_pointAt {e : Error} {source : String} {lineno : Nat} {o : Output}
    (h : o ∈ pointAt e source lineno) : ¬ o.IsWarning := by
  rw [pointAt] at h
  split at h
  next line col _ _ =>
    rcases List.mem_cons.1 h with rfl | h
    · exact not_isWarning_errLine (by simp [warningMark, Style.on, Text.control, toString])
    split at h
    next text _ =>
      simp only [List.mem_cons, List.not_mem_nil, or_false] at h
      rcases h with rfl | rfl
      · exact not_isWarning_errLine (by simp [warningMark, Style.paint, Style.on, Text.control])
      · exact not_isWarning_errLine (by simp [warningMark, Style.paint, Style.on, Text.control])
    next => cases h
  next => cases h

/-- An error that ends a line is not shown as a warning. -/
theorem not_isWarning_of_mem_report {e : Error} {source : String} {lineno : Nat} {o : Output}
    (h : o ∈ report source lineno e) : ¬ o.IsWarning := by
  rcases List.mem_cons.1 h with rfl | h
  · exact not_isWarning_errLine (by simp [warningMark, Style.paint, Style.on, Text.control])
  rcases List.mem_append.1 h with h | h
  · exact not_isWarning_of_mem_pointAt h
  · rw [adviceLines] at h
    split at h
    next => cases h
    next help examples _ =>
      rcases List.mem_cons.1 h with rfl | h
      · exact not_isWarning_errLine (by simp [warningMark, Style.paint, Style.on, Text.control])
      · obtain ⟨x, -, rfl⟩ := List.mem_map.1 h
        exact not_isWarning_errLine (by simp [warningMark, Style.on, Text.control])

/-- The headline of a failed call is not that of a lexical error. -/
theorem headline_ne {e d : Error} (he : e.kind.isCallFault) (hd : d.kind = .lexical) :
    headline .yellow e ≠ headline .yellow d := by
  intro h
  rw [headline, headline, Output.errLine, Output.errLine, Output.err.injEq, hd,
    ← String.toList_inj] at h
  have hkind : e.kind ∈ [ErrorKind.unknownFunction, .notCallable, .callFailure] := by
    revert he
    cases e.kind <;> decide
  simp only [List.mem_cons, List.not_mem_nil, or_false] at hkind
  rcases hkind with hk | hk | hk <;> rw [hk] at h <;> simp [Style.paint, ErrorKind.describe] at h

/-! ## Warnings among outputs -/

/-- The warnings among outputs are those on some errors, in order. -/
inductive Shown (source : String) (lineno : Nat) : List Output → List Error → Prop
  | nil : Shown source lineno [] []
  | other {o : Output} {os : List Output} {es : List Error} (ho : ¬ o.IsWarning)
      (h : Shown source lineno os es) : Shown source lineno (o :: os) es
  | warning (e : Error) {os : List Output} {es : List Error} (h : Shown source lineno os es) :
      Shown source lineno (warn source lineno e ++ os) (e :: es)

namespace Shown

variable {source : String} {lineno : Nat} {os os' : List Output} {es es' : List Error}

theorem append (h : Shown source lineno os es) (h' : Shown source lineno os' es') :
    Shown source lineno (os ++ os') (es ++ es') := by
  induction h with
  | nil => exact h'
  | other ho _ ih => exact .other ho ih
  | warning e _ ih =>
    rw [List.append_assoc]
    exact .warning e ih

theorem of_quiet (h : ∀ o ∈ os, ¬ o.IsWarning) : Shown source lineno os [] := by
  induction os with
  | nil => exact .nil
  | cons o os ih =>
    exact .other (h o List.mem_cons_self) (ih fun o' ho' => h o' (List.mem_cons_of_mem o ho'))

theorem out (text : String) : Shown source lineno [.out text] [] :=
  .other (not_isWarning_out text) .nil

theorem warnings (es : List Error) : Shown source lineno (es.flatMap (warn source lineno)) es := by
  induction es with
  | nil => exact .nil
  | cons e es ih => exact .warning e ih

open Classical in
/-- The first lines of warnings tell on which errors they are. -/
theorem filter_isWarning (h : Shown source lineno os es) :
    os.filter (fun o => o.IsWarning) = es.map (headline .yellow) := by
  induction h with
  | nil => rfl
  | other ho _ ih => rw [List.filter_cons_of_neg (by simpa using ho), ih]
  | @warning e os es _ ih =>
    have hpoint : (pointAt e source lineno).filter (fun o => o.IsWarning) = [] := by
      rw [List.filter_eq_nil_iff]
      intro o ho
      simpa using not_isWarning_of_mem_pointAt ho
    rw [warn, List.cons_append, List.filter_cons_of_pos (by simpa using ⟨e, rfl⟩),
      List.filter_append, hpoint, ih]
    rfl

/-- A failed call is not shown where only lexical errors are. -/
theorem not_mem_of_lexical {e : Error} (h : Shown source lineno os es)
    (h' : Shown source lineno os es') (hes : ∀ d ∈ es, d.kind = .lexical)
    (he : e.kind.isCallFault) : e ∉ es' := by
  intro hmem
  have hheads : es.map (headline .yellow) = es'.map (headline .yellow) := by
    rw [← h.filter_isWarning, ← h'.filter_isWarning]
  have hline : headline .yellow e ∈ es.map (headline .yellow) := by
    rw [hheads]
    exact List.mem_map_of_mem hmem
  obtain ⟨d, hd, heq⟩ := List.mem_map.1 hline
  exact headline_ne he (hes d hd) heq.symm

end Shown

/-! ## Lines -/

theorem not_isWarning_of_mem_events {events : List Event} {o : Output}
    (h : o ∈ events.flatMap eventOutput) : ¬ o.IsWarning := by
  obtain ⟨e, -, ho⟩ := List.mem_flatMap.1 h
  unfold eventOutput at ho
  split at ho
  next text =>
    rw [List.mem_singleton.1 ho]
    exact not_isWarning_out text
  next =>
    obtain ⟨r, -, rfl⟩ := Option.map_eq_some_iff.1 (Option.mem_toList.1 ho)
    exact not_isWarning_log r

/-- A tree shows the failed calls that it recorded if it has a value. -/
theorem runTree_shown {s : Shell} {t : Ast} {fs : List Error} (source : String) (lineno : Nat)
    (hs : ∀ e ∈ s.diagnostics, e.kind.isCallFault = false) (hfs : ∀ f ∈ fs, f.kind.isCallFault)
    (hd : (s.evaluate t).session.diagnostics = s.diagnostics ++ fs) :
    (runTree s t source lineno).session.diagnostics = s.diagnostics ++ fs ∧
      Shown source lineno (runTree s t source lineno).outputs
        (if (runTree s t source lineno).succeeded then fs else []) := by
  have hevents : Shown source lineno ((s.evaluate t).events.flatMap eventOutput) [] :=
    .of_quiet fun _ => not_isWarning_of_mem_events
  cases hr : (s.evaluate t).result with
  | ok v =>
    have hfilter : (s.diagnostics ++ fs).filter (·.kind.isCallFault) = fs := by
      rw [List.filter_append, List.filter_eq_nil_iff.2 (by simpa using hs),
        List.filter_eq_self.2 hfs, List.nil_append]
    have hvalue : Shown source lineno [.outLine v.text] [] := .out _
    simp only [runTree, hr, hd, hfilter, if_true]
    refine ⟨trivial, ?_⟩
    simpa using (hevents.append (.warnings fs)).append hvalue
  | error e =>
    simp only [runTree, hr, hd]
    refine ⟨trivial, ?_⟩
    exact hevents.append (.of_quiet fun _ => not_isWarning_of_mem_report)

/-- What a line writes before it is evaluated. -/
def opening (source : String) (lineno : Nat) : List Output :=
  (parseRecords source).map Output.log ++ (lex source).diagnostics.flatMap (warn source lineno)

theorem opening_shown (source : String) (lineno : Nat) :
    Shown source lineno (opening source lineno) (lex source).diagnostics := by
  have hlog : Shown source lineno ((parseRecords source).map Output.log) [] := by
    refine .of_quiet fun o ho => ?_
    obtain ⟨r, -, rfl⟩ := List.mem_map.1 ho
    exact not_isWarning_log r
  exact hlog.append (.warnings _)

theorem runLine_of_error {showTrees : Bool} {s : Shell} {source : String} {lineno : Nat} {e : Error}
    (h : parse source = .error e) :
    runLine showTrees s source lineno =
      { outputs := opening source lineno ++ report source lineno e
        session := s.scanned source
        succeeded := false } := by
  rw [runLine, Session.parse, h]
  rfl

theorem runLine_of_whole {showTrees : Bool} {s : Shell} {source : String} {lineno : Nat} {l : Line}
    (h : read (lex source).tokens = .whole l) :
    runLine showTrees s source lineno =
      { runTree (s.scanned source) l.store source lineno with
        outputs := opening source lineno ++ (if showTrees then [.out l.store.outline] else []) ++
          (runTree (s.scanned source) l.store source lineno).outputs } := by
  rw [runLine, Session.parse, parse_eq_ok_iff.2 ⟨l, h, rfl⟩]
  rfl

/-- **A line shows what the scanner reports on it and, if it succeeds, the
    failed calls that it recorded.** -/
theorem runLine_shown (showTrees : Bool) (s : Shell) (source : String) (lineno : Nat) :
    ∃ fs : List Error, (∀ f ∈ fs, f.kind.isCallFault) ∧
      (runLine showTrees s source lineno).session.diagnostics = (lex source).diagnostics ++ fs ∧
      Shown source lineno (runLine showTrees s source lineno).outputs
        ((lex source).diagnostics ++
          if (runLine showTrees s source lineno).succeeded then fs else []) := by
  have hopening := opening_shown source lineno
  rcases whole_or_error source with ⟨l, hl⟩ | ⟨e, he⟩
  · obtain ⟨fs, hfs, hd⟩ := l.exists_recorded s.env (s.scanned source).state
    have hrecorded : ((s.scanned source).evaluate l.store).session.diagnostics =
        (lex source).diagnostics ++ fs.map EvalFault.toError := by
      rw [Session.evaluate, Line.evaluate_store]
      exact hd
    have hfaults : ∀ f ∈ fs.map EvalFault.toError, f.kind.isCallFault := by
      intro f hf
      obtain ⟨fault, hfault, rfl⟩ := List.mem_map.1 hf
      exact hfs fault hfault
    obtain ⟨hdiag, htree⟩ := runTree_shown source lineno
      (fun e he => by rw [kind_of_mem_diagnostics he]; rfl) hfaults hrecorded
    have hshape : Shown source lineno (if showTrees then [.out l.store.outline] else []) [] := by
      cases showTrees with
      | true => exact .out _
      | false => exact .nil
    rw [runLine_of_whole hl]
    refine ⟨fs.map EvalFault.toError, hfaults, hdiag, ?_⟩
    simpa using (hopening.append hshape).append htree
  · rw [runLine_of_error he]
    refine ⟨[], by simp, (List.append_nil _).symm, ?_⟩
    exact hopening.append (.of_quiet fun o => not_isWarning_of_mem_report)

/-! ## Shown just once -/

/-- Every diagnostic that a line leaves is shown as a warning, just once. -/
def Run.ShowsDiagnostics (source : String) (lineno : Nat) (r : Run) : Prop :=
  ∃ shown, Shown source lineno r.outputs shown ∧
    ∀ e ∈ r.session.diagnostics, shown.count e = r.session.diagnostics.count e

/-- A line that fails after it recorded a failed call does not show it. -/
theorem not_showsDiagnostics_of_failed {showTrees : Bool} {s : Shell} {source : String}
    {lineno : Nat} (hfail : (runLine showTrees s source lineno).succeeded = false)
    (hcall : ∃ e ∈ (runLine showTrees s source lineno).session.diagnostics,
      e.kind.isCallFault) :
    ¬ (runLine showTrees s source lineno).ShowsDiagnostics source lineno := by
  rintro ⟨shown, hshown, hcount⟩
  obtain ⟨e, he, hkind⟩ := hcall
  obtain ⟨fs, -, -, hlexical⟩ := runLine_shown showTrees s source lineno
  rw [hfail] at hlexical
  have hnot : e ∉ shown := by
    refine hlexical.not_mem_of_lexical hshown (fun d hd => ?_) hkind
    exact kind_of_mem_diagnostics (by simpa using hd)
  have hpos : 0 < shown.count e := by
    rw [hcount e he]
    exact List.count_pos_iff.2 he
  exact hnot (List.count_pos_iff.1 hpos)

/-- **Every diagnostic of a line that succeeds is shown just once.**  A line that
    fails shows the reports of the scanner only, so it shows every diagnostic
    just if it recorded no failed call. -/
theorem runLine_showsDiagnostics_iff (showTrees : Bool) (s : Shell) (source : String)
    (lineno : Nat) :
    (runLine showTrees s source lineno).ShowsDiagnostics source lineno ↔
      (runLine showTrees s source lineno).succeeded ∨
        ∀ e ∈ (runLine showTrees s source lineno).session.diagnostics,
          e.kind.isCallFault = false := by
  constructor
  · intro h
    rcases Bool.eq_false_or_eq_true (runLine showTrees s source lineno).succeeded with hs | hfail
    · exact Or.inl hs
    · refine Or.inr fun e he => Bool.eq_false_iff.2 fun hcall => ?_
      exact not_showsDiagnostics_of_failed hfail ⟨e, he, hcall⟩ h
  · intro h
    obtain ⟨fs, hfs, hd, hshown⟩ := runLine_shown showTrees s source lineno
    refine ⟨_, hshown, fun e _ => ?_⟩
    rcases h with h | h
    · rw [if_pos h, hd]
    · -- Without a failed call on record there is nothing to leave out.
      have hnil : fs = [] := by
        refine List.eq_nil_iff_forall_not_mem.2 fun f hf => ?_
        have hquiet := h f (by rw [hd]; exact List.mem_append_right _ hf)
        rw [hfs f hf] at hquiet
        cases hquiet
      rw [hd, hnil, ite_self]

/-- A failed call that is recorded, and whose value cannot be added, is not shown. -/
theorem not_showsDiagnostics_missing :
    let s : Shell := .start .standard { callFaults := .sentinel } ()
    ¬ (runLine false s "missing(1) + 2" 1).ShowsDiagnostics "missing(1) + 2" 1 := by
  intro s
  exact not_showsDiagnostics_of_failed (by decide +kernel) (by decide +kernel)

end Flowline.Command
