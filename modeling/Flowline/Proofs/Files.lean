/-
  A file is its lines, evaluated in order in one session.

  * `Text.isBlankLine_iff`, `Text.lines_eq_singleton`: blank lines, and texts of
    a single line;
  * `line_of_mem_diagnostics`, `line_of_parse_eq_error`: what is reported on a
    text without a line feed is reported on its first line;
  * `Row`, `evalLines`: lines with what comes of them, one after another;
  * `Row.written`, `Row.complaints`: what a line writes to the two streams;
  * `Proper`, `Row.runLine_eq`, `runLines_eq`: running lines that are neither
    empty nor split writes this of each of them;
  * `evalLines_filter`, `outcomes_of_lines`: lines that fail do not count for
    the others;
  * `execute_file`: so for the command with the name of a file.
-/
import Flowline.Command.Execute
import Flowline.Proofs.Warnings
import Flowline.Proofs.Faults
import Flowline.Proofs.Lookahead
import Mathlib.Data.List.Basic
import Mathlib.Data.List.TakeWhile

namespace Flowline

/-! ## Lines of a text -/

namespace Text

/-- A line is blank just if nothing is left of it when it is trimmed. -/
theorem isBlankLine_iff {s : String} : isBlankLine s ↔ trim s = "" := by
  have hsplit := List.takeWhile_append_dropWhile (p := isBlank) (l := s.toList)
  rw [isBlankLine, trim, ← String.toList_inj, String.toList_ofList, trimChars,
    String.toList_empty, List.reverse_eq_nil_iff, List.dropWhile_eq_nil_iff, List.all_eq_true]
  constructor
  · intro h c hc
    exact h c ((List.dropWhile_sublist isBlank).subset (List.mem_reverse.1 hc))
  · intro h c hc
    rw [← hsplit, List.mem_append] at hc
    rcases hc with hc | hc
    · exact List.mem_takeWhile_imp hc
    · exact h c (List.mem_reverse.2 hc)

theorem newline_notMem_of_mem_lineChars {cs l : List Char} (h : l ∈ lineChars cs) : '\n' ∉ l := by
  fun_induction lineChars cs generalizing l with
  | case1 => cases h
  | case2 cs ih | case3 cs ih =>
    rcases List.mem_cons.1 h with rfl | h
    · exact List.not_mem_nil
    · exact ih h
  | case4 c cs hc _ _ ih =>
    rw [List.mem_singleton.1 h, List.mem_singleton]
    exact fun heq => hc heq.symm
  | case5 c cs hc _ l' ls hls ih =>
    rw [hls] at ih
    rcases List.mem_cons.1 h with rfl | h
    · rw [List.mem_cons, not_or]
      exact ⟨fun heq => hc heq.symm, ih List.mem_cons_self⟩
    · exact ih (List.mem_cons_of_mem _ h)

/-- A line holds no line feed. -/
theorem newline_notMem_of_mem_lines {s line : String} (h : line ∈ lines s) :
    '\n' ∉ line.toList := by
  obtain ⟨l, hl, rfl⟩ := List.mem_map.1 h
  rw [String.toList_ofList]
  exact newline_notMem_of_mem_lineChars hl

theorem lineChars_eq_singleton {cs : List Char} (hne : cs ≠ []) (h : '\n' ∉ cs) :
    lineChars cs = [cs] := by
  fun_induction lineChars cs with
  | case1 => exact absurd rfl hne
  | case2 cs ih | case3 cs ih => simp at h
  | case4 c cs hc hcr hnil ih =>
    cases cs with
    | nil => rfl
    | cons d ds =>
      rw [List.mem_cons, not_or] at h
      rw [ih (List.cons_ne_nil d ds) h.2] at hnil
      cases hnil
  | case5 c cs hc hcr l ls hls ih =>
    cases cs with
    | nil => cases hls
    | cons d ds =>
      rw [List.mem_cons, not_or] at h
      rw [ih (List.cons_ne_nil d ds) h.2] at hls
      cases hls
      rfl

/-- A text that is not empty and holds no line feed is its only line. -/
theorem lines_eq_singleton {s : String} (hne : s ≠ "") (h : '\n' ∉ s.toList) : lines s = [s] := by
  have hne' : s.toList ≠ [] := fun hnil => hne (String.toList_inj.1 hnil)
  rw [lines, lineChars_eq_singleton hne' h, List.map_singleton, String.ofList_toList]

end Text

/-! ## Places on the first line -/

theorem Place.line_after {cs : List Char} (h : '\n' ∉ cs) (p : Place) :
    (p.after cs).line = p.line := by
  induction cs generalizing p with
  | nil => rfl
  | cons c cs ih =>
    rw [List.mem_cons, not_or] at h
    have hnext : (p.next c).line = p.line := by
      rw [Place.next, if_neg (Ne.symm h.1)]
    exact (ih h.2 _).trans hnext

theorem line_of_mem_tokensFrom {t : Token} : ∀ {xs : List Piece} {p : Place},
    '\n' ∉ xs.flatMap Piece.chars → t ∈ tokensFrom p xs → t.place.line = p.line
  | [], p, _, h => by
    rw [List.mem_singleton.1 h]
  | x :: xs, p, hxs, h => by
    rw [List.flatMap_cons, List.mem_append, not_or] at hxs
    have hrest (h : t ∈ tokensFrom (p.after x.chars) xs) : t.place.line = p.line :=
      (line_of_mem_tokensFrom hxs.2 h).trans (Place.line_after hxs.1 p)
    rw [tokensFrom] at h
    split at h
    next =>
      rcases List.mem_cons.1 h with rfl | h
      · rfl
      · exact hrest h
    next => exact hrest h

theorem line_of_mem_diagnosticsFrom {e : Error} : ∀ {xs : List Piece} {p : Place},
    '\n' ∉ xs.flatMap Piece.chars → e ∈ diagnosticsFrom p xs → e.line = some p.line
  | x :: xs, p, hxs, h => by
    rw [List.flatMap_cons, List.mem_append, not_or] at hxs
    have hrest (h : e ∈ diagnosticsFrom (p.after x.chars) xs) : e.line = some p.line :=
      (line_of_mem_diagnosticsFrom hxs.2 h).trans (congrArg some (Place.line_after hxs.1 p))
    rw [diagnosticsFrom] at h
    split at h
    next =>
      rcases List.mem_cons.1 h with rfl | h
      · rfl
      · exact hrest h
    next => exact hrest h

/-- Reading stops at a token, or at the start of a text without any. -/
theorem line_stopPlace {ts rest : List Token} (hts : ∀ t ∈ ts, t.place.line = 1)
    (hrest : rest ⊆ ts) : (stopPlace ts rest).1 = 1 := by
  rw [stopPlace]
  split
  next t ht =>
    rcases Option.or_eq_some_iff.1 ht with hhead | ⟨-, hlast⟩
    · exact hts t (hrest (List.mem_of_head? hhead))
    · exact hts t (List.mem_of_getLast? hlast)
  next => rfl

section

variable {source : String} (hsource : '\n' ∉ source.toList)
include hsource

theorem newline_notMem_pieces : '\n' ∉ (pieces source.toList).flatMap Piece.chars := by
  rwa [chars_pieces]

theorem line_of_mem_tokens {t : Token} (h : t ∈ (lex source).tokens) : t.place.line = 1 :=
  line_of_mem_tokensFrom (newline_notMem_pieces hsource) h

/-- The scanner reports on the first line. -/
theorem line_of_mem_diagnostics {e : Error} (h : e ∈ (lex source).diagnostics) :
    e.line = some 1 :=
  line_of_mem_diagnosticsFrom (newline_notMem_pieces hsource) h

/-- So does the parser. -/
theorem line_of_parse_eq_error {e : Error} (h : parse source = .error e) : e.line = some 1 := by
  have hts := fun t => @line_of_mem_tokens source hsource t
  have h : parseTokens (lex source).tokens = .error e := h
  rw [parseTokens_eq_error_iff, read] at h
  generalize (lex source).tokens = ts at h hts
  obtain ⟨pre, hpre⟩ := Parser.exists_append_left_line ts
  have hleft : Parser.left (Parser.line ts) ⊆ ts := by
    intro t ht
    rw [hpre]
    exact List.mem_append_right _ ht
  cases hl : Parser.line ts with
  | error f =>
    rw [hl] at h hleft
    cases h
    exact congrArg some (line_stopPlace hts hleft)
  | ok p =>
    obtain ⟨l, rest⟩ := p
    rw [hl] at h hleft
    dsimp only at h
    split at h
    next => cases h
    next =>
      cases h
      exact congrArg some (line_stopPlace hts hleft)

end

/-! ## Sessions after a failed line -/

namespace Session

/-- The diagnostics of the line before do not count. -/
theorem evalLine_withDiagnostics {σ : Type} (s : Session σ) (ds : List Error) (source : String) :
    ({ s with diagnostics := ds } : Session σ).evalLine source = s.evalLine source :=
  rfl

/-- A text that is laid out is evaluated as its tree. -/
theorem evalLine_of_parse {σ : Type} {s : Session σ} {source : String} {t : Ast}
    (h : Flowline.parse source = .ok t) : s.evalLine source = (s.scanned source).evaluate t := by
  rw [evalLine, parse, h]
  rfl

/-- If the host has no state, a line that fails changes the diagnostics only. -/
theorem session_evalLine_of_error {s : Session Unit} {source : String} {e : Error}
    (h : (s.evalLine source).result = .error e) :
    ∃ ds, (s.evalLine source).session = { s with diagnostics := ds } := by
  rcases whole_or_error source with ⟨l, hl⟩ | ⟨e', he⟩
  · have hsymbols := (l.symbols_run s.env (s.scanned source).state).1
    rw [evalLine_of_whole hl] at h ⊢
    generalize (l.eval s.env).run (s.scanned source).state = out at h hsymbols
    obtain ⟨r, st⟩ := out
    cases r with
    | ok v => cases h
    | error f =>
      refine ⟨st.diagnostics, ?_⟩
      rw [withState, hsymbols f rfl]
      rfl
  · rw [evalLine_of_error he]
    exact ⟨(lex source).diagnostics, rfl⟩

end Session

namespace Command

/-! ## Rows -/

/-- A line with its number, and what comes of it. -/
structure Row where
  number : Nat
  source : String
  outcome : Outcome Unit Value

/-- Evaluate lines in order, in one session. -/
def evalLines (s : Shell) : List (Nat × String) → List Row
  | [] => []
  | (number, source) :: lines =>
    let outcome := s.evalLine source
    { number, source, outcome } :: evalLines outcome.session lines

namespace Row

/-- The line has a value. -/
def Succeeded (r : Row) : Prop :=
  ∃ v, r.outcome.result = .ok v

/-- The tree of the line, if it has one. -/
def tree (r : Row) : String :=
  match parse r.source with
  | .ok t => t.outline
  | .error _ => ""

/-- The value of the line, if it has one. -/
def answer (r : Row) : String :=
  match r.outcome.result with
  | .ok v => v.text ++ "\n"
  | .error _ => ""

/-- What a line writes to the standard output: its tree if that is asked for,
    then what it prints, then its value. -/
def written (showTrees : Bool) (r : Row) : String :=
  (if showTrees then r.tree else "") ++ r.outcome.printed ++ r.answer

/-- The place of a problem, if it has one: on the line with this number. -/
def placed (r : Row) (e : Error) : List Output :=
  match e.line, e.col with
  | some _, some col =>
    let gutter := padLeft 3 (toString r.number) ++ " | "
    let indent := String.ofList (List.replicate (gutter.length + (col - 1)) ' ')
    [.errLine s!"  --> line {r.number}, column {col}",
     .errLine (Text.Style.brightBlack.paint gutter ++ r.source),
     .errLine (Text.Style.red.paint (indent ++ "^"))]
  | _, _ => []

/-- A problem in a colour, with its place. -/
def problem (r : Row) (colour : Text.Style) (e : Error) : List Output :=
  headline colour e :: r.placed e

/-- What is wrong with the line in the end: the failed calls that it recorded,
    or the error that it ends with. -/
def verdict (r : Row) : List Output :=
  match r.outcome.result with
  | .ok _ =>
    (r.outcome.session.diagnostics.filter (·.kind.isCallFault)).flatMap (r.problem .yellow)
  | .error e => r.problem .red e ++ adviceLines e

/-- What a line writes to the standard error stream: what the scanner reports,
    then what is wrong in the end. -/
def complaints (r : Row) : List Output :=
  (lex r.source).diagnostics.flatMap (r.problem .yellow) ++ r.verdict

end Row

/-! ## Outputs of lines -/

/-- The output is a line on the standard error stream, and no log record. -/
def Output.isErr : Output → Bool
  | err _ => true
  | out _ | log _ => false

/-- What some outputs write to the standard output. -/
def stdoutOf (os : List Output) : String :=
  String.join (os.map Output.toOut)

/-- The lines on the standard error stream among some outputs. -/
def errorsOf (os : List Output) : List Output :=
  os.filter Output.isErr

@[simp] theorem stdoutOf_append (os os' : List Output) :
    stdoutOf (os ++ os') = stdoutOf os ++ stdoutOf os' := by
  rw [stdoutOf, List.map_append, String.join_append]
  rfl

@[simp] theorem errorsOf_append (os os' : List Output) :
    errorsOf (os ++ os') = errorsOf os ++ errorsOf os' :=
  List.filter_append ..

/-- Outputs that write to the standard error stream only. -/
def ToErr (os : List Output) : Prop :=
  ∀ o ∈ os, o.isErr

theorem ToErr.nil : ToErr [] :=
  List.forall_mem_nil _

theorem ToErr.append {os os' : List Output} (h : ToErr os) (h' : ToErr os') : ToErr (os ++ os') :=
  List.forall_mem_append.2 ⟨h, h'⟩

theorem ToErr.cons {os : List Output} (text : String) (h : ToErr os) :
    ToErr (.errLine text :: os) :=
  List.forall_mem_cons.2 ⟨rfl, h⟩

theorem ToErr.flatMap {α : Type} {xs : List α} {f : α → List Output} (h : ∀ x, ToErr (f x)) :
    ToErr (xs.flatMap f) := by
  intro o ho
  obtain ⟨x, -, hx⟩ := List.mem_flatMap.1 ho
  exact h x o hx

theorem ToErr.errorsOf {os : List Output} (h : ToErr os) : errorsOf os = os :=
  List.filter_eq_self.2 h

theorem stdoutOf_eq_empty {os : List Output} (h : ∀ o ∈ os, o.toOut = "") : stdoutOf os = "" := by
  induction os with
  | nil => rfl
  | cons o os ih =>
    obtain ⟨ho, hos⟩ := List.forall_mem_cons.1 h
    rw [stdoutOf, List.map_cons, String.join_cons, ho, String.empty_append]
    exact ih hos

theorem ToErr.stdoutOf {os : List Output} (h : ToErr os) : stdoutOf os = "" := by
  refine stdoutOf_eq_empty fun o ho => ?_
  cases o with
  | err text => rfl
  | out text | log r => exact absurd (h _ ho) Bool.false_ne_true

theorem toErr_pointAt (e : Error) (source : String) (lineno : Nat) :
    ToErr (pointAt e source lineno) := by
  rw [pointAt]
  split
  next =>
    refine .cons _ ?_
    split
    next => exact .cons _ (.cons _ .nil)
    next => exact .nil
  next => exact .nil

theorem toErr_warn (source : String) (lineno : Nat) (e : Error) : ToErr (warn source lineno e) :=
  .cons _ (toErr_pointAt e source lineno)

theorem toErr_adviceLines (e : Error) : ToErr (adviceLines e) := by
  rw [adviceLines]
  split
  next => exact .nil
  next =>
    refine .cons _ fun o ho => ?_
    obtain ⟨x, -, rfl⟩ := List.mem_map.1 ho
    rfl

theorem toErr_report (source : String) (lineno : Nat) (e : Error) :
    ToErr (report source lineno e) :=
  .cons _ ((toErr_pointAt e source lineno).append (toErr_adviceLines e))

/-- Log records are neither. -/
theorem outputs_logs (rs : List Record) :
    stdoutOf (rs.map Output.log) = "" ∧ errorsOf (rs.map Output.log) = [] := by
  constructor
  · refine stdoutOf_eq_empty fun o ho => ?_
    obtain ⟨r, -, rfl⟩ := List.mem_map.1 ho
    rfl
  · refine List.filter_eq_nil_iff.2 fun o ho => ?_
    obtain ⟨r, -, rfl⟩ := List.mem_map.1 ho
    exact Bool.false_ne_true

/-- Events write what they print. -/
theorem outputs_events (es : List Event) :
    stdoutOf (es.flatMap eventOutput) = String.join (es.map Event.printed) ∧
      errorsOf (es.flatMap eventOutput) = [] := by
  have hevent (e : Event) :
      stdoutOf (eventOutput e) = e.printed ∧ errorsOf (eventOutput e) = [] := by
    cases e with
    | print text => exact ⟨by simp [stdoutOf, eventOutput, Output.toOut, Event.printed], rfl⟩
    | call site name args found => cases found <;> exact ⟨rfl, rfl⟩
    | visit | recover | bind => exact ⟨rfl, rfl⟩
  induction es with
  | nil => exact ⟨rfl, rfl⟩
  | cons e es ih =>
    rw [List.flatMap_cons, stdoutOf_append, errorsOf_append, List.map_cons, String.join_cons,
      (hevent e).1, (hevent e).2, ih.1, ih.2]
    exact ⟨rfl, rfl⟩

/-! ## Lines -/

/-- The text is a line of its own: not empty, and without a line feed. -/
def Proper (source : String) : Prop :=
  source ≠ "" ∧ '\n' ∉ source.toList

/-- The errors that the evaluation of a line ends with or records have no
    place. -/
theorem line_of_evalLine {s : Shell} {source : String} {t : Ast} (h : parse source = .ok t) :
    (∀ e, (s.evalLine source).result = .error e → e.line = none) ∧
    ∀ e ∈ (s.evalLine source).session.diagnostics, e.kind.isCallFault → e.line = none := by
  obtain ⟨l, hl, -⟩ := parse_eq_ok_iff.1 h
  obtain ⟨fs, -, hd⟩ := l.exists_recorded s.env (s.scanned source).state
  rw [Session.evalLine_of_whole hl]
  generalize (l.eval s.env).run (s.scanned source).state = out at hd
  obtain ⟨result, st⟩ := out
  constructor
  · intro e he
    cases result with
    | ok v => cases he
    | error f =>
      cases he
      rfl
  · intro e he hcall
    have he : e ∈ st.diagnostics := he
    rw [hd, List.mem_append] at he
    rcases he with he | he
    · rw [kind_of_mem_diagnostics he] at hcall
      cases hcall
    · obtain ⟨f, -, rfl⟩ := List.mem_map.1 he
      rfl

namespace Row

variable {r : Row} (hr : Proper r.source)
include hr

/-- A place on a proper line is shown on the line of the file. -/
theorem pointAt_eq {e : Error} (he : ∀ l, e.line = some l → l = 1) :
    pointAt e r.source r.number = r.placed e := by
  obtain ⟨kind, message, line, col⟩ := e
  cases line with
  | none => rfl
  | some l =>
    obtain rfl := he l rfl
    cases col with
    | none => rfl
    | some c =>
      simp only [pointAt, placed, Text.lines_eq_singleton hr.1 hr.2, Nat.add_sub_cancel]
      rfl

theorem warn_eq {e : Error} (he : ∀ l, e.line = some l → l = 1) :
    warn r.source r.number e = r.problem .yellow e :=
  congrArg (headline .yellow e :: ·) (pointAt_eq hr he)

theorem report_eq {e : Error} (he : ∀ l, e.line = some l → l = 1) :
    report r.source r.number e = r.problem .red e ++ adviceLines e :=
  congrArg (headline .red e :: · ++ adviceLines e) (pointAt_eq hr he)

theorem flatMap_warn_eq {es : List Error} (hes : ∀ e ∈ es, ∀ l, e.line = some l → l = 1) :
    es.flatMap (warn r.source r.number) = es.flatMap (r.problem .yellow) :=
  List.flatMap_congr fun e he => warn_eq hr (hes e he)

theorem outputs_opening :
    stdoutOf (opening r.source r.number) = "" ∧
      errorsOf (opening r.source r.number) =
        (lex r.source).diagnostics.flatMap (r.problem .yellow) := by
  obtain ⟨hout, herr⟩ := outputs_logs (parseRecords r.source)
  have hwarn : ToErr ((lex r.source).diagnostics.flatMap (warn r.source r.number)) :=
    .flatMap (toErr_warn r.source r.number)
  rw [opening, stdoutOf_append, errorsOf_append, hout, herr, hwarn.stdoutOf, hwarn.errorsOf,
    flatMap_warn_eq hr fun e he l hl => ?_]
  · exact ⟨rfl, rfl⟩
  · rw [line_of_mem_diagnostics hr.2 he, Option.some.injEq] at hl
    exact hl.symm

/-- Evaluating the tree of a line writes what it prints and what comes of it. -/
theorem runTree_eq {s : Shell} {t : Ast} (hs : r.outcome = s.evaluate t)
    (herror : ∀ e, r.outcome.result = .error e → e.line = none)
    (hrecorded : ∀ e ∈ r.outcome.session.diagnostics, e.kind.isCallFault → e.line = none) :
    let run := runTree s t r.source r.number
    run.session = r.outcome.session ∧ (run.succeeded ↔ r.Succeeded) ∧
      stdoutOf run.outputs = r.outcome.printed ++ r.answer ∧ errorsOf run.outputs = r.verdict := by
  obtain ⟨hout, herr⟩ := outputs_events (s.evaluate t).events
  have hline {e : Error} (he : e.line = none) : ∀ l, e.line = some l → l = 1 := by
    intro l hl
    rw [he] at hl
    cases hl
  rw [hs] at herror hrecorded
  rw [runTree, Succeeded, answer, verdict, hs, Outcome.printed]
  cases hr' : (s.evaluate t).result with
  | ok v =>
    have hwarn : ToErr (((s.evaluate t).session.diagnostics.filter (·.kind.isCallFault)).flatMap
        (warn r.source r.number)) := .flatMap (toErr_warn r.source r.number)
    have hfirst : ∀ e ∈ (s.evaluate t).session.diagnostics.filter (·.kind.isCallFault),
        ∀ l, e.line = some l → l = 1 := by
      intro e he
      obtain ⟨he, hcall⟩ := List.mem_filter.1 he
      exact hline (hrecorded e he hcall)
    refine ⟨rfl, by simp, ?_, ?_⟩
    · rw [stdoutOf_append, stdoutOf_append, hout, hwarn.stdoutOf, String.append_empty]
      rfl
    · rw [errorsOf_append, errorsOf_append, herr, hwarn.errorsOf, flatMap_warn_eq hr hfirst]
      exact List.append_nil _
  | error e =>
    have hreport := toErr_report r.source r.number e
    refine ⟨rfl, by simp, ?_, ?_⟩
    · rw [stdoutOf_append, hout, hreport.stdoutOf]
    · rw [errorsOf_append, herr, hreport.errorsOf, report_eq hr (hline (herror e hr'))]
      rfl

/-- Running a line writes what its row says. -/
theorem runLine_eq (showTrees : Bool) {s : Shell} (hs : r.outcome = s.evalLine r.source) :
    let run := runLine showTrees s r.source r.number
    run.session = r.outcome.session ∧ (run.succeeded ↔ r.Succeeded) ∧
      stdoutOf run.outputs = r.written showTrees ∧ errorsOf run.outputs = r.complaints := by
  obtain ⟨hout, herr⟩ := outputs_opening hr
  rw [written, complaints, tree]
  cases hp : parse r.source with
  | error e =>
    have hline : ∀ l, e.line = some l → l = 1 := by
      intro l hl
      rw [line_of_parse_eq_error hr.2 hp, Option.some.injEq] at hl
      exact hl.symm
    have hreport := toErr_report r.source r.number e
    rw [Succeeded, answer, verdict, hs, Session.evalLine_of_error hp, runLine_of_error hp]
    refine ⟨rfl, by simp, ?_, ?_⟩
    · rw [stdoutOf_append, hout, hreport.stdoutOf, ite_self]
      rfl
    · rw [errorsOf_append, herr, hreport.errorsOf, report_eq hr hline]
  | ok t =>
    have hrun : runLine showTrees s r.source r.number =
        { runTree (s.scanned r.source) t r.source r.number with
          outputs := opening r.source r.number ++ (if showTrees then [.out t.outline] else []) ++
            (runTree (s.scanned r.source) t r.source r.number).outputs } := by
      rw [runLine, Session.parse, hp]
      rfl
    have htree : stdoutOf (if showTrees then [.out t.outline] else []) =
        (if showTrees then t.outline else "") ∧
        errorsOf (if showTrees then [.out t.outline] else []) = [] := by
      cases showTrees with
      | true => exact ⟨String.empty_append, rfl⟩
      | false => exact ⟨rfl, rfl⟩
    obtain ⟨herror, hrecorded⟩ := line_of_evalLine (s := s) hp
    rw [← hs] at herror hrecorded
    obtain ⟨hsession, hsucceeded, hstdout, herrors⟩ :=
      runTree_eq hr (hs.trans (Session.evalLine_of_parse hp)) herror hrecorded
    rw [hrun]
    refine ⟨hsession, hsucceeded, ?_, ?_⟩
    · rw [stdoutOf_append, stdoutOf_append, hout, htree.1, hstdout, String.empty_append,
        String.append_assoc]
    · rw [errorsOf_append, errorsOf_append, herr, htree.2, herrors, List.append_nil]

end Row

/-! ## Files -/

/-- Running lines writes what their rows say, one after another. -/
theorem runLines_eq (showTrees : Bool) {s : Shell} {lines : List (Nat × String)}
    (h : ∀ line ∈ lines, Proper line.2) :
    let rows := evalLines s lines
    ((runLines showTrees s lines).2 = 0 ↔ ∀ r ∈ rows, r.Succeeded) ∧
      stdoutOf (runLines showTrees s lines).1 = String.join (rows.map (Row.written showTrees)) ∧
      errorsOf (runLines showTrees s lines).1 = rows.flatMap Row.complaints := by
  induction lines generalizing s with
  | nil => exact ⟨by simp [runLines, evalLines], rfl, rfl⟩
  | cons line lines ih =>
    obtain ⟨number, source⟩ := line
    obtain ⟨hline, hlines⟩ := List.forall_mem_cons.1 h
    obtain ⟨hsession, hsucceeded, hstdout, herrors⟩ :=
      Row.runLine_eq (r := { number, source, outcome := s.evalLine source }) hline showTrees
        (s := s) rfl
    obtain ⟨hfailed, hstdout', herrors'⟩ := ih (s := (s.evalLine source).session) hlines
    simp only [runLines, evalLines, hsession, List.forall_mem_cons, List.map_cons,
      List.flatMap_cons, String.join_cons, stdoutOf_append, errorsOf_append, hstdout, herrors,
      hstdout', herrors', ← hsucceeded, ← hfailed, and_true]
    cases (runLine showTrees s source number).succeeded <;> simp

/-- The diagnostics that a session starts with do not count. -/
theorem evalLines_withDiagnostics (s : Shell) (ds : List Error) (lines : List (Nat × String)) :
    evalLines { s with diagnostics := ds } lines = evalLines s lines := by
  cases lines with
  | nil => rfl
  | cons line lines => rw [evalLines, evalLines, Session.evalLine_withDiagnostics]

theorem numbers_evalLines (s : Shell) (lines : List (Nat × String)) :
    (evalLines s lines).map (fun r => (r.number, r.source)) = lines := by
  induction lines generalizing s with
  | nil => rfl
  | cons line lines ih => rw [evalLines, List.map_cons, ih]

/-- What comes of lines does not depend on their numbers. -/
theorem outcomes_congr {lines lines' : List (Nat × String)}
    (h : lines.map Prod.snd = lines'.map Prod.snd) (s : Shell) :
    (evalLines s lines).map (fun r => (r.source, r.outcome)) =
      (evalLines s lines').map fun r => (r.source, r.outcome) := by
  induction lines generalizing s lines' with
  | nil =>
    rw [List.map_eq_nil_iff.1 h.symm]
  | cons line lines ih =>
    cases lines' with
    | nil => cases h
    | cons line' lines' =>
      obtain ⟨hsource, hrest⟩ := List.cons.inj h
      rw [evalLines, evalLines, List.map_cons, List.map_cons, hsource, ih hrest]

/-- **Lines that fail do not count for the others.** -/
theorem evalLines_filter {deleted : Nat → Bool} {s : Shell} {lines : List (Nat × String)}
    (h : ∀ r ∈ evalLines s lines, deleted r.number → ¬ r.Succeeded) :
    evalLines s (lines.filter (!deleted ·.1)) = (evalLines s lines).filter (!deleted ·.number) := by
  induction lines generalizing s with
  | nil => rfl
  | cons line lines ih =>
    obtain ⟨number, source⟩ := line
    obtain ⟨hline, hlines⟩ := List.forall_mem_cons.1 h
    rw [evalLines]
    cases hdeleted : deleted number with
    | false =>
      simp only [List.filter_cons, hdeleted, Bool.not_false, if_true, evalLines, ih hlines]
    | true =>
      simp only [List.filter_cons, hdeleted, Bool.not_true, Bool.false_eq_true, if_false,
        ← ih hlines]
      cases hr : (s.evalLine source).result with
      | ok v => exact absurd ⟨v, hr⟩ (hline hdeleted)
      | error e =>
        obtain ⟨ds, hds⟩ := Session.session_evalLine_of_error hr
        rw [hds]
        exact (evalLines_withDiagnostics s ds _).symm

/-! ## Lines of a file -/

/-- Lines with their numbers, in the order of the file, blank ones left out. -/
def unblank (lines : List (String × Nat)) : List (Nat × String) :=
  lines.filterMap fun (line, n) => if Text.isBlankLine line then none else some (n, line)

theorem numberedLines_eq (content : String) :
    numberedLines content = unblank ((Text.lines content).zipIdx 1) :=
  rfl

theorem unblank_eq (lines : List (String × Nat)) :
    unblank lines = (lines.filter fun p => !Text.isBlankLine p.1).map Prod.swap := by
  induction lines with
  | nil => rfl
  | cons p lines ih =>
    obtain ⟨line, n⟩ := p
    cases hb : Text.isBlankLine line <;> simp_all [unblank]

/-- Blank lines count for the numbers only. -/
theorem map_snd_unblank (lines : List (String × Nat)) :
    (unblank lines).map Prod.snd = (lines.map Prod.fst).filter (!Text.isBlankLine ·) := by
  rw [unblank_eq, List.map_map, List.filter_map]
  rfl

/-- Rows stand for the lines that are not blank, in order. -/
theorem map_evalLines (s : Shell) (content : String) :
    (evalLines s (numberedLines content)).map (fun r => (r.source, r.number)) =
      ((Text.lines content).zipIdx 1).filter (fun p => Text.trim p.1 ≠ "") := by
  have hswap : (evalLines s (numberedLines content)).map (fun r => (r.source, r.number)) =
      (numberedLines content).map Prod.swap := by
    rw [← numbers_evalLines s (numberedLines content), List.map_map, numbers_evalLines]
    rfl
  rw [hswap, numberedLines_eq, unblank_eq, List.map_map, Prod.swap_swap_eq, List.map_id]
  refine List.filter_congr fun p _ => ?_
  rw [Bool.eq_iff_iff]
  simp [← Text.isBlankLine_iff]

theorem filter_unblank (keep : Nat → Bool) (lines : List (String × Nat)) :
    (unblank lines).filter (keep ·.1) = unblank (lines.filter (keep ·.2)) := by
  rw [unblank_eq, unblank_eq, List.filter_map, List.filter_filter, List.filter_filter]
  refine congrArg (List.map Prod.swap) (List.filter_congr fun p _ => ?_)
  exact Bool.and_comm _ _

theorem proper_of_mem_numberedLines {content : String} {line : Nat × String}
    (h : line ∈ numberedLines content) : Proper line.2 := by
  rw [numberedLines_eq, unblank_eq] at h
  obtain ⟨⟨source, n⟩, hmem, rfl⟩ := List.mem_map.1 h
  obtain ⟨hmem, hblank⟩ := List.mem_filter.1 hmem
  refine ⟨?_, Text.newline_notMem_of_mem_lines (List.fst_mem_of_mem_zipIdx hmem)⟩
  rintro rfl
  cases hblank

/-- What comes of the lines of a file is the same for the lines that are left
    without some that are blank or fail. -/
theorem outcomes_of_lines {s : Shell} {content content' : String} {deleted : Nat → Bool}
    (h : ∀ r ∈ evalLines s (numberedLines content), deleted r.number → ¬ r.Succeeded)
    (hlines : Text.lines content' =
      (((Text.lines content).zipIdx 1).filter (!deleted ·.2)).map Prod.fst) :
    (evalLines s (numberedLines content')).map (fun r => (r.source, r.outcome)) =
      ((evalLines s (numberedLines content)).filter (!deleted ·.number)).map fun r =>
        (r.source, r.outcome) := by
  rw [← evalLines_filter h]
  refine outcomes_congr ?_ s
  rw [numberedLines_eq, numberedLines_eq, filter_unblank (!deleted ·), map_snd_unblank,
    map_snd_unblank, List.zipIdx_map_fst, hlines]

/-! ## The command -/

theorem fromUTF8?_toUTF8 (s : String) : String.fromUTF8? s.toUTF8 = some s := by
  rw [String.fromUTF8?]
  split
  next => rfl
  next h => exact absurd s.isValidUTF8 h

/-- Setting up writes nothing to the standard output. -/
theorem stdoutOf_launch (o : Options) (env : String → Option String) :
    stdoutOf (launch o env).outputs = "" := by
  have hlevel : ∀ x ∈ (chooseLevel o env).2, x.toOut = "" := by
    rw [chooseLevel]
    split
    next => exact nofun
    next => exact nofun
    next =>
      split
      next => exact nofun
      next => exact List.forall_mem_singleton.2 rfl
  refine stdoutOf_eq_empty ?_
  rw [launch]
  simp only [List.forall_mem_append, List.forall_mem_map, List.forall_mem_singleton]
  exact ⟨⟨⟨hlevel, fun _ _ => rfl⟩, fun _ _ => rfl⟩, rfl⟩

/-- There is no line to evaluate next to a file. -/
theorem line_eq_none_of_file {args : List String} {o : Options} {path : String}
    (h : Request.ofArgs args = .run o) (hpath : o.file = some path) : o.line = none := by
  rw [Request.ofArgs] at h
  split at h
  next o' _ =>
    split at h
    next => cases h
    next hboth =>
      cases h
      rw [hpath] at hboth
      simpa using hboth
  -- Every other request is for something else than a run.
  all_goals cases h

/-- **Running a file is evaluating its lines in order, in one session.**  The
    lines are those that are not blank, with their numbers in the file.  The
    command succeeds just if they all do.  It writes to the standard output what
    each of them writes, and to the standard error stream, besides log records,
    what is wrong with each of them, where every place is on the line with its
    number in the file.  Without any lines that fail, or are blank, the others
    come to the same. -/
theorem execute_file {w : Surroundings} {o : Options} {path content : String}
    (hargs : Request.ofArgs w.args = .run o) (hpath : o.file = some path)
    (hfile : w.file path = .bytes content.toUTF8) :
    let s : Shell := .start .standard (chooseConfig o (Config.ofEnv w.env).1) ()
    let rows := evalLines s (numberedLines content)
    rows.map (fun r => (r.source, r.number)) =
        ((Text.lines content).zipIdx 1).filter (fun p => Text.trim p.1 ≠ "") ∧
    ((execute w).code = 0 ↔ ∀ r ∈ rows, r.Succeeded) ∧
    (execute w).stdout = String.join (rows.map (Row.written o.showTrees)) ∧
    (∃ outputs, (execute w).stderr = String.join
        (((launch o w.env).outputs ++ outputs).map (Output.toErr (launch o w.env).level)) ∧
      outputs.filter Output.isErr = rows.flatMap Row.complaints) ∧
    ∀ (deleted : Nat → Bool) (content' : String),
      (∀ r ∈ rows, deleted r.number → ¬ r.Succeeded) →
      Text.lines content' =
        (((Text.lines content).zipIdx 1).filter (!deleted ·.2)).map Prod.fst →
      (evalLines s (numberedLines content')).map (fun r => (r.source, r.outcome)) =
        (rows.filter (!deleted ·.number)).map fun r => (r.source, r.outcome) := by
  intro s rows
  have hline := line_eq_none_of_file hargs hpath
  have htext : (w.file path).text path = .ok content := by
    rw [hfile, Entry.text, fromUTF8?_toUTF8]
  obtain ⟨hfailed, hstdout, herrors⟩ := runLines_eq o.showTrees (s := s) fun line h =>
    @proper_of_mem_numberedLines content line h
  have hs : (launch o w.env).session = s := rfl
  have hlaunch := stdoutOf_launch o w.env
  simp only [execute, hargs, runOptions, hline, hpath, runFile, htext, hs]
  generalize runLines o.showTrees s (numberedLines content) = out at hfailed hstdout herrors ⊢
  obtain ⟨outputs, failed⟩ := out
  have hwritten (closing : List Output) (h : stdoutOf closing = "" ∧ errorsOf closing = []) :
      stdoutOf (note .info s!"running {path}" :: outputs ++ closing) = stdoutOf outputs ∧
        errorsOf (note .info s!"running {path}" :: outputs ++ closing) = errorsOf outputs := by
    rw [stdoutOf_append, errorsOf_append, h.1, h.2, String.append_empty, List.append_nil]
    exact ⟨String.empty_append, rfl⟩
  obtain ⟨hout, herr⟩ :=
    hwritten (if failed = 0 then [] else [note .info s!"{failed} line(s) failed"]) (by
      split <;> exact ⟨rfl, rfl⟩)
  refine ⟨map_evalLines s content, ?_, ?_, ⟨_, rfl, ?_⟩, fun deleted content' => outcomes_of_lines⟩
  · rw [← hfailed]
    by_cases h : failed = 0 <;> simp [exitCode, h]
  · rw [← hstdout, ← hout]
    exact (stdoutOf_append _ _).trans (by rw [hlaunch, String.empty_append])
  · exact herr.trans herrors

/-- A file with a blank line and with a line that fails, which may be left out. -/
theorem execute_file_script :
    let content := "x = 5\n\n1 +\nx + 2\n"
    let w : Surroundings :=
      { args := ["script"]
        env := fun _ => none
        file := fun _ => .bytes content.toUTF8
        stdin := .empty }
    let o : Options := { file := some "script" }
    let s : Shell := .start .standard {} ()
    let rows := evalLines s (numberedLines content)
    (Request.ofArgs w.args = .run o ∧ o.file = some "script" ∧
      w.file "script" = .bytes content.toUTF8 ∧ ∀ r ∈ rows, r.number == 3 → ¬ r.Succeeded) ∧
    rows.map Row.number = [1, 3, 4] ∧ (execute w).code ≠ 0 ∧
    (execute w).stdout = String.join (rows.map (Row.written false)) ∧
    (∃ outputs, (execute w).stderr = String.join
        (((launch o w.env).outputs ++ outputs).map (Output.toErr .warn)) ∧
      outputs.filter Output.isErr = rows.flatMap Row.complaints) ∧
    (evalLines s (numberedLines "x = 5\n\nx + 2\n")).map (fun r => (r.source, r.outcome)) =
      (rows.filter (!·.number == 3)).map fun r => (r.source, r.outcome) := by
  intro content w o s rows
  have hargs : Request.ofArgs w.args = .run o := by
    simp only [w, o]
    cbv
  have hlines : numberedLines content = [(1, "x = 5"), (3, "1 +"), (4, "x + 2")] := by
    decide +kernel
  let e : Error :=
    { kind := .grammar, message := "Unexpected end of input", line := some 1, col := some 4 }
  have hparse : parse "1 +" = .error e := by decide +kernel
  have hrows : rows = evalLines s [(1, "x = 5"), (3, "1 +"), (4, "x + 2")] :=
    congrArg (evalLines s) hlines
  have hfails : ∀ r ∈ rows, r.number == 3 → ¬ r.Succeeded := by
    rw [hrows]
    rintro r hr hnumber ⟨v, hv⟩
    simp only [evalLines, List.mem_cons, List.not_mem_nil, or_false] at hr
    rcases hr with rfl | rfl | rfl
    · cases hnumber
    · rw [Session.evalLine_of_error hparse] at hv
      cases hv
    · cases hnumber
  obtain ⟨-, hcode, hstdout, hstderr, hdeleted⟩ := execute_file hargs rfl rfl
  refine ⟨⟨hargs, rfl, rfl, hfails⟩, ?_, fun hzero => ?_, hstdout, hstderr,
    hdeleted (· == 3) "x = 5\n\nx + 2\n" hfails (by decide +kernel)⟩
  · rw [hrows]
    rfl
  · obtain ⟨r, hr, hnumber⟩ : ∃ r ∈ rows, r.number == 3 := by
      rw [hrows]
      exact ⟨_, List.mem_cons_of_mem _ List.mem_cons_self, rfl⟩
    exact hfails r hr hnumber (hcode.1 hzero r hr)

end Command

end Flowline
