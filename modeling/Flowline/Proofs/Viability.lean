/-
  Reading stops at the first token that no line goes on with.

  The tokens before that place start a line, since each rule that fails has
  read the start of one of its words.  The next token does not continue them:
  the parser would stop at it with any tokens behind it, but reads every line.

  * `Viable n w`: the word `w` starts a word that can be derived from `n`;
  * `Parser.FailsAt x rest`: an outcome is a fault at the tokens `rest`;
  * `Parser.Stops L ts rest`: the tokens `ts` up to `rest` start a word of `L`,
    with one lemma per rule that fails;
  * `Parser.stops_line`: so for lines;
  * `parseTokens_error_place`: the place that an error of the grammar reports.
-/
import Flowline.Proofs.Lookahead
import Flowline.Proofs.Parsing
import Mathlib.Order.Bounds.Basic

namespace Flowline

/-- The word starts a word that can be derived. -/
def Viable (n : Nonterminal) (w : List Kind) : Prop :=
  ∃ v, Derivable n (w ++ v)

/-- The expression `0`. -/
def Derivation.zero : Derivation (.phrase .expr) :=
  let term := chain .term (.base (.int 0)) (.noOperator .term)
  let sum := chain .additive (.term term) (.noOperator .additive)
  let comparison := chain .compare sum (.noOperator .compare)
  .or (.chain .or (.chain .and comparison (.noOperator .and)) (.noOperator .or))

namespace Parser

/-! ## Steps that fail -/

/-- The outcome is a fault at the given tokens. -/
def FailsAt {α : Type} (x : Except Fault α) (rest : List Token) : Prop :=
  ∃ f, x = .error f ∧ f.rest = rest

section Outcomes

variable {α β : Type} {rest : List Token}

theorem failsAt_bind {x : Except Fault α} {f : α → Except Fault β} :
    FailsAt (x >>= f) rest ↔ FailsAt x rest ∨ ∃ a, x = .ok a ∧ FailsAt (f a) rest := by
  cases x <;> simp [FailsAt, bind, Except.bind]

theorem failsAt_keeping {x : Except Fault α} {es : List Expr} :
    FailsAt (keeping es x) rest ↔ FailsAt x rest := by
  cases x <;> simp [FailsAt, keeping]

theorem not_failsAt_ok {a : α} : ¬ FailsAt (.ok a : Except Fault α) rest := by
  rintro ⟨f, hf, -⟩
  cases hf

theorem failsAt_unexpected {ts : List Token} :
    FailsAt (unexpected ts : Except Fault α) rest ↔ ts = rest := by
  simp [FailsAt, unexpected]

theorem eq_of_failsAt_expect {m : Mark} {ts : List Token} (h : FailsAt (expect m ts) rest) :
    ts = rest := by
  obtain ⟨f, hf, rfl⟩ := h
  unfold expect at hf
  split at hf
  next =>
    split at hf
    next => cases hf
    next =>
      cases hf
      rfl
  next =>
    cases hf
    rfl

end Outcomes

/-! ## Words that are left off -/

/-- The tokens `ts` up to `rest` start a word of the language. -/
def Stops (L : List Kind → Prop) (ts rest : List Token) : Prop :=
  ∃ w v, words ts = w ++ words rest ∧ L (w ++ v)

namespace Stops

variable {L M : List Kind → Prop} {ts us rest : List Token}

theorem start {v : List Kind} (h : L v) : Stops L ts ts :=
  ⟨[], v, rfl, h⟩

/-- A word is left off within one of its parts. -/
theorem within (h : Stops M us rest) {u v : List Kind} (hts : words ts = u ++ words us)
    (hL : ∀ w, M w → L (u ++ (w ++ v))) : Stops L ts rest := by
  obtain ⟨w, x, hw, hx⟩ := h
  refine ⟨u ++ w, x ++ v, by rw [hts, hw, List.append_assoc], ?_⟩
  simpa only [List.append_assoc] using hL _ hx

theorem imp (h : Stops M ts rest) (hL : ∀ w, M w → L w) : Stops L ts rest := by
  obtain ⟨w, v, hw, hv⟩ := h
  exact ⟨w, v, hw, hL _ hv⟩

end Stops

/-! ## Rules -/

/-- Where the rule fails, it has read the start of a word of the phrase. -/
def KeepsViable (p : Phrase) (rule : Rule Expr) : Prop :=
  ∀ ⦃ts rest⦄, FailsAt (rule ts) rest → Stops (Derivable (.phrase p)) ts rest

/-- An expression in parentheses. -/
def Enclosed (w : List Kind) : Prop :=
  ∃ d : Derivation (.phrase .expr), .mark .lparen :: (d.yield ++ [.mark .rparen]) = w

section Rules

variable {expr : Rule Expr} (hs : Sound .expr expr) (h : KeepsViable .expr expr)
include hs h

theorem stops_arguments {n : Nat} {ts rest : List Token}
    (hr : FailsAt (arguments expr n ts) rest) : Stops (Derivable .args) ts rest := by
  induction n generalizing ts with
  | zero =>
    obtain rfl := failsAt_unexpected.1 hr
    exact .start ⟨.lastArg .zero, rfl⟩
  | succ n ih =>
    simp only [arguments, failsAt_bind, Prod.exists] at hr
    rcases hr with hr | ⟨e, ts', he, hr⟩
    · refine (h hr).imp ?_
      rintro _ ⟨d, rfl⟩
      exact ⟨.lastArg d, rfl⟩
    · obtain ⟨d, -, -, hts, -⟩ := hs he
      split at hr
      next p ts' =>
        simp only [failsAt_bind, failsAt_keeping, Prod.exists] at hr
        rcases hr with hr | ⟨es, ts'', -, hr⟩
        · refine (ih hr).within (u := d.yield ++ [.mark .comma]) (v := []) (by simp [hts]) ?_
          rintro _ ⟨ds, rfl⟩
          exact ⟨.arg d ds, by simp⟩
        · exact (not_failsAt_ok hr).elim
      next => exact (not_failsAt_ok hr).elim

theorem stops_argumentList {ts rest : List Token} (hr : FailsAt (argumentList expr ts) rest) :
    Stops (Derivable .argsEnd) ts rest := by
  unfold argumentList at hr
  split at hr
  next => exact (not_failsAt_ok hr).elim
  next =>
    simp only [failsAt_bind, failsAt_keeping, Prod.exists] at hr
    rcases hr with hr | ⟨es, ts', hes, hr | ⟨ts'', -, hr⟩⟩
    · refine (stops_arguments hs h hr).within (u := []) (v := [.mark .rparen]) rfl ?_
      rintro _ ⟨ds, rfl⟩
      exact ⟨.someArgs ds, rfl⟩
    · obtain rfl := eq_of_failsAt_expect hr
      obtain ⟨ds, -, -, hts, -⟩ := sound_arguments hs hes
      exact ⟨ds.yield, [.mark .rparen], hts, .someArgs ds, rfl⟩
    · exact (not_failsAt_ok hr).elim

theorem stops_parenthesized {ts rest : List Token} (hr : FailsAt (parenthesized expr ts) rest) :
    Stops Enclosed ts rest := by
  simp only [parenthesized, failsAt_bind, failsAt_keeping, expect_eq_ok, Prod.exists] at hr
  rcases hr with hr | ⟨_, ⟨p, rfl⟩, hr | ⟨e, ts', he, hr | ⟨ts'', -, hr⟩⟩⟩
  · obtain rfl := eq_of_failsAt_expect hr
    exact .start ⟨.zero, rfl⟩
  · refine (h hr).within (u := [.mark .lparen]) (v := [.mark .rparen]) rfl ?_
    rintro _ ⟨d, rfl⟩
    exact ⟨d, rfl⟩
  · obtain rfl := eq_of_failsAt_expect hr
    obtain ⟨d, -, -, hts, -⟩ := hs he
    exact ⟨.mark .lparen :: d.yield, [.mark .rparen], by simp [hts], d, rfl⟩
  · exact (not_failsAt_ok hr).elim

theorem stops_bracketed {ts rest : List Token} (hr : FailsAt (bracketed expr ts) rest) :
    Stops (fun w => Derivable (.phrase .factor) (.mark .lparen :: w)) ts rest := by
  simp only [bracketed, failsAt_bind, failsAt_keeping, expect_eq_ok, Prod.exists] at hr
  rcases hr with hr | ⟨c, ts', hc, hr⟩
  · refine (h hr).within (u := []) (v := [.mark .rparen]) rfl ?_
    rintro _ ⟨d, rfl⟩
    exact ⟨.group d, rfl⟩
  obtain ⟨dc, -, -, hts, -⟩ := hs hc
  rcases hr with hr | ⟨_, ⟨p, rfl⟩, hr⟩
  · obtain rfl := eq_of_failsAt_expect hr
    exact ⟨dc.yield, [.mark .rparen], hts, .group dc, rfl⟩
  split at hr
  next q ts' =>
    simp only [failsAt_bind, failsAt_keeping, expect_eq_ok, Prod.exists] at hr
    -- what is missing after a branch is a colon and some expression
    rcases hr with hr | ⟨t, ts', ht, hr⟩
    · refine (stops_parenthesized hs h hr).within
        (u := dc.yield ++ [.mark .rparen, .mark .question])
        (v := .mark .colon :: .mark .lparen :: (Derivation.zero.yield ++ [.mark .rparen]))
        (by simp [hts]) ?_
      rintro _ ⟨dt, rfl⟩
      exact ⟨.ternary dc dt .zero, by simp⟩
    obtain ⟨dt, -, -, hts'⟩ := sound_parenthesized hs ht
    rcases hr with hr | ⟨_, ⟨q', rfl⟩, hr | ⟨a, ts'', -, hr⟩⟩
    · obtain rfl := eq_of_failsAt_expect hr
      refine ⟨dc.yield ++ .mark .rparen :: .mark .question :: .mark .lparen ::
        (dt.yield ++ [.mark .rparen]),
        .mark .colon :: .mark .lparen :: (Derivation.zero.yield ++ [.mark .rparen]), ?_, ?_⟩
      · simp [hts, hts']
      · exact ⟨.ternary dc dt .zero, by simp⟩
    · refine (stops_parenthesized hs h hr).within
        (u := dc.yield ++ .mark .rparen :: .mark .question :: .mark .lparen ::
          (dt.yield ++ [.mark .rparen, .mark .colon])) (v := []) (by simp [hts, hts']) ?_
      rintro _ ⟨da, rfl⟩
      exact ⟨.ternary dc dt da, by simp⟩
    · exact (not_failsAt_ok hr).elim
  next => exact (not_failsAt_ok hr).elim

theorem keepsViable_factor : KeepsViable .factor (factor expr) := by
  intro ts rest hr
  unfold factor at hr
  split at hr
  next => exact (not_failsAt_ok hr).elim
  next => exact (not_failsAt_ok hr).elim
  next name p q ts =>
    simp only [failsAt_bind, Prod.exists] at hr
    rcases hr with hr | ⟨es, ts', -, hr⟩
    · refine (stops_argumentList hs h hr).within (u := [.ident name, .mark .lparen]) (v := [])
        rfl ?_
      rintro _ ⟨ds, rfl⟩
      exact ⟨.call name ds, by simp⟩
    · exact (not_failsAt_ok hr).elim
  next => exact (not_failsAt_ok hr).elim
  next p ts =>
    refine (stops_bracketed hs h hr).within (u := [.mark .lparen]) (v := []) rfl fun w hw => ?_
    simpa using hw
  next =>
    obtain rfl := failsAt_unexpected.1 hr
    exact .start ⟨.int 0, rfl⟩

theorem keepsViable_power : KeepsViable .power (power expr) := by
  intro ts rest hr
  simp only [power, failsAt_bind, Prod.exists] at hr
  rcases hr with hr | ⟨b, ts', hb, hr⟩
  · refine (keepsViable_factor hs h hr).imp ?_
    rintro _ ⟨d, rfl⟩
    exact ⟨.base d, rfl⟩
  obtain ⟨d, -, -, hts, -⟩ := sound_factor hs hb
  split at hr
  next p ts' =>
    simp only [failsAt_bind, failsAt_keeping, Prod.exists] at hr
    rcases hr with hr | ⟨x, ts'', -, hr⟩
    · refine (keepsViable_factor hs h hr).within (u := d.yield ++ [.op (.arith .power)]) (v := [])
        (by simp [hts]) ?_
      rintro _ ⟨d', rfl⟩
      exact ⟨.raised d d', by simp⟩
    · exact (not_failsAt_ok hr).elim
  next => exact (not_failsAt_ok hr).elim

end Rules

theorem stops_chain {l : Chain} {operand : Rule Expr} (hs : Sound l.operand operand)
    (h : KeepsViable l.operand operand) {n : Nat} {e : Expr} {ts rest : List Token}
    (hr : FailsAt (chain l.rank operand n e ts) rest) :
    Stops (Derivable (.operators l)) ts rest := by
  fun_induction chain l.rank operand n e ts with
  | case1 n e o p ts ho ih =>
    simp only [failsAt_bind, failsAt_keeping, keeping_eq_ok, Prod.exists] at hr
    rcases hr with hr | ⟨x, ts', hx, hr⟩
    · refine (h hr).within (u := [.op o]) (v := []) rfl ?_
      rintro _ ⟨d, rfl⟩
      exact ⟨.operator l o ho d (.noOperator l), by simp⟩
    · obtain ⟨d, -, -, hts, -⟩ := hs hx
      refine (ih _ _ hr).within (u := .op o :: d.yield) (v := []) (by simp [hts]) ?_
      rintro _ ⟨ds, rfl⟩
      exact ⟨.operator l o ho d ds, by simp⟩
  | case2 => exact (not_failsAt_ok hr).elim
  | case3 => exact (not_failsAt_ok hr).elim

theorem keepsViable_joined {l : Chain} {first operand : Rule Expr} (hsf : Sound l.first first)
    (hf : KeepsViable l.first first) (hso : Sound l.operand operand)
    (ho : KeepsViable l.operand operand) :
    KeepsViable (.chain l) (joined l.rank first operand) := by
  intro ts rest hr
  simp only [joined, failsAt_bind, Prod.exists] at hr
  rcases hr with hr | ⟨x, ts', hx, hr⟩
  · refine (hf hr).imp ?_
    rintro _ ⟨d, rfl⟩
    exact ⟨.chain l d (.noOperator l), by simp⟩
  · obtain ⟨d, -, -, hts, -⟩ := hsf hx
    refine (stops_chain hso ho hr).within (u := d.yield) (v := []) hts ?_
    rintro _ ⟨ds, rfl⟩
    exact ⟨.chain l d ds, by simp⟩

section Rules

variable {expr : Rule Expr} (hs : Sound .expr expr) (h : KeepsViable .expr expr)
include hs h

theorem keepsViable_term : KeepsViable (.chain .term) (term expr) :=
  keepsViable_joined (l := .term) (sound_power hs) (keepsViable_power hs h) (sound_power hs)
    (keepsViable_power hs h)

theorem keepsViable_opening : KeepsViable .opening (opening expr) := by
  intro ts rest hr
  unfold opening at hr
  split at hr
  next => exact (not_failsAt_ok hr).elim
  next =>
    refine (keepsViable_term hs h hr).imp ?_
    rintro _ ⟨d, rfl⟩
    exact ⟨.term d, rfl⟩

theorem keepsViable_disjunction : KeepsViable (.chain .or) (disjunction expr) := by
  have hsum : Sound (.chain .additive) (additive expr) ∧
      KeepsViable (.chain .additive) (additive expr) :=
    ⟨sound_joined (l := .additive) (sound_opening hs) (sound_term hs),
      keepsViable_joined (l := .additive) (sound_opening hs) (keepsViable_opening hs h)
        (sound_term hs) (keepsViable_term hs h)⟩
  have hcompare : Sound (.chain .compare) (comparison expr) ∧
      KeepsViable (.chain .compare) (comparison expr) :=
    ⟨sound_joined (l := .compare) hsum.1 hsum.1,
      keepsViable_joined (l := .compare) hsum.1 hsum.2 hsum.1 hsum.2⟩
  have hand : Sound (.chain .and) (conjunction expr) ∧
      KeepsViable (.chain .and) (conjunction expr) :=
    ⟨sound_joined (l := .and) hcompare.1 hcompare.1,
      keepsViable_joined (l := .and) hcompare.1 hcompare.2 hcompare.1 hcompare.2⟩
  exact keepsViable_joined (l := .or) hand.1 hand.2 hand.1 hand.2

theorem stops_conditional {ts rest : List Token} (hr : FailsAt (conditional expr ts) rest) :
    Stops (fun w => Derivable (.phrase .conditional) (.mark .ifWord :: w)) ts rest := by
  simp only [conditional, failsAt_bind, failsAt_keeping, expect_eq_ok, Prod.exists] at hr
  rcases hr with hr | ⟨c, ts', hc, hr⟩
  · refine (stops_parenthesized hs h hr).within (u := [])
      (v := .mark .colon :: Derivation.zero.yield) rfl ?_
    rintro _ ⟨dc, rfl⟩
    exact ⟨.ifThen dc .zero, by simp⟩
  obtain ⟨dc, -, -, hts⟩ := sound_parenthesized hs hc
  rcases hr with hr | ⟨_, ⟨p, rfl⟩, hr⟩
  · obtain rfl := eq_of_failsAt_expect hr
    refine ⟨.mark .lparen :: (dc.yield ++ [.mark .rparen]),
      .mark .colon :: Derivation.zero.yield, by simp [hts], ?_⟩
    exact ⟨.ifThen dc .zero, by simp⟩
  rcases hr with hr | ⟨t, ts', ht, hr⟩
  · refine (h hr).within (u := .mark .lparen :: (dc.yield ++ [.mark .rparen, .mark .colon]))
      (v := []) (by simp [hts]) ?_
    rintro _ ⟨dt, rfl⟩
    exact ⟨.ifThen dc dt, by simp⟩
  obtain ⟨dt, -, -, hts', -⟩ := hs ht
  split at hr
  next q ts' =>
    simp only [failsAt_bind, failsAt_keeping, expect_eq_ok, Prod.exists] at hr
    rcases hr with hr | ⟨_, ⟨q', rfl⟩, hr | ⟨e, ts'', -, hr⟩⟩
    · obtain rfl := eq_of_failsAt_expect hr
      refine ⟨.mark .lparen :: (dc.yield ++ .mark .rparen :: .mark .colon ::
        (dt.yield ++ [.mark .elseWord])), .mark .colon :: Derivation.zero.yield, ?_, ?_⟩
      · simp [hts, hts']
      · exact ⟨.ifElse dc dt .zero, by simp⟩
    · refine (h hr).within (u := .mark .lparen :: (dc.yield ++ .mark .rparen :: .mark .colon ::
        (dt.yield ++ [.mark .elseWord, .mark .colon]))) (v := []) (by simp [hts, hts']) ?_
      rintro _ ⟨de, rfl⟩
      exact ⟨.ifElse dc dt de, by simp⟩
    · exact (not_failsAt_ok hr).elim
  next => exact (not_failsAt_ok hr).elim

theorem keepsViable_exprStep : KeepsViable .expr (exprStep expr) := by
  intro ts rest hr
  unfold exprStep at hr
  split at hr
  next p ts =>
    refine (stops_conditional hs h hr).within (u := [.mark .ifWord]) (v := []) rfl ?_
    rintro w ⟨d, hd⟩
    exact ⟨.conditional d, by simp [hd]⟩
  next =>
    refine (keepsViable_disjunction hs h hr).imp ?_
    rintro _ ⟨d, rfl⟩
    exact ⟨.or d, rfl⟩

/-- Stages fail within one of them. -/
theorem stops_stages {n : Nat} {e : Expr} {ts rest : List Token}
    (hr : FailsAt (stages expr n e ts) rest) :
    Stops (fun w => ∃ f as ds, (Derivation.stage f as ds).yield = w) ts rest := by
  fun_induction stages expr n e ts with
  | case1 n e p ts ih =>
    simp only [failsAt_bind, failsAt_keeping, keeping_eq_ok, Prod.exists] at hr
    rcases hr with hr | ⟨x, ts', hx, hr⟩
    · split at hr
      next name q ts =>
        simp only [failsAt_bind, expect_eq_ok, Prod.exists] at hr
        rcases hr with hr | ⟨_, ⟨q', rfl⟩, hr | ⟨es, ts', -, hr⟩⟩
        · obtain rfl := eq_of_failsAt_expect hr
          refine ⟨[.mark .arrow, .ident name], [.mark .lparen, .mark .rparen], rfl, ?_⟩
          exact ⟨name, .noArgs, .noStage, rfl⟩
        · refine (stops_argumentList hs h hr).within
            (u := [.mark .arrow, .ident name, .mark .lparen]) (v := []) rfl ?_
          rintro _ ⟨as, rfl⟩
          exact ⟨name, as, .noStage, by simp⟩
        · exact (not_failsAt_ok hr).elim
      next =>
        obtain rfl := failsAt_unexpected.1 hr
        refine ⟨[.mark .arrow], [.ident "", .mark .lparen, .mark .rparen], rfl, ?_⟩
        exact ⟨"", .noArgs, .noStage, rfl⟩
    · split at hx
      next name q ts =>
        simp only [bind_eq_ok, expect_eq_ok, Prod.exists] at hx
        obtain ⟨_, ⟨q', rfl⟩, es, _, hes, hx⟩ := hx
        cases hx
        obtain ⟨as, -, -, hts, -⟩ := sound_argumentList hs hes
        refine (ih _ _ hr).within (u := .mark .arrow :: .ident name :: .mark .lparen :: as.yield)
          (v := []) (by simp [hts]) ?_
        rintro _ ⟨f, as', ds, rfl⟩
        exact ⟨name, as, .stage f as' ds, by simp⟩
      next => cases hx
  | case2 => exact (not_failsAt_ok hr).elim

theorem stops_assigned {ts rest : List Token} (hr : FailsAt (assigned expr ts) rest) (x : String) :
    Stops (fun w => Derivable .line (.ident x :: .mark .equal :: w)) ts rest := by
  unfold assigned at hr
  split at hr
  next s p q ts =>
    refine (stops_stages hs h hr).within (u := [.ident s]) (v := []) rfl ?_
    rintro _ ⟨f, as, ds, rfl⟩
    exact ⟨.assignFlow x (.flow s f as ds), by simp⟩
  next =>
    refine (h hr).imp ?_
    rintro _ ⟨d, rfl⟩
    exact ⟨.assign x d, rfl⟩

theorem stops_lineStep {ts rest : List Token} (hr : FailsAt (lineStep expr ts) rest) :
    Stops (Derivable .line) ts rest := by
  unfold lineStep at hr
  split at hr
  next x p q ts =>
    simp only [failsAt_bind, Prod.exists] at hr
    rcases hr with hr | ⟨e, ts', -, hr⟩
    · refine (stops_assigned hs h hr x).within (u := [.ident x, .mark .equal]) (v := []) rfl ?_
      intro w hw
      simpa using hw
    · exact (not_failsAt_ok hr).elim
  next =>
    simp only [failsAt_bind, Prod.exists] at hr
    rcases hr with hr | ⟨e, ts', -, hr⟩
    · refine (h hr).imp ?_
      rintro _ ⟨d, rfl⟩
      exact ⟨.bare d, rfl⟩
    · exact (not_failsAt_ok hr).elim

end Rules

theorem keepsViable_expr (n : Nat) : KeepsViable .expr (expr n) := by
  induction n with
  | zero =>
    intro ts rest hr
    obtain rfl := failsAt_unexpected.1 hr
    exact .start ⟨.zero, rfl⟩
  | succ n ih => exact keepsViable_exprStep (sound_expr n) ih

/-- The tokens before the place at which a line is left off start a line. -/
theorem stops_line {ts rest : List Token} (hr : FailsAt (line ts) rest) :
    Stops (Derivable .line) ts rest :=
  stops_lineStep (sound_expr _) (keepsViable_expr _) hr

end Parser

/-! ## The first impossible token -/

theorem Viable.of_append {n : Nonterminal} {w v : List Kind} (h : Viable n (w ++ v)) :
    Viable n w := by
  obtain ⟨x, hx⟩ := h
  exact ⟨v ++ x, by rwa [← List.append_assoc]⟩

theorem Viable.isEof_of_mem {n : Nonterminal} {w : List Kind} (h : Viable n w) :
    ∀ k ∈ w, k.isEof = false := by
  obtain ⟨v, d, hd⟩ := h
  intro k hk
  exact d.isEof_of_mem_yield k (by rw [hd]; exact List.mem_append_left v hk)

namespace Parser

/-- The tokens before the place at which reading stops start a line. -/
theorem viable_of_left {ts pre : List Token} (hts : ts = pre ++ left (line ts)) :
    Viable .line (words pre) := by
  have hwords : words ts = words pre ++ words (left (line ts)) := by
    conv_lhs => rw [hts]
    exact List.map_append
  cases hl : line ts with
  | ok p =>
    obtain ⟨l, rest⟩ := p
    obtain ⟨d, -, -, hd, -⟩ := sound_line hl
    rw [hl] at hwords
    have hyield := List.append_cancel_right (hwords.symm.trans hd)
    exact ⟨[], d, by rw [hyield, List.append_nil]⟩
  | error f =>
    obtain ⟨w, v, hw, hv⟩ := stops_line ⟨f, hl, rfl⟩
    rw [hl] at hwords
    rw [List.append_cancel_right (hwords.symm.trans hw)]
    exact ⟨v, hv⟩

/-- The token at which reading stops does not continue the tokens before it. -/
theorem not_viable_of_left {ts pre rest : List Token} {t : Token} (hts : ts = pre ++ left (line ts))
    (hrest : left (line ts) = t :: rest) : ¬ Viable .line (words pre ++ [t.kind]) := by
  rintro ⟨v, d, hd⟩
  obtain ⟨d, hnear, hyield⟩ := d.exists_nearest
  -- a line with these tokens is read to its end, and not up to the same place
  have hwords : words (pre ++ t :: v.map fun k => ⟨k, .start⟩) = d.yield ++ [] := by
    rw [hyield, hd]
    simp [words, Function.comp_def]
  obtain ⟨behind, hbehind, hok⟩ := exists_line_eq_ok hnear (k := []) trivial hwords
  have hpeek : peek (t :: v.map fun k => ⟨k, .start⟩) = peek (left (line ts)) := by
    rw [hrest]
    rfl
  have hleft := congrArg left (hok.symm.trans (line_append hts hpeek))
  rw [left_moved] at hleft
  obtain rfl : behind = _ := hleft
  cases hbehind

end Parser

theorem sentence_append {pre rest : List Token} (h : ∀ k ∈ words pre, k.isEof = false) :
    sentence (pre ++ rest) = words pre ++ sentence rest := by
  rw [sentence, words, List.map_append]
  refine List.takeWhile_append_of_pos fun k hk => ?_
  rw [h k hk]
  rfl

theorem exists_cons_of_sentence {ts : List Token} {k : Kind} {w : List Kind}
    (h : sentence ts = k :: w) : ∃ t rest, ts = t :: rest ∧ t.kind = k := by
  cases ts with
  | nil => cases h
  | cons t rest =>
    refine ⟨t, rest, rfl, ?_⟩
    rw [sentence, words_cons, List.takeWhile_cons] at h
    split at h
    next => exact (List.cons.inj h).1
    next => cases h

/-- Reading stops after the longest start of the sentence that starts a line. -/
theorem isGreatest_viable {ts pre : List Token} (hpre : ts = pre ++ Parser.left (Parser.line ts)) :
    IsGreatest {j | j ≤ (sentence ts).length ∧ Viable .line ((sentence ts).take j)} pre.length := by
  have hviable := Parser.viable_of_left hpre
  have hsentence : sentence ts = words pre ++ sentence (Parser.left (Parser.line ts)) := by
    conv_lhs => rw [hpre]
    exact sentence_append hviable.isEof_of_mem
  have hlen : (words pre).length = pre.length := List.length_map _
  rw [hsentence, List.length_append, ← hlen]
  refine ⟨⟨Nat.le_add_right _ _, by rwa [List.take_left]⟩, ?_⟩
  rintro j ⟨hj, hlonger⟩
  by_contra hlt
  cases hrest : sentence (Parser.left (Parser.line ts)) with
  | nil =>
    rw [hrest, List.length_nil] at hj
    omega
  | cons k w =>
    obtain ⟨t, rest, hleft, rfl⟩ := exists_cons_of_sentence hrest
    obtain ⟨i, rfl⟩ : ∃ i, j = (words pre).length + (i + 1) :=
      ⟨j - (words pre).length - 1, by omega⟩
    rw [hrest, List.take_length_add_append, List.take_succ_cons] at hlonger
    refine Parser.not_viable_of_left hpre hleft (Viable.of_append (v := w.take i) ?_)
    rwa [List.append_assoc]

/-- The error reports the place. -/
def Error.IsAt (e : Error) (p : Place) : Prop :=
  e.line = some p.line ∧ e.col = some p.col

theorem Cause.isAt_toError {c : Cause} {ts rest : List Token} {t : Token}
    (h : rest.head?.or ts.getLast? = some t) : (c.toError ts rest).IsAt t.place := by
  simp [Error.IsAt, Cause.toError, stopPlace, h]

/-- An error is at the place at which reading stops. -/
theorem exists_toError_of_parseTokens {ts : List Token} {e : Error}
    (h : parseTokens ts = .error e) :
    ∃ c : Cause, e = c.toError ts (Parser.left (Parser.line ts)) := by
  rw [parseTokens_eq_error_iff, read] at h
  cases hl : Parser.line ts with
  | error f =>
    rw [hl] at h
    exact ⟨f.cause, (Option.some.inj h).symm⟩
  | ok p =>
    obtain ⟨l, rest⟩ := p
    rw [hl] at h
    dsimp only at h
    split at h
    next => cases h
    next => exact ⟨.unexpected, (Option.some.inj h).symm⟩

theorem not_derivable_of_parseTokens {ts : List Token} {e : Error}
    (h : parseTokens ts = .error e) : ¬ Derivable .line (sentence ts) := by
  rintro ⟨d, hd⟩
  obtain ⟨d', hnear, hyield⟩ := d.exists_nearest
  have hok := parseTokens_eq_ok_iff.2 ⟨d', hnear, hyield.trans hd, rfl⟩
  rw [h] at hok
  cases hok

/-- **An error of the grammar points at the first token that no line goes on
    with.**  The tokens before it start a line, and no longer start of the
    sentence does.  If no token is left, the error points at the last one, and
    at the start of the text if there is none; in any case the sentence is not a
    line by itself. -/
theorem parseTokens_error_place {ts : List Token} {e : Error} (h : parseTokens ts = .error e) :
    ∃ k, IsGreatest {j | j ≤ (sentence ts).length ∧ Viable .line ((sentence ts).take j)} k ∧
      (∀ t, ts[k]? = some t → e.IsAt t.place) ∧
      (ts[k]? = none → ∀ t, ts.getLast? = some t → e.IsAt t.place) ∧
      (ts = [] → e.IsAt .start) ∧ ¬ Derivable .line (sentence ts) := by
  obtain ⟨pre, hpre⟩ := Parser.exists_append_left_line ts
  have hget : ts[pre.length]? = (Parser.left (Parser.line ts)).head? := by
    conv_lhs => rw [hpre]
    rw [List.getElem?_append_right (Nat.le_refl _), Nat.sub_self, List.head?_eq_getElem?]
  obtain ⟨c, hc⟩ := exists_toError_of_parseTokens h
  refine ⟨pre.length, isGreatest_viable hpre, fun t ht => ?_, fun hnone t ht => ?_, ?_,
    not_derivable_of_parseTokens h⟩
  · rw [hc]
    exact Cause.isAt_toError (by rw [← hget, ht, Option.some_or])
  · rw [hc]
    exact Cause.isAt_toError (by rw [← hget, hnone, Option.none_or, ht])
  · rintro rfl
    cases h
    exact ⟨rfl, rfl⟩

/-- `1 + )` stops at the parenthesis. -/
theorem parseTokens_error_place_operand :
    let ts : List Token := [⟨.int 1, ⟨0, 1, 1⟩⟩, ⟨.op (.arith .plus), ⟨2, 1, 3⟩⟩,
      ⟨.mark .rparen, ⟨4, 1, 5⟩⟩, ⟨.eof, ⟨5, 1, 6⟩⟩]
    ∃ e, parseTokens ts = .error e ∧ e.IsAt ⟨4, 1, 5⟩ ∧
      IsGreatest {j | j ≤ (sentence ts).length ∧ Viable .line ((sentence ts).take j)} 2 := by
  intro ts
  have h : parseTokens ts = .error _ := rfl
  obtain ⟨k, hk, hplace, -⟩ := parseTokens_error_place h
  refine ⟨_, h, ⟨rfl, rfl⟩, ?_⟩
  -- the other tokens are at other places
  have hle : k ≤ 3 := hk.1.1
  match k, hle with
  | 0, _ => cases (hplace _ rfl).2
  | 1, _ => cases (hplace _ rfl).2
  | 2, _ => exact hk
  | 3, _ => cases (hplace _ rfl).2

end Flowline
