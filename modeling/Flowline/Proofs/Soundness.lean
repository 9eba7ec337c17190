/-
  What the rules of the parser read has derivations.

  * `words ts`: the kinds of the tokens `ts`;
  * `Parser.Derived n x ts rest`: the tokens from `ts` up to `rest` have a
    derivation from `n` that stands for `x`, with every `else` at the nearest
    conditional that lacks one;
  * `Parser.Sound p rule`: so for all that the rule reads, with one lemma per
    rule over a sound reader of nested expressions;
  * `Parser.sound_line`: so for lines.
-/
import Flowline.Proofs.Grammar

namespace Flowline

/-! ## Words -/

/-- The kinds of tokens. -/
def words (ts : List Token) : List Kind :=
  ts.map Token.kind

@[simp] theorem words_cons (t : Token) (ts : List Token) : words (t :: ts) = t.kind :: words ts :=
  rfl

theorem words_eq_cons_iff {ts : List Token} {k : Kind} {w : List Kind} :
    words ts = k :: w ↔ ∃ p ts', ts = ⟨k, p⟩ :: ts' ∧ words ts' = w := by
  constructor
  · intro h
    obtain ⟨⟨k', p⟩, ts', rfl, rfl, rfl⟩ := List.map_eq_cons_iff.1 h
    exact ⟨p, ts', rfl, rfl⟩
  · rintro ⟨p, ts', rfl, rfl⟩
    rfl

theorem exists_cons_of_head {ts : List Token} {k : Kind} (h : (words ts).head? = some k) :
    ∃ p ts', ts = ⟨k, p⟩ :: ts' := by
  obtain ⟨w, hw⟩ := List.head?_eq_some_iff.1 h
  obtain ⟨p, ts', rfl, -⟩ := words_eq_cons_iff.1 hw
  exact ⟨p, ts', rfl⟩

namespace Parser

/-! ## Steps that succeed -/

theorem keeping_eq_ok {α : Type} {es : List Expr} {x : Except Fault α} {a : α} :
    keeping es x = .ok a ↔ x = .ok a := by
  cases x <;> simp [keeping]

theorem expect_eq_ok {m : Mark} {ts rest : List Token} :
    expect m ts = .ok rest ↔ ∃ p, ts = ⟨.mark m, p⟩ :: rest := by
  unfold expect
  split
  next m' p ts => by_cases h : m' = m <;> simp [h]
  next h =>
    refine ⟨fun h => (by cases h), ?_⟩
    rintro ⟨p, rfl⟩
    exact absurd rfl (h m p rest)

/-! ## Reading gives derivations -/

/-- The tokens `ts` up to `rest` have a derivation that stands for `x`, with
    every `else` at the nearest conditional that lacks one; a conditional at
    its end that lacks an `else` is not followed by one. -/
def Derived (n : Nonterminal) (x : n.Meaning) (ts rest : List Token) : Prop :=
  ∃ d : Derivation n, d.Nearest ∧ d.meaning = x ∧ words ts = d.yield ++ words rest ∧
    (d.isOpen → (words rest).head? ≠ some (.mark .elseWord))

/-- What the rule reads has derivations from the phrase. -/
def Sound (p : Phrase) (rule : Rule Expr) : Prop :=
  ∀ ⦃ts e rest⦄, rule ts = .ok (e, rest) → Derived (.phrase p) e ts rest

section Rules

variable {expr : Rule Expr} (h : Sound .expr expr)
include h

theorem sound_arguments {n : Nat} {ts rest : List Token} {es : List Expr}
    (hr : arguments expr n ts = .ok (es, rest)) : Derived .args es ts rest := by
  induction n generalizing ts es with
  | zero => cases hr
  | succ n ih =>
    simp only [arguments, bind_eq_ok, Prod.exists] at hr
    obtain ⟨e, ts', he, hr⟩ := hr
    obtain ⟨d, hd, rfl, hts, -⟩ := h he
    split at hr
    next p ts' =>
      simp only [bind_eq_ok, keeping_eq_ok, Prod.exists] at hr
      obtain ⟨es', rest', hes, hr⟩ := hr
      cases hr
      obtain ⟨ds, hds, rfl, hts', -⟩ := ih hes
      exact ⟨.arg d ds, ⟨hd, hds⟩, rfl, by simp [hts, hts'], by simp⟩
    next =>
      cases hr
      exact ⟨.lastArg d, hd, rfl, hts, by simp⟩

theorem sound_argumentList {ts rest : List Token} {es : List Expr}
    (hr : argumentList expr ts = .ok (es, rest)) : Derived .argsEnd es ts rest := by
  unfold argumentList at hr
  split at hr
  next =>
    cases hr
    exact ⟨.noArgs, trivial, rfl, rfl, by simp⟩
  next =>
    simp only [bind_eq_ok, keeping_eq_ok, expect_eq_ok, Prod.exists] at hr
    obtain ⟨es', ts', hes, _, ⟨p, rfl⟩, hr⟩ := hr
    cases hr
    obtain ⟨ds, hds, rfl, hts, -⟩ := sound_arguments h hes
    exact ⟨.someArgs ds, hds, rfl, by simp [hts], by simp⟩

theorem sound_parenthesized {ts rest : List Token} {e : Expr}
    (hr : parenthesized expr ts = .ok (e, rest)) :
    ∃ d : Derivation (.phrase .expr), d.Nearest ∧ d.meaning = e ∧
      words ts = .mark .lparen :: (d.yield ++ .mark .rparen :: words rest) := by
  simp only [parenthesized, bind_eq_ok, keeping_eq_ok, expect_eq_ok, Prod.exists] at hr
  obtain ⟨ts', ⟨p, rfl⟩, e', ts'', he, _, ⟨q, rfl⟩, hr⟩ := hr
  cases hr
  obtain ⟨d, hd, rfl, hts, -⟩ := h he
  exact ⟨d, hd, rfl, by simp [hts]⟩

theorem sound_bracketed {p : Place} {ts rest : List Token} {e : Expr}
    (hr : bracketed expr ts = .ok (e, rest)) :
    Derived (.phrase .factor) e (⟨.mark .lparen, p⟩ :: ts) rest := by
  simp only [bracketed, bind_eq_ok, keeping_eq_ok, expect_eq_ok, Prod.exists] at hr
  obtain ⟨c, ts', hc, ts'', ⟨q, rfl⟩, hr⟩ := hr
  obtain ⟨dc, hdc, rfl, hts, -⟩ := h hc
  split at hr
  next q' ts' =>
    simp only [bind_eq_ok, keeping_eq_ok, expect_eq_ok, Prod.exists] at hr
    obtain ⟨t, _, ht, _, ⟨q'', rfl⟩, a, _, ha, hr⟩ := hr
    cases hr
    obtain ⟨dt, hdt, rfl, hts'⟩ := sound_parenthesized h ht
    obtain ⟨da, hda, rfl, hts''⟩ := sound_parenthesized h ha
    exact ⟨.ternary dc dt da, ⟨hdc, hdt, hda⟩, rfl, by simp [hts, hts', hts''], by simp⟩
  next =>
    cases hr
    exact ⟨.group dc, hdc, rfl, by simp [hts], by simp⟩

theorem sound_factor : Sound .factor (factor expr) := by
  intro ts e rest hr
  unfold factor at hr
  split at hr
  next n p ts =>
    cases hr
    exact ⟨.int n, trivial, rfl, rfl, by simp⟩
  next x p ts =>
    cases hr
    exact ⟨.float x, trivial, rfl, rfl, by simp⟩
  next name p q ts =>
    simp only [bind_eq_ok, Prod.exists] at hr
    obtain ⟨es, ts', hes, hr⟩ := hr
    cases hr
    obtain ⟨ds, hds, rfl, hts, -⟩ := sound_argumentList h hes
    exact ⟨.call name ds, hds, rfl, by simp [hts], by simp⟩
  next name p ts _ =>
    cases hr
    exact ⟨.var name, trivial, rfl, rfl, by simp⟩
  next p ts => exact sound_bracketed h hr
  next => cases hr

theorem sound_power : Sound .power (power expr) := by
  intro ts e rest hr
  simp only [power, bind_eq_ok, Prod.exists] at hr
  obtain ⟨b, ts', hb, hr⟩ := hr
  obtain ⟨d, hd, rfl, hts, -⟩ := sound_factor h hb
  split at hr
  next p ts' =>
    simp only [bind_eq_ok, keeping_eq_ok, Prod.exists] at hr
    obtain ⟨x, _, hx, hr⟩ := hr
    cases hr
    obtain ⟨d', hd', rfl, hts', -⟩ := sound_factor h hx
    exact ⟨.raised d d', ⟨hd, hd'⟩, rfl, by simp [hts, hts'], by simp⟩
  next =>
    cases hr
    exact ⟨.base d, hd, rfl, hts, by simp⟩

end Rules

/-- A chain reads operators of its rank and what its operands read. -/
theorem sound_chain {l : Chain} {operand : Rule Expr} (h : Sound l.operand operand) {n : Nat}
    {ts rest : List Token} {e e' : Expr} (hr : chain l.rank operand n e ts = .ok (e', rest)) :
    ∃ d : Derivation (.operators l), d.Nearest ∧ d.meaning e = e' ∧
      words ts = d.yield ++ words rest := by
  fun_induction chain l.rank operand n e ts with
  | case1 n e o p ts ho ih =>
    simp only [bind_eq_ok, keeping_eq_ok, Prod.exists] at hr
    obtain ⟨x, ts', hx, hr⟩ := hr
    obtain ⟨d, hd, rfl, hts, -⟩ := h hx
    obtain ⟨ds, hds, rfl, hts'⟩ := ih _ _ hr
    exact ⟨.operator l o ho d ds, ⟨hd, hds⟩, rfl, by simp [hts, hts']⟩
  | case2 n e o p ts ho =>
    cases hr
    exact ⟨.noOperator l, trivial, rfl, rfl⟩
  | case3 n e ts _ =>
    cases hr
    exact ⟨.noOperator l, trivial, rfl, rfl⟩

theorem sound_joined {l : Chain} {first operand : Rule Expr} (hf : Sound l.first first)
    (ho : Sound l.operand operand) : Sound (.chain l) (joined l.rank first operand) := by
  intro ts e rest hr
  simp only [joined, bind_eq_ok, Prod.exists] at hr
  obtain ⟨x, ts', hx, hr⟩ := hr
  obtain ⟨d, hd, rfl, hts, -⟩ := hf hx
  obtain ⟨ds, hds, rfl, hts'⟩ := sound_chain ho hr
  exact ⟨.chain l d ds, ⟨hd, hds⟩, rfl, by simp [hts, hts'], by simp⟩

section Rules

variable {expr : Rule Expr} (h : Sound .expr expr)
include h

theorem sound_term : Sound (.chain .term) (term expr) :=
  sound_joined (l := .term) (sound_power h) (sound_power h)

theorem sound_opening : Sound .opening (opening expr) := by
  intro ts e rest hr
  unfold opening at hr
  split at hr
  next s p ts =>
    cases hr
    exact ⟨.string s, trivial, rfl, rfl, by simp⟩
  next =>
    obtain ⟨d, hd, rfl, hts, -⟩ := sound_term h hr
    exact ⟨.term d, hd, rfl, hts, by simp⟩

theorem sound_disjunction : Sound (.chain .or) (disjunction expr) := by
  have hsum : Sound (.chain .additive) (additive expr) :=
    sound_joined (l := .additive) (sound_opening h) (sound_term h)
  have hcompare : Sound (.chain .compare) (comparison expr) :=
    sound_joined (l := .compare) hsum hsum
  have hand : Sound (.chain .and) (conjunction expr) :=
    sound_joined (l := .and) hcompare hcompare
  exact sound_joined (l := .or) hand hand

theorem sound_conditional {p : Place} {ts rest : List Token} {e : Expr}
    (hr : conditional expr ts = .ok (e, rest)) :
    Derived (.phrase .conditional) e (⟨.mark .ifWord, p⟩ :: ts) rest := by
  simp only [conditional, bind_eq_ok, keeping_eq_ok, expect_eq_ok, Prod.exists] at hr
  obtain ⟨c, _, hc, ts', ⟨q, rfl⟩, t, ts'', ht, hr⟩ := hr
  obtain ⟨dc, hdc, rfl, hts⟩ := sound_parenthesized h hc
  obtain ⟨dt, hdt, rfl, hts', hopen⟩ := h ht
  split at hr
  next q' ts'' =>
    simp only [bind_eq_ok, keeping_eq_ok, expect_eq_ok, Prod.exists] at hr
    obtain ⟨_, ⟨q'', rfl⟩, a, _, ha, hr⟩ := hr
    cases hr
    obtain ⟨da, hda, rfl, hts'', hopen'⟩ := h ha
    -- the branch was read up to an `else`, so it does not end with an open conditional
    have hclosed : dt.isOpen = false := by simpa using hopen
    exact ⟨.ifElse dc dt da, ⟨⟨hdc, hdt, hda⟩, hclosed⟩, rfl, by simp [hts, hts', hts''], hopen'⟩
  next hne =>
    cases hr
    refine ⟨.ifThen dc dt, ⟨hdc, hdt⟩, rfl, by simp [hts, hts'], fun _ helse => ?_⟩
    obtain ⟨q', ts', rfl⟩ := exists_cons_of_head helse
    exact hne q' ts' rfl

theorem sound_exprStep : Sound .expr (exprStep expr) := by
  intro ts e rest hr
  unfold exprStep at hr
  split at hr
  next p ts =>
    obtain ⟨d, hd, rfl, hts, hopen⟩ := sound_conditional h hr
    exact ⟨.conditional d, hd, rfl, hts, hopen⟩
  next =>
    obtain ⟨d, hd, rfl, hts, -⟩ := sound_disjunction h hr
    exact ⟨.or d, hd, rfl, hts, by simp⟩

theorem sound_stages {n : Nat} {ts rest : List Token} {e e' : Expr}
    (hr : stages expr n e ts = .ok (e', rest)) :
    ∃ d : Derivation .stages, d.Nearest ∧ d.meaning e = e' ∧ words ts = d.yield ++ words rest ∧
      (n ≠ 0 → (words ts).head? = some (.mark .arrow) → d ≠ .noStage) := by
  fun_induction stages expr n e ts with
  | case1 n e p ts ih =>
    simp only [bind_eq_ok, keeping_eq_ok, Prod.exists] at hr
    obtain ⟨x, ts', hx, hr⟩ := hr
    obtain ⟨ds, hds, rfl, hts', -⟩ := ih _ _ hr
    split at hx
    next name q ts =>
      simp only [bind_eq_ok, expect_eq_ok, Prod.exists] at hx
      obtain ⟨_, ⟨q', rfl⟩, es, _, hes, hx⟩ := hx
      cases hx
      obtain ⟨as, has, rfl, hts, -⟩ := sound_argumentList h hes
      exact ⟨.stage name as ds, ⟨has, hds⟩, rfl, by simp [hts, hts'], by simp⟩
    next => cases hx
  | case2 n e ts hne =>
    cases hr
    refine ⟨.noStage, trivial, rfl, rfl, fun hn harrow => ?_⟩
    obtain ⟨p, ts', rfl⟩ := exists_cons_of_head harrow
    exact (hne (n - 1) p ts' (by omega) rfl).elim

theorem sound_lineStep {ts rest : List Token} {l : Line}
    (hr : lineStep expr ts = .ok (l, rest)) : Derived .line l ts rest := by
  unfold lineStep at hr
  split at hr
  next x p q ts =>
    simp only [bind_eq_ok, Prod.exists] at hr
    obtain ⟨e, _, he, hr⟩ := hr
    cases hr
    unfold assigned at he
    split at he
    next s p' q' ts =>
      obtain ⟨d, hd, rfl, hts, hne⟩ := sound_stages h he
      cases d with
      | noStage => exact absurd rfl (hne (by simp) rfl)
      | stage f as ds =>
        exact ⟨.assignFlow x (.flow s f as ds), hd, rfl, by simpa using hts, by simp⟩
    next =>
      obtain ⟨d, hd, rfl, hts, -⟩ := h he
      exact ⟨.assign x d, hd, rfl, by simp [hts], by simp⟩
  next =>
    simp only [bind_eq_ok, Prod.exists] at hr
    obtain ⟨e, _, he, hr⟩ := hr
    cases hr
    obtain ⟨d, hd, rfl, hts, -⟩ := h he
    exact ⟨.bare d, hd, rfl, by simp [hts], by simp⟩

end Rules

theorem sound_expr (n : Nat) : Sound .expr (expr n) := by
  induction n with
  | zero =>
    intro ts e rest hr
    cases hr
  | succ n ih => exact sound_exprStep ih

theorem sound_line {ts rest : List Token} {l : Line} (hr : line ts = .ok (l, rest)) :
    Derived .line l ts rest :=
  sound_lineStep (sound_expr _) hr

end Parser

end Flowline
