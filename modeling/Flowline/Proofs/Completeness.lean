/-
  The parser reads every derivation, and reads a line just if there is one.

  A derived word is read where the tokens after it do not extend it.  The
  nesting is bounded by the number of tokens, and so is every loop.

  * `Parser.Reads m n x ts rest`: the rule of `n` reads `x` off the tokens `ts`
    and leaves `rest`;
  * `Parser.Complete d`: the word of `d` is read, with one lemma per
    alternative of the grammar;
  * `Parser.complete`: so for all derivations;
  * `sentence ts`: the kinds before the first end of the input;
  * `read_eq_whole_iff`: a list of tokens is read as a line just if its
    sentence has a derivation that stands for the line.
-/
import Flowline.Proofs.Soundness
import Flowline.Proofs.Unambiguity

namespace Flowline

namespace Parser

/-! ## Derivations are read -/

/-- The rule that reads the words of a phrase, over a reader of nested
    expressions. -/
def ruleOf (expr : Rule Expr) : Phrase → Rule Expr
  | .expr | .conditional => exprStep expr
  | .chain .term => term expr
  | .chain .additive => additive expr
  | .chain .compare => comparison expr
  | .chain .and => conjunction expr
  | .chain .or => disjunction expr
  | .opening => opening expr
  | .power => power expr
  | .factor => factor expr

theorem ruleOf_chain (expr : Rule Expr) (l : Chain) :
    ruleOf expr (.chain l) = joined l.rank (ruleOf expr l.first) (ruleOf expr l.operand) := by
  cases l <;> rfl

/-- Reading from a nonterminal gives `x` and leaves `rest`, with expressions
    nested at most `m` deep below a phrase and enough rounds for every loop. -/
def Reads (m : Nat) : (n : Nonterminal) → n.Meaning → List Token → List Token → Prop
  | .line, l, ts, rest => lineStep (expr (m + 1)) ts = .ok (l, rest)
  | .flow, e, ts, rest => assigned (expr (m + 1)) ts = .ok (e, rest)
  | .phrase p, e, ts, rest => ruleOf (expr m) p ts = .ok (e, rest)
  | .args, es, ts, rest => ∀ i, ts.length ≤ i → arguments (expr (m + 1)) i ts = .ok (es, rest)
  | .argsEnd, es, ts, rest => argumentList (expr (m + 1)) ts = .ok (es, rest)
  | .stages, f, ts, rest =>
    ∀ i e, ts.length ≤ i → stages (expr (m + 1)) i e ts = .ok (f e, rest)
  | .operators l, f, ts, rest =>
    ∀ i e, ts.length ≤ i → chain l.rank (ruleOf (expr m) l.operand) i e ts = .ok (f e, rest)

/-- The word of the derivation is read where what follows does not extend it,
    and gives what the derivation stands for. -/
def Complete {n : Nonterminal} (d : Derivation n) : Prop :=
  ∀ ⦃m : Nat⦄ ⦃ts : List Token⦄ ⦃k : List Kind⦄, d.Nearest → d.Follow k →
    words ts = d.yield ++ k → ts.length ≤ m + 1 →
    ∃ rest, words rest = k ∧ Reads m n d.meaning ts rest

theorem length_le_of_words {ts rest : List Token} {w k : List Kind} (hts : words ts = w ++ k)
    (hrest : words rest = k) : rest.length ≤ ts.length := by
  have h := congrArg List.length hts
  rw [← hrest] at h
  simp only [words, List.length_append, List.length_map] at h
  omega

namespace Complete

/-- A nested expression is read if there is a token for each level of
    nesting. -/
theorem nested {e : Derivation (.phrase .expr)} (he : Complete e) {m : Nat} {ts : List Token}
    {k : List Kind} (h : e.Nearest) (hk : e.Follow k) (hts : words ts = e.yield ++ k)
    (hm : ts.length ≤ m) :
    ∃ rest, words rest = k ∧ rest.length ≤ ts.length ∧ expr m ts = .ok (e.meaning, rest) := by
  cases m with
  | zero =>
    obtain ⟨_, w, hw, -⟩ := e.exists_cons_yield
    rw [hw, List.cons_append, words_eq_cons_iff] at hts
    obtain ⟨p, us, rfl, -⟩ := hts
    cases hm
  | succ m =>
    obtain ⟨rest, hrest, hr⟩ := he h hk hts hm
    exact ⟨rest, hrest, length_le_of_words hts hrest, hr⟩

/-- An expression in parentheses is read without a node of its own. -/
theorem parenthesized {e : Derivation (.phrase .expr)} (he : Complete e) {m : Nat}
    {ts : List Token} {k : List Kind} (h : e.Nearest)
    (hts : words ts = .mark .lparen :: (e.yield ++ .mark .rparen :: k)) (hm : ts.length ≤ m + 1) :
    ∃ rest, words rest = k ∧ rest.length ≤ ts.length ∧
      parenthesized (expr m) ts = .ok (e.meaning, rest) := by
  rw [words_eq_cons_iff] at hts
  obtain ⟨p, us, rfl, hus⟩ := hts
  rw [List.length_cons] at hm
  obtain ⟨vs, hvs, hlen, hr⟩ := he.nested (m := m) h (e.follow_closes rfl _) hus (by omega)
  rw [words_eq_cons_iff] at hvs
  obtain ⟨q, vs, rfl, hvs⟩ := hvs
  rw [List.length_cons] at hlen
  refine ⟨vs, hvs, by rw [List.length_cons]; omega, ?_⟩
  simp only [Parser.parenthesized, bind_eq_ok, keeping_eq_ok, expect_eq_ok, Prod.exists]
  exact ⟨_, ⟨p, rfl⟩, _, _, hr, _, ⟨q, rfl⟩, rfl⟩

theorem assignFlow {x : String} {f : Derivation .flow} (hf : Complete f) :
    Complete (.assignFlow x f) := by
  intro m ts k h hk hts hm
  simp only [Derivation.yield, List.cons_append, words_eq_cons_iff] at hts
  obtain ⟨p, _, rfl, q, us, rfl, hus⟩ := hts
  simp only [List.length_cons] at hm
  obtain ⟨rest, hrest, hr⟩ := hf (m := m) h (AtEnd.head_ne hk _) hus (by omega)
  refine ⟨rest, hrest, ?_⟩
  simp only [Reads, lineStep, bind_eq_ok, Prod.exists]
  exact ⟨_, _, hr, rfl⟩

theorem assign {x : String} {e : Derivation (.phrase .expr)} (he : Complete e) :
    Complete (.assign x e) := by
  intro m ts k h hk hts hm
  simp only [Derivation.yield, List.cons_append, words_eq_cons_iff] at hts
  obtain ⟨p, _, rfl, q, us, rfl, hus⟩ := hts
  simp only [List.length_cons] at hm
  obtain ⟨rest, hrest, -, hr⟩ :=
    he.nested (m := m + 1) h (e.follow_of_atEnd hk) hus (by omega)
  refine ⟨rest, hrest, ?_⟩
  simp only [Reads, lineStep, bind_eq_ok, Prod.exists]
  refine ⟨_, _, ?_, rfl⟩
  -- no expression starts like a flow
  unfold assigned
  split
  next s p' q' vs =>
    rcases e.second_of_atEnd hk hus.symm with h | h <;> cases h
  next => exact hr

theorem bare {e : Derivation (.phrase .expr)} (he : Complete e) : Complete (.bare e) := by
  intro m ts k h hk hts hm
  obtain ⟨rest, hrest, hr⟩ := he h (e.follow_of_atEnd hk) hts hm
  refine ⟨rest, hrest, ?_⟩
  simp only [Reads]
  unfold lineStep
  split
  next => exact absurd hts.symm (e.yield_ne_assign hk)
  next =>
    simp only [bind_eq_ok, Prod.exists]
    exact ⟨_, _, hr, rfl⟩

theorem flow {s f : String} {as : Derivation .argsEnd} {rest : Derivation .stages}
    (has : Complete as) (hrest : Complete rest) : Complete (.flow s f as rest) := by
  intro m ts k h hk hts hm
  simp only [Derivation.yield, List.cons_append, List.append_assoc, words_eq_cons_iff] at hts
  obtain ⟨p, _, rfl, p', _, rfl, q, _, rfl, q', us, rfl, hus⟩ := hts
  simp only [List.length_cons] at hm
  obtain ⟨vs, hvs, hr⟩ := has (m := m) h.1 trivial hus (by omega)
  have hlen := length_le_of_words hus hvs
  obtain ⟨ws, hws, hr'⟩ := hrest (m := m) h.2 hk hvs (by omega)
  refine ⟨ws, hws, ?_⟩
  simp only [Reads, assigned, stages, bind_eq_ok, keeping_eq_ok, expect_eq_ok, Prod.exists]
  exact ⟨_, _, ⟨_, ⟨q', rfl⟩, _, _, hr, rfl⟩, hr' _ _ (by simp only [List.length_cons]; omega)⟩

theorem noStage : Complete .noStage := by
  intro m ts k _ hk hts _
  obtain rfl : words ts = k := hts
  refine ⟨ts, rfl, fun i e _ => ?_⟩
  unfold stages
  split
  next => exact absurd rfl hk
  next => rfl

theorem stage {f : String} {as : Derivation .argsEnd} {rest : Derivation .stages}
    (has : Complete as) (hrest : Complete rest) : Complete (.stage f as rest) := by
  intro m ts k h hk hts hm
  simp only [Derivation.yield, List.cons_append, List.append_assoc, words_eq_cons_iff] at hts
  obtain ⟨p, _, rfl, q, _, rfl, q', us, rfl, hus⟩ := hts
  simp only [List.length_cons] at hm
  obtain ⟨vs, hvs, hr⟩ := has (m := m) h.1 trivial hus (by omega)
  have hlen := length_le_of_words hus hvs
  obtain ⟨ws, hws, hr'⟩ := hrest (m := m) h.2 hk hvs (by omega)
  refine ⟨ws, hws, fun i e hi => ?_⟩
  simp only [List.length_cons] at hi
  obtain ⟨i, rfl⟩ : ∃ j, i = j + 1 := ⟨i - 1, by omega⟩
  simp only [stages, bind_eq_ok, keeping_eq_ok, expect_eq_ok, Prod.exists]
  exact ⟨_, _, ⟨_, ⟨q', rfl⟩, _, _, hr, rfl⟩, hr' _ _ (by omega)⟩

theorem noOperator {l : Chain} : Complete (.noOperator l) := by
  intro m ts k _ hk hts _
  obtain rfl : words ts = k := hts
  refine ⟨ts, rfl, fun i e _ => ?_⟩
  unfold Parser.chain
  split
  next => exact if_neg (Nat.ne_of_gt hk)
  next => rfl

theorem operator {l : Chain} {o : Operator} {rank : o.rank = l.rank}
    {e : Derivation (.phrase l.operand)} {rest : Derivation (.operators l)} (he : Complete e)
    (hrest : Complete rest) : Complete (.operator l o rank e rest) := by
  intro m ts k h hk hts hm
  simp only [Derivation.yield, List.cons_append, List.append_assoc, words_eq_cons_iff] at hts
  obtain ⟨p, us, rfl, hus⟩ := hts
  rw [List.length_cons] at hm
  obtain ⟨vs, hvs, hr⟩ := he (m := m) h.1 (e.follow_operand rest hk) hus (by omega)
  have hlen := length_le_of_words hus hvs
  obtain ⟨ws, hws, hr'⟩ := hrest (m := m) h.2 hk hvs (by omega)
  refine ⟨ws, hws, fun i x hi => ?_⟩
  rw [List.length_cons] at hi
  obtain ⟨i, rfl⟩ : ∃ j, i = j + 1 := ⟨i - 1, by omega⟩
  simp only [Parser.chain, rank, if_true, bind_eq_ok, keeping_eq_ok, Prod.exists]
  exact ⟨_, _, hr, hr' i _ (by omega)⟩

theorem chain {l : Chain} {e : Derivation (.phrase l.first)} {rest : Derivation (.operators l)}
    (he : Complete e) (hrest : Complete rest) : Complete (.chain l e rest) := by
  intro m ts k h hk hts hm
  simp only [Derivation.yield, List.append_assoc] at hts
  obtain ⟨us, hus, hr⟩ := he h.1 (e.follow_first rest hk.1) hts hm
  have hlen := length_le_of_words hts hus
  obtain ⟨vs, hvs, hr'⟩ := hrest (m := m) h.2 hk.1 hus (by omega)
  refine ⟨vs, hvs, ?_⟩
  simp only [Reads, ruleOf_chain, joined, bind_eq_ok, Prod.exists]
  exact ⟨_, _, hr, hr' _ _ (Nat.le_refl _)⟩

theorem or {e : Derivation (.phrase (.chain .or))} (he : Complete e) : Complete (.or e) := by
  intro m ts k h hk hts hm
  obtain ⟨rest, hrest, hr⟩ := he h (e.follow_chain hk.1) hts hm
  refine ⟨rest, hrest, ?_⟩
  obtain ⟨c, w, hw, hstart⟩ := e.exists_cons_yield
  simp only [Derivation.yield, hw, List.cons_append, words_eq_cons_iff] at hts
  obtain ⟨p, us, rfl, -⟩ := hts
  simp only [Reads, ruleOf]
  unfold exprStep
  split
  next heq =>
    cases heq
    cases hstart
  next => exact hr

theorem conditional {c : Derivation (.phrase .conditional)} (hc : Complete c) :
    Complete (.conditional c) :=
  hc

theorem ifThen {c t : Derivation (.phrase .expr)} (hc : Complete c) (ht : Complete t) :
    Complete (.ifThen c t) := by
  intro m ts k h hk hts hm
  simp only [Derivation.yield, List.cons_append, List.append_assoc] at hts
  rw [words_eq_cons_iff] at hts
  obtain ⟨p, us, rfl, hus⟩ := hts
  rw [List.length_cons] at hm
  obtain ⟨vs, hvs, hlen, hr⟩ := hc.parenthesized (m := m) h.1 hus (by omega)
  rw [words_eq_cons_iff] at hvs
  obtain ⟨q, vs, rfl, hvs⟩ := hvs
  rw [List.length_cons] at hlen
  obtain ⟨ws, rfl, -, hr'⟩ :=
    ht.nested (m := m) h.2 ⟨hk.1, fun _ => hk.2 rfl⟩ hvs (by omega)
  refine ⟨ws, rfl, ?_⟩
  simp only [Reads, ruleOf, exprStep, Parser.conditional, bind_eq_ok, keeping_eq_ok,
    expect_eq_ok, Prod.exists]
  refine ⟨_, _, hr, _, ⟨q, rfl⟩, _, _, hr', ?_⟩
  split
  next => exact absurd rfl (hk.2 rfl)
  next => rfl

theorem ifElse {c t e : Derivation (.phrase .expr)} (hc : Complete c) (ht : Complete t)
    (he : Complete e) : Complete (.ifElse c t e) := by
  intro m ts k h hk hts hm
  simp only [Derivation.yield, List.cons_append, List.append_assoc] at hts
  rw [words_eq_cons_iff] at hts
  obtain ⟨p, us, rfl, hus⟩ := hts
  rw [List.length_cons] at hm
  obtain ⟨vs, hvs, hlen, hr⟩ := hc.parenthesized (m := m) h.1.1 hus (by omega)
  rw [words_eq_cons_iff] at hvs
  obtain ⟨q, vs, rfl, hvs⟩ := hvs
  rw [List.length_cons] at hlen
  obtain ⟨ws, hws, hlen', hr'⟩ :=
    ht.nested (m := m) h.1.2.1 (Derivation.follow_else h.2 _) hvs (by omega)
  simp only [words_eq_cons_iff] at hws
  obtain ⟨q', _, rfl, q'', xs, rfl, hxs⟩ := hws
  simp only [List.length_cons] at hlen'
  obtain ⟨ys, rfl, -, hr''⟩ := he.nested (m := m) h.1.2.2 hk hxs (by omega)
  refine ⟨ys, rfl, ?_⟩
  simp only [Reads, ruleOf, exprStep, Parser.conditional, bind_eq_ok, keeping_eq_ok,
    expect_eq_ok, Prod.exists]
  refine ⟨_, _, hr, _, ⟨q, rfl⟩, _, _, hr', ?_⟩
  simp only [bind_eq_ok, keeping_eq_ok, expect_eq_ok, Prod.exists]
  exact ⟨_, ⟨q'', rfl⟩, _, _, hr'', rfl⟩

theorem string {s : String} : Complete (.string s) := by
  intro m ts k h hk hts hm
  obtain ⟨p, us, rfl, hus⟩ := words_eq_cons_iff.1 hts
  exact ⟨us, hus, rfl⟩

theorem term {e : Derivation (.phrase (.chain .term))} (he : Complete e) : Complete (.term e) := by
  intro m ts k h hk hts hm
  obtain ⟨rest, hrest, hr⟩ := he h (e.follow_chain hk.1) hts hm
  refine ⟨rest, hrest, ?_⟩
  obtain ⟨c, w, hw, hstart⟩ := e.exists_cons_yield
  simp only [Derivation.yield, hw, List.cons_append, words_eq_cons_iff] at hts
  obtain ⟨p, us, rfl, -⟩ := hts
  simp only [Reads, ruleOf]
  unfold opening
  split
  next heq =>
    cases heq
    cases hstart
  next => exact hr

theorem base {b : Derivation (.phrase .factor)} (hb : Complete b) : Complete (.base b) := by
  intro m ts k h hk hts hm
  obtain ⟨us, rfl, hr⟩ := hb h (b.follow_factor hk.1) hts hm
  refine ⟨us, rfl, ?_⟩
  simp only [Reads, ruleOf, power, bind_eq_ok, Prod.exists]
  refine ⟨_, _, hr, ?_⟩
  split
  next => exact absurd hk.1 (Nat.not_succ_le_zero 0)
  next => rfl

theorem raised {b e : Derivation (.phrase .factor)} (hb : Complete b) (he : Complete e) :
    Complete (.raised b e) := by
  intro m ts k h hk hts hm
  simp only [Derivation.yield, List.append_assoc, List.cons_append] at hts
  obtain ⟨us, hus, hr⟩ := hb h.1 (b.follow_power _) hts hm
  have hlen := length_le_of_words hts hus
  rw [words_eq_cons_iff] at hus
  obtain ⟨p, us, rfl, hus⟩ := hus
  rw [List.length_cons] at hlen
  obtain ⟨vs, hvs, hr'⟩ := he (m := m) h.2 (e.follow_factor hk.1) hus (by omega)
  refine ⟨vs, hvs, ?_⟩
  simp only [Reads, ruleOf, power, bind_eq_ok, Prod.exists]
  refine ⟨_, _, hr, ?_⟩
  simp only [bind_eq_ok, keeping_eq_ok, Prod.exists]
  exact ⟨_, _, hr', rfl⟩

theorem int {n : Int64} : Complete (.int n) := by
  intro m ts k h hk hts hm
  obtain ⟨p, us, rfl, hus⟩ := words_eq_cons_iff.1 hts
  exact ⟨us, hus, rfl⟩

theorem float {x : Float} : Complete (.float x) := by
  intro m ts k h hk hts hm
  obtain ⟨p, us, rfl, hus⟩ := words_eq_cons_iff.1 hts
  exact ⟨us, hus, rfl⟩

theorem var {x : String} : Complete (.var x) := by
  intro m ts k h hk hts hm
  obtain ⟨p, us, rfl, rfl⟩ := words_eq_cons_iff.1 hts
  refine ⟨us, rfl, ?_⟩
  simp only [Reads, ruleOf]
  -- the name is not followed by a parenthesis
  cases us with
  | nil => rfl
  | cons t us =>
    obtain ⟨kind, q⟩ := t
    cases kind with
    | mark m => cases m <;> first | exact hk.1.elim | rfl
    | _ => rfl

theorem call {f : String} {as : Derivation .argsEnd} (has : Complete as) :
    Complete (.call f as) := by
  intro m ts k h hk hts hm
  simp only [Derivation.yield, List.cons_append, words_eq_cons_iff] at hts
  obtain ⟨p, _, rfl, q, us, rfl, hus⟩ := hts
  simp only [List.length_cons] at hm
  obtain ⟨m, rfl⟩ : ∃ j, m = j + 1 := ⟨m - 1, by omega⟩
  obtain ⟨vs, hvs, hr⟩ := has (m := m) h trivial hus (by omega)
  refine ⟨vs, hvs, ?_⟩
  simp only [Reads, ruleOf, factor, bind_eq_ok, Prod.exists]
  exact ⟨_, _, hr, rfl⟩

theorem group {e : Derivation (.phrase .expr)} (he : Complete e) : Complete (.group e) := by
  intro m ts k h hk hts hm
  simp only [Derivation.yield, List.cons_append, List.append_assoc, words_eq_cons_iff] at hts
  obtain ⟨p, us, rfl, hus⟩ := hts
  rw [List.length_cons] at hm
  obtain ⟨vs, hvs, -, hr⟩ := he.nested h (e.follow_closes rfl _) hus (Nat.le_of_succ_le_succ hm)
  rw [words_eq_cons_iff] at hvs
  obtain ⟨q, vs, rfl, rfl⟩ := hvs
  refine ⟨vs, rfl, ?_⟩
  simp only [Reads, ruleOf, factor, bracketed, bind_eq_ok, keeping_eq_ok, expect_eq_ok, Prod.exists]
  refine ⟨_, _, hr, _, ⟨q, rfl⟩, ?_⟩
  split
  next => exact hk.1.elim
  next => rfl

theorem ternary {c t e : Derivation (.phrase .expr)} (hc : Complete c) (ht : Complete t)
    (he : Complete e) : Complete (.ternary c t e) := by
  intro m ts k h hk hts hm
  simp only [Derivation.yield, List.cons_append, List.append_assoc, words_eq_cons_iff] at hts
  obtain ⟨p, us, rfl, hus⟩ := hts
  rw [List.length_cons] at hm
  obtain ⟨vs, hvs, hlen, hr⟩ := hc.nested (m := m) h.1 (c.follow_closes rfl _) hus (by omega)
  rw [words_eq_cons_iff] at hvs
  obtain ⟨q, vs, rfl, hvs⟩ := hvs
  rw [words_eq_cons_iff] at hvs
  obtain ⟨q', vs, rfl, hvs⟩ := hvs
  simp only [List.length_cons] at hlen
  obtain ⟨ws, hws, hlen', hr'⟩ := ht.parenthesized (m := m) h.2.1 hvs (by omega)
  rw [words_eq_cons_iff] at hws
  obtain ⟨q'', ws, rfl, hws⟩ := hws
  rw [List.length_cons] at hlen'
  obtain ⟨xs, hxs, -, hr''⟩ := he.parenthesized (m := m) h.2.2 hws (by omega)
  refine ⟨xs, hxs, ?_⟩
  simp only [Reads, ruleOf, factor, bracketed, bind_eq_ok, keeping_eq_ok, expect_eq_ok, Prod.exists]
  refine ⟨_, _, hr, _, ⟨q, rfl⟩, ?_⟩
  simp only [bind_eq_ok, keeping_eq_ok, expect_eq_ok, Prod.exists]
  exact ⟨_, _, hr', _, ⟨q'', rfl⟩, _, _, hr'', rfl⟩

theorem lastArg {e : Derivation (.phrase .expr)} (he : Complete e) : Complete (.lastArg e) := by
  intro m ts k h hk hts hm
  obtain ⟨us, rfl, hr⟩ := he h (e.follow_rparen hk) hts hm
  refine ⟨us, rfl, fun i hi => ?_⟩
  obtain ⟨i, rfl⟩ : ∃ j, i = j + 1 := by
    obtain ⟨_, w, hw, -⟩ := e.exists_cons_yield
    rw [Derivation.yield, hw, List.cons_append, words_eq_cons_iff] at hts
    obtain ⟨p, vs, rfl, -⟩ := hts
    exact ⟨i - 1, by rw [List.length_cons] at hi; omega⟩
  simp only [arguments, bind_eq_ok, Prod.exists]
  refine ⟨_, _, hr, ?_⟩
  split
  next => cases hk
  next => rfl

theorem arg {e : Derivation (.phrase .expr)} {rest : Derivation .args} (he : Complete e)
    (hrest : Complete rest) : Complete (.arg e rest) := by
  intro m ts k h hk hts hm
  simp only [Derivation.yield, List.append_assoc, List.cons_append] at hts
  obtain ⟨us, hus, hr⟩ := he h.1 (e.follow_closes rfl _) hts hm
  have hlen := length_le_of_words hts hus
  rw [words_eq_cons_iff] at hus
  obtain ⟨p, us, rfl, hus⟩ := hus
  rw [List.length_cons] at hlen
  obtain ⟨vs, hvs, hr'⟩ := hrest (m := m) h.2 hk hus (by omega)
  refine ⟨vs, hvs, fun i hi => ?_⟩
  obtain ⟨i, rfl⟩ : ∃ j, i = j + 1 := ⟨i - 1, by omega⟩
  simp only [arguments, bind_eq_ok, Prod.exists]
  refine ⟨_, _, hr, ?_⟩
  simp only [bind_eq_ok, keeping_eq_ok, Prod.exists]
  exact ⟨_, _, hr' i (by omega), rfl⟩

theorem noArgs : Complete .noArgs := by
  intro m ts k _ _ hts _
  obtain ⟨p, us, rfl, hus⟩ := words_eq_cons_iff.1 hts
  exact ⟨us, hus, rfl⟩

theorem someArgs {as : Derivation .args} (has : Complete as) : Complete (.someArgs as) := by
  intro m ts k h _ hts hm
  simp only [Derivation.yield, List.append_assoc, List.cons_append, List.nil_append] at hts
  have hfollow : as.Follow (.mark .rparen :: k) := rfl
  obtain ⟨us, hus, hr⟩ := has h hfollow hts hm
  rw [words_eq_cons_iff] at hus
  obtain ⟨p, us, rfl, hus⟩ := hus
  refine ⟨us, hus, ?_⟩
  simp only [Reads]
  unfold argumentList
  split
  next => exact absurd hts.symm (as.args_ne_rparen _ _)
  next =>
    simp only [bind_eq_ok, keeping_eq_ok, expect_eq_ok, Prod.exists]
    exact ⟨_, _, hr _ (Nat.le_refl _), _, ⟨p, rfl⟩, rfl⟩

end Complete

/-- **Every derivation is read.** -/
theorem complete {n : Nonterminal} (d : Derivation n) : Complete d := by
  induction d with
  | assignFlow _ _ ih => exact .assignFlow ih
  | assign _ _ ih => exact .assign ih
  | bare _ ih => exact .bare ih
  | flow _ _ _ _ ih₁ ih₂ => exact .flow ih₁ ih₂
  | noStage => exact .noStage
  | stage _ _ _ ih₁ ih₂ => exact .stage ih₁ ih₂
  | conditional _ ih => exact .conditional ih
  | or _ ih => exact .or ih
  | ifThen _ _ ih₁ ih₂ => exact .ifThen ih₁ ih₂
  | ifElse _ _ _ ih₁ ih₂ ih₃ => exact .ifElse ih₁ ih₂ ih₃
  | chain _ _ _ ih₁ ih₂ => exact .chain ih₁ ih₂
  | noOperator => exact .noOperator
  | operator _ _ _ _ _ ih₁ ih₂ => exact .operator ih₁ ih₂
  | string => exact .string
  | term _ ih => exact .term ih
  | base _ ih => exact .base ih
  | raised _ _ ih₁ ih₂ => exact .raised ih₁ ih₂
  | int => exact .int
  | float => exact .float
  | var => exact .var
  | call _ _ ih => exact .call ih
  | group _ ih => exact .group ih
  | ternary _ _ _ ih₁ ih₂ ih₃ => exact .ternary ih₁ ih₂ ih₃
  | lastArg _ ih => exact .lastArg ih
  | arg _ _ ih₁ ih₂ => exact .arg ih₁ ih₂
  | noArgs => exact .noArgs
  | someArgs _ ih => exact .someArgs ih

theorem atEnd_words_iff {ts : List Token} : AtEnd (words ts) ↔ peek ts = .eof := by
  cases ts with
  | nil => exact ⟨fun _ => rfl, fun _ => trivial⟩
  | cons t ts => exact Iff.rfl

/-- A line is read up to the end of its word. -/
theorem exists_line_eq_ok {d : Derivation .line} (hd : d.Nearest) {ts : List Token}
    {k : List Kind} (hk : AtEnd k) (hts : words ts = d.yield ++ k) :
    ∃ rest, words rest = k ∧ line ts = .ok (d.meaning, rest) := by
  cases ts with
  | nil =>
    obtain ⟨hd, -⟩ := List.append_eq_nil_iff.1 hts.symm
    exact absurd hd d.line_yield_ne_nil
  | cons t ts => exact complete d hd hk hts (Nat.le_refl _)

end Parser

/-! ## Whole lines -/

/-- The kinds of the tokens before the first end of the input. -/
def sentence (ts : List Token) : List Kind :=
  (words ts).takeWhile fun k => !k.isEof

theorem exists_words_eq_sentence (ts : List Token) :
    ∃ k, AtEnd k ∧ words ts = sentence ts ++ k := by
  refine ⟨(words ts).dropWhile fun k => !k.isEof, ?_, List.takeWhile_append_dropWhile.symm⟩
  have h := List.head?_dropWhile_not (fun k : Kind => !k.isEof) (words ts)
  cases hk : (words ts).dropWhile fun k => !k.isEof with
  | nil => trivial
  | cons k w =>
    rw [hk] at h
    cases k <;> first | rfl | cases h

theorem sentence_eq {ts : List Token} {w k : List Kind} (hts : words ts = w ++ k)
    (hw : ∀ c ∈ w, c.isEof = false) (hk : AtEnd k) : sentence ts = w := by
  have hnil : k.takeWhile (fun c => !c.isEof) = [] := by
    cases k with
    | nil => rfl
    | cons c k => cases hk; rfl
  rw [sentence, hts, List.takeWhile_append_of_pos, hnil, List.append_nil]
  intro c hc
  simp [hw c hc]

/-- **A list of tokens is read as a whole line just if its sentence has a
    derivation that stands for the line, with every `else` at the nearest
    conditional that lacks one.** -/
theorem read_eq_whole_iff {ts : List Token} {l : Line} :
    read ts = .whole l ↔
      ∃ d : Derivation .line, d.Nearest ∧ d.yield = sentence ts ∧ d.meaning = l := by
  constructor
  · intro h
    unfold read at h
    split at h
    next => cases h
    next l' rest hl =>
      split at h
      next hpeek =>
        cases h
        obtain ⟨d, hd, hmeaning, hts, -⟩ := Parser.sound_line hl
        have hsentence := sentence_eq hts d.isEof_of_mem_yield (Parser.atEnd_words_iff.2 hpeek)
        exact ⟨d, hd, hsentence.symm, hmeaning⟩
      next => cases h
  · rintro ⟨d, hd, hyield, rfl⟩
    obtain ⟨k, hk, hts⟩ := exists_words_eq_sentence ts
    rw [← hyield] at hts
    obtain ⟨rest, rfl, hl⟩ := Parser.exists_line_eq_ok hd hk hts
    unfold read
    rw [hl]
    simp only [Parser.atEnd_words_iff.1 hk]

end Flowline
