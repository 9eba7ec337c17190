/-
  The parser looks at no token beyond the one it stops at.

  What a rule reads and where it stops is settled by the tokens before that
  place and the kind of the next one.  The tokens after it count only as the
  bound of the nesting and of the loops.

  * `Parser.left x`, `Parser.moved us x`: the tokens that are left when a rule
    stops, and the same outcome with others left;
  * `Parser.Alike n n' r r'`: the rule `r'` reads what `r` reads, whatever
    stands behind the token at which `r` stops, with one lemma per rule;
  * `Parser.Alike.loop`: so for a loop, from what one round does;
  * `Parser.alike_expr`: so for expressions, under any bounds of the nesting;
  * `Parser.line_append`: so for lines.
-/
import Flowline.Proofs.Grammar

namespace Flowline

namespace Parser

variable {α β : Type} {n n' : Nat}

/-! ## Outcomes -/

/-- The tokens that are left when a rule stops. -/
def left : Except Fault (α × List Token) → List Token
  | .ok (_, rest) => rest
  | .error f => f.rest

/-- The same outcome, with other tokens left. -/
def moved (us : List Token) : Except Fault (α × List Token) → Except Fault (α × List Token)
  | .ok (a, _) => .ok (a, us)
  | .error f => .error { f with rest := us }

@[simp] theorem left_moved (us : List Token) (x : Except Fault (α × List Token)) :
    left (moved us x) = us := by
  rcases x with f | ⟨a, rest⟩ <;> rfl

theorem peek_append {ts us : List Token} (h : peek us = peek ts) (pre : List Token) :
    peek (pre ++ us) = peek (pre ++ ts) := by
  cases pre with
  | nil => exact h
  | cons t pre => rfl

/-- The outcome `x` on the tokens `ts` leaves an end of them, and `r` has the
    same outcome if other tokens stand there, of which the first is of the same
    kind and which make at most `n` tokens. -/
def Repeats (n : Nat) (r : Rule α) (ts : List Token) (x : Except Fault (α × List Token)) : Prop :=
  ∃ pre, ts = pre ++ left x ∧
    ∀ us, (pre ++ us).length ≤ n → peek us = peek (left x) → r (pre ++ us) = moved us x

namespace Repeats

variable {r : Rule α} {ts : List Token} {x : Except Fault (α × List Token)}

theorem length_left_le (h : Repeats n r ts x) : (left x).length ≤ ts.length := by
  obtain ⟨pre, hpre, -⟩ := h
  rw [hpre, List.length_append]
  exact Nat.le_add_left _ _

/-- The end of the tokens that is left is the only one. -/
theorem apply (h : Repeats n r ts x) {pre us : List Token} (hts : ts = pre ++ left x)
    (hus : (pre ++ us).length ≤ n) (hpeek : peek us = peek (left x)) :
    r (pre ++ us) = moved us x := by
  obtain ⟨pre', hpre', h⟩ := h
  obtain rfl : pre' = pre := List.append_cancel_right (hpre'.symm.trans hts)
  exact h us hus hpeek

/-- Rules that agree on the tokens with the same next one. -/
theorem of_peek {s : Rule α} (h : Repeats n s ts x)
    (heq : ∀ us, peek us = peek ts → r us = s us) : Repeats n r ts x := by
  obtain ⟨pre, hpre, h⟩ := h
  refine ⟨pre, hpre, fun us hus hpeek => ?_⟩
  have hsame : peek (pre ++ us) = peek ts := by
    rw [peek_append hpeek pre, ← hpre]
  rw [heq _ hsame]
  exact h us hus hpeek

theorem keeping (h : Repeats n r ts x) (es : List Expr) :
    Repeats n (fun ts => keeping es (r ts)) ts (Parser.keeping es x) := by
  obtain ⟨pre, hpre, h⟩ := h
  cases x with
  | ok p => exact ⟨pre, hpre, fun us hus hpeek => congrArg (Parser.keeping es) (h us hus hpeek)⟩
  | error f => exact ⟨pre, hpre, fun us hus hpeek => congrArg (Parser.keeping es) (h us hus hpeek)⟩

theorem bind {k k' : α × List Token → Except Fault (β × List Token)} (h : Repeats n r ts x)
    (hk : ∀ a mid, x = .ok (a, mid) → Repeats n (fun ts => k' (a, ts)) mid (k (a, mid))) :
    Repeats n (fun ts => r ts >>= k') ts (x >>= k) := by
  obtain ⟨pre, hpre, h⟩ := h
  rcases x with f | ⟨a, mid⟩
  · exact ⟨pre, hpre, fun us hus hpeek => congrArg (· >>= k') (h us hus hpeek)⟩
  · obtain ⟨pre', hpre', h'⟩ := hk a mid rfl
    refine ⟨pre ++ pre', ?_, fun us hus hpeek => ?_⟩
    · rw [List.append_assoc]
      exact hpre.trans (congrArg (pre ++ ·) hpre')
    · rw [List.append_assoc] at hus ⊢
      -- the token at which the first rule stops is there for the second one to start with
      have hmid : peek (pre' ++ us) = peek mid :=
        (peek_append hpeek pre').trans (congrArg peek hpre'.symm)
      have hfirst : r (pre ++ (pre' ++ us)) = .ok (a, pre' ++ us) := h _ hus hmid
      rw [List.length_append] at hus
      exact (congrArg (· >>= k') hfirst).trans (h' us (by omega) hpeek)

end Repeats

/-- What `r` reads off at most `n` tokens, `r'` reads off at most `n'` tokens,
    whatever stands behind the token at which `r` stops. -/
def Alike (n n' : Nat) (r r' : Rule α) : Prop :=
  ∀ ts, ts.length ≤ n → Repeats n' r' ts (r ts)

namespace Alike

variable {r r' : Rule α}

theorem mono (h : Alike n n' r r') {i i' : Nat} (hi : i ≤ n) (hi' : i' ≤ n') :
    Alike i i' r r' := by
  intro ts hts
  obtain ⟨pre, hpre, h⟩ := h ts (Nat.le_trans hts hi)
  exact ⟨pre, hpre, fun us hus => h us (Nat.le_trans hus hi')⟩

theorem pred (h : Alike n n' r r') : Alike (n - 1) (n' - 1) r r' :=
  h.mono (Nat.sub_le n 1) (Nat.sub_le n' 1)

theorem congr {s s' : Rule α} (h : Alike n n' s s') (hr : ∀ ts, ts.length ≤ n → r ts = s ts)
    (hr' : ∀ ts, ts.length ≤ n' → r' ts = s' ts) : Alike n n' r r' := by
  intro ts hts
  rw [hr ts hts]
  obtain ⟨pre, hpre, h⟩ := h ts hts
  exact ⟨pre, hpre, fun us hus hpeek => (hr' _ hus).trans (h us hus hpeek)⟩

/-- Rules without tokens to read. -/
theorem zero (hleft : left (r []) = [])
    (h : ∀ us, peek us = .eof → r' us = moved us (r [])) : Alike 0 n' r r' := by
  intro ts hts
  obtain rfl := List.length_eq_zero_iff.1 (Nat.le_zero.1 hts)
  exact ⟨[], hleft.symm, fun us _ hpeek => h us (by rwa [hleft] at hpeek)⟩

theorem ret (a : α) : Alike n n' (fun ts => .ok (a, ts)) fun ts => .ok (a, ts) :=
  fun _ _ => ⟨[], rfl, fun _ _ _ => rfl⟩

theorem fail : Alike n n' (unexpected : Rule α) unexpected :=
  fun _ _ => ⟨[], rfl, fun _ _ _ => rfl⟩

theorem keeping (h : Alike n n' r r') (es : List Expr) :
    Alike n n' (fun ts => keeping es (r ts)) fun ts => keeping es (r' ts) :=
  fun ts hts => (h ts hts).keeping es

theorem bind {k k' : α × List Token → Except Fault (β × List Token)} (hr : Alike n n' r r')
    (hk : ∀ a, Alike n n' (fun ts => k (a, ts)) fun ts => k' (a, ts)) :
    Alike n n' (fun ts => r ts >>= k) fun ts => r' ts >>= k' := by
  intro ts hts
  refine (hr ts hts).bind fun a mid hx => hk a mid ?_
  have hmid := (hr ts hts).length_left_le
  rw [hx] at hmid
  exact Nat.le_trans hmid hts

theorem map (h : Alike n n' r r') (f : α → β) :
    Alike n n' (fun ts => r ts >>= fun p => .ok (f p.1, p.2))
      fun ts => r' ts >>= fun p => .ok (f p.1, p.2) :=
  h.bind fun a => .ret (f a)

/-- A rule that takes the next token if it is of certain kinds. -/
theorem fork {x x' : Rule α} (P : Kind → Prop) (heof : ¬ P .eof)
    (htake : ∀ t : Token, P t.kind →
      Alike (n - 1) (n' - 1) (fun ts => r (t :: ts)) fun ts => r' (t :: ts))
    (hr : ∀ ts, ¬ P (peek ts) → r ts = x ts) (hr' : ∀ ts, ¬ P (peek ts) → r' ts = x' ts)
    (hx : Alike n n' x x') : Alike n n' r r' := by
  intro ts hts
  by_cases hp : P (peek ts)
  · cases ts with
    | nil => exact absurd hp heof
    | cons t ts =>
      rw [List.length_cons] at hts
      obtain ⟨pre, hpre, h⟩ := htake t hp ts (by omega)
      refine ⟨t :: pre, congrArg (t :: ·) hpre, fun us hus hpeek => h us ?_ hpeek⟩
      rw [List.cons_append, List.length_cons] at hus
      omega
  · rw [hr ts hp]
    exact (hx ts hts).of_peek fun us hus => hr' us (by rwa [hus])

/-- Loops with bounds of their own, from what a round does.  Without a token
    left there is no round, and so a bound of zero is as good as one. -/
theorem loop {γ : Type} {R S : Nat → γ → Rule α} (hzero : ∀ c, left (R 0 c []) = [])
    (heof : ∀ i c us, peek us = .eof → S i c us = moved us (R 0 c []))
    (hstep : ∀ i < n, ∀ i' ≤ n', (∀ c, Alike i (i' - 1) (R i c) (S (i' - 1) c)) →
      ∀ c, Alike (i + 1) i' (R (i + 1) c) (S (i' - 1 + 1) c))
    {i i' : Nat} (hi : i ≤ n) (hi' : i' ≤ n') (c : γ) : Alike i i' (R i c) (S i' c) := by
  induction i generalizing i' c with
  | zero => exact zero (hzero c) (heof i' c)
  | succ i ih =>
    have hrounds (c : γ) : Alike i (i' - 1) (R i c) (S (i' - 1) c) := ih (by omega) (by omega) c
    refine (hstep i hi i' hi' hrounds c).congr (fun _ _ => rfl) fun ts hts => ?_
    cases i' with
    | zero =>
      obtain rfl := List.length_eq_zero_iff.1 (Nat.le_zero.1 hts)
      exact (heof 0 c [] rfl).trans (heof 1 c [] rfl).symm
    | succ i' => rfl

/-- Rules with the number of tokens as the bound of a loop. -/
theorem length {R R' : Nat → Rule α} (h : ∀ i ≤ n, ∀ i' ≤ n', Alike i i' (R i) (R' i')) :
    Alike n n' (fun ts => R ts.length ts) fun ts => R' ts.length ts := by
  intro ts hts
  obtain ⟨pre, hpre, -⟩ := h ts.length hts 0 (Nat.zero_le _) ts (Nat.le_refl _)
  refine ⟨pre, hpre, fun us hus hpeek => ?_⟩
  exact (h ts.length hts _ hus ts (Nat.le_refl _)).apply hpre (Nat.le_refl _) hpeek

/-- A mark that has to come next, after the completion of expressions. -/
theorem keeping_expect {k k' : Rule α} (hk : Alike n n' k k') (es : List Expr) (m : Mark) :
    Alike n n' (fun ts => Parser.keeping es (expect m ts) >>= k)
      fun ts => Parser.keeping es (expect m ts) >>= k' := by
  have htaken (k : Rule α) (p : Place) (ts : List Token) :
      (Parser.keeping es (expect m (⟨.mark m, p⟩ :: ts)) >>= k) = k ts := by
    rw [expect, if_pos rfl]
    rfl
  have hfailed (k : Rule α) (ts : List Token) (hts : peek ts ≠ .mark m) :
      (Parser.keeping es (expect m ts) >>= k) =
        .error { cause := .expected m, rest := ts, built := es ++ [] } := by
    unfold expect
    split
    next m' p ts =>
      have hne : m' ≠ m := fun h => hts (congrArg Kind.mark h)
      rw [if_neg hne]
      rfl
    next => rfl
  refine fork (· = .mark m) nofun ?_ (hfailed k) (hfailed k') fun _ _ => ⟨[], rfl, fun _ _ _ => rfl⟩
  rintro ⟨_, p⟩ rfl
  simp only [htaken]
  exact hk.pred

theorem expect {k k' : Rule α} (hk : Alike n n' k k') (m : Mark) :
    Alike n n' (fun ts => expect m ts >>= k) fun ts => expect m ts >>= k' := by
  have hnil (ts : List Token) : Parser.keeping [] (Parser.expect m ts) = Parser.expect m ts := by
    cases Parser.expect m ts <;> rfl
  have h := hk.keeping_expect [] m
  simp only [hnil] at h
  exact h

end Alike

/-! ## Rules -/

theorem expr_of_eof {ts : List Token} (h : peek ts = .eof) : expr n ts = unexpected ts := by
  cases n with
  | zero => rfl
  | succ n =>
    cases ts with
    | nil => rfl
    | cons t ts =>
      obtain ⟨_, p⟩ := t
      cases h
      rfl

theorem arguments_of_eof {i : Nat} {ts : List Token} (h : peek ts = .eof) :
    arguments (expr n) i ts = unexpected ts := by
  cases i with
  | zero => rfl
  | succ i =>
    simp only [arguments, expr_of_eof h]
    rfl

section Nested

variable (h : Alike n n' (expr n) (expr n'))
include h

theorem alike_arguments {i i' : Nat} (hi : i ≤ n) (hi' : i' ≤ n') :
    Alike i i' (arguments (expr n) i) (arguments (expr n') i') := by
  refine Alike.loop (R := fun i (_ : Unit) => arguments (expr n) i)
    (S := fun i _ => arguments (expr n') i) (fun _ => rfl) (fun _ _ _ => arguments_of_eof) ?_
    hi hi' ()
  intro i hi i' hi' hrounds _
  refine (h.mono hi hi').bind fun e => ?_
  refine .fork (· = .mark .comma) nofun ?_ ?_ ?_ (.ret [e])
  · rintro ⟨_, p⟩ rfl
    exact ((hrounds ()).keeping [e]).map (e :: ·)
  all_goals
    intro ts hts
    dsimp only
    split
    next => exact absurd rfl hts
    next => rfl

theorem alike_argumentList :
    Alike n n' (argumentList (expr n)) (argumentList (expr n')) := by
  have hsome : Alike n n'
      (fun ts => arguments (expr n) ts.length ts >>= fun p =>
        keeping p.1 (expect .rparen p.2) >>= fun ts => pure (p.1, ts))
      (fun ts => arguments (expr n') ts.length ts >>= fun p =>
        keeping p.1 (expect .rparen p.2) >>= fun ts => pure (p.1, ts)) := by
    refine (Alike.length fun i hi i' hi' => alike_arguments h hi hi').bind fun es => ?_
    exact .keeping_expect (.ret es) es .rparen
  refine .fork (· = .mark .rparen) nofun ?_ ?_ ?_ hsome
  · rintro ⟨_, p⟩ rfl
    exact .ret []
  all_goals
    intro ts hts
    unfold argumentList
    split
    next => exact absurd rfl hts
    next => rfl

theorem alike_parenthesized :
    Alike n n' (parenthesized (expr n)) (parenthesized (expr n')) := by
  refine .expect ?_ .lparen
  exact h.bind fun e => .keeping_expect (.ret e) [e] .rparen

theorem alike_bracketed : Alike n n' (bracketed (expr n)) (bracketed (expr n')) := by
  refine h.bind fun e => .keeping (.expect ?_ .rparen) [e]
  refine .fork (· = .mark .question) nofun ?_ ?_ ?_ (.ret (.group e))
  · rintro ⟨_, p⟩ rfl
    refine Alike.pred ?_
    refine (alike_parenthesized h).bind fun t => .keeping (.expect ?_ .colon) [t]
    exact (alike_parenthesized h).map (Expr.ternary e t)
  all_goals
    intro ts hts
    dsimp only
    split
    next => exact absurd rfl hts
    next => rfl

theorem alike_factor : Alike (n + 1) (n' + 1) (factor (expr n)) (factor (expr n')) := by
  refine .fork (·.startsFactor) nofun ?_ ?_ ?_ .fail
  -- a token is taken before any nested expression, so the bounds may be larger by one
  · rintro ⟨kind, p⟩ hkind
    cases kind with
    | int i => exact .ret (Expr.int i)
    | float x => exact .ret (Expr.float x)
    | ident name =>
      refine .fork (· = .mark .lparen) nofun ?_ ?_ ?_ (.ret (Expr.var name))
      · rintro ⟨_, p⟩ rfl
        refine Alike.pred ?_
        exact (alike_argumentList h).map (Expr.call name)
      all_goals
        intro ts hts
        rw [factor]
        rintro q us rfl
        exact hts rfl
    | mark m =>
      cases m with
      | lparen => exact alike_bracketed h
      | _ => cases hkind
    | _ => cases hkind
  all_goals
    intro ts hts
    unfold factor
    split <;> first | exact absurd rfl hts | rfl

theorem alike_power : Alike (n + 1) (n' + 1) (power (expr n)) (power (expr n')) := by
  refine (alike_factor h).bind fun b => ?_
  refine .fork (· = .op (.arith .power)) nofun ?_ ?_ ?_ (.ret b)
  · rintro ⟨_, p⟩ rfl
    refine Alike.pred ?_
    exact ((alike_factor h).keeping [b]).map (Expr.binary (.arith .power) b)
  all_goals
    intro ts hts
    dsimp only
    split
    next => exact absurd rfl hts
    next => rfl

end Nested

theorem chain_of_eof {rank i : Nat} {operand : Rule Expr} {l : Expr} {ts : List Token}
    (h : peek ts = .eof) : chain rank operand i l ts = .ok (l, ts) := by
  unfold chain
  split
  next => cases h
  next => rfl

theorem alike_chain {rank : Nat} {operand operand' : Rule Expr} (h : Alike n n' operand operand')
    {i i' : Nat} (hi : i ≤ n) (hi' : i' ≤ n') (l : Expr) :
    Alike i i' (chain rank operand i l) (chain rank operand' i' l) := by
  refine Alike.loop (R := chain rank operand) (S := chain rank operand') (fun _ => rfl)
    (fun _ _ _ => chain_of_eof) ?_ hi hi' l
  intro i hi i' hi' hrounds l
  refine .fork (fun k => ∃ o : Operator, k = .op o ∧ o.rank = rank) nofun ?_ ?_ ?_ (.ret l)
  · rintro ⟨_, p⟩ ⟨o, rfl, ho⟩
    simp only [chain, if_pos ho]
    have hoperand := h.mono (Nat.le_of_lt hi) (Nat.le_trans (Nat.sub_le i' 1) hi')
    exact (hoperand.keeping [l]).bind fun r => hrounds (.binary o l r)
  all_goals
    intro ts hts
    unfold chain
    split
    next o p ts _ => exact if_neg fun ho => hts ⟨o, rfl, ho⟩
    next => rfl

theorem alike_joined {rank : Nat} {first first' operand operand' : Rule Expr}
    (hf : Alike n n' first first') (ho : Alike n n' operand operand') :
    Alike n n' (joined rank first operand) (joined rank first' operand') :=
  hf.bind fun e => .length fun _ hi _ hi' => alike_chain ho hi hi' e

section Nested

variable (h : Alike n n' (expr n) (expr n'))
include h

theorem alike_term : Alike (n + 1) (n' + 1) (term (expr n)) (term (expr n')) :=
  alike_joined (alike_power h) (alike_power h)

theorem alike_opening : Alike (n + 1) (n' + 1) (opening (expr n)) (opening (expr n')) := by
  refine .fork (∃ s, · = .str s) nofun ?_ ?_ ?_ (alike_term h)
  · rintro ⟨_, p⟩ ⟨s, rfl⟩
    exact .ret (Expr.str s)
  all_goals
    intro ts hts
    unfold opening
    split
    next s p ts => exact absurd ⟨s, rfl⟩ hts
    next => rfl

theorem alike_disjunction :
    Alike (n + 1) (n' + 1) (disjunction (expr n)) (disjunction (expr n')) := by
  have hsum : Alike (n + 1) (n' + 1) (additive (expr n)) (additive (expr n')) :=
    alike_joined (alike_opening h) (alike_term h)
  have hcompare : Alike (n + 1) (n' + 1) (comparison (expr n)) (comparison (expr n')) :=
    alike_joined hsum hsum
  have hand : Alike (n + 1) (n' + 1) (conjunction (expr n)) (conjunction (expr n')) :=
    alike_joined hcompare hcompare
  exact alike_joined hand hand

theorem alike_conditional : Alike n n' (conditional (expr n)) (conditional (expr n')) := by
  refine (alike_parenthesized h).bind fun c => .keeping (.expect (h.bind fun t => ?_) .colon) [c]
  refine .fork (· = .mark .elseWord) nofun ?_ ?_ ?_ (.ret (.ifThen c t))
  · rintro ⟨_, p⟩ rfl
    refine Alike.pred ?_
    exact .keeping (.expect (h.map (Expr.ifElse c t)) .colon) [t]
  all_goals
    intro ts hts
    dsimp only
    split
    next => exact absurd rfl hts
    next => rfl

theorem alike_exprStep : Alike (n + 1) (n' + 1) (exprStep (expr n)) (exprStep (expr n')) := by
  refine .fork (· = .mark .ifWord) nofun ?_ ?_ ?_ (alike_disjunction h)
  · rintro ⟨_, p⟩ rfl
    exact alike_conditional h
  all_goals
    intro ts hts
    unfold exprStep
    split
    next => exact absurd rfl hts
    next => rfl

end Nested

/-- **What an expression is read as is settled where reading stops**, under any
    bounds of the nesting. -/
theorem alike_expr (n n' : Nat) : Alike n n' (expr n) (expr n') := by
  refine Alike.loop (R := fun i (_ : Unit) => expr i) (S := fun i _ => expr i) (fun _ => rfl)
    (fun _ _ _ => expr_of_eof) ?_ (Nat.le_refl n) (Nat.le_refl n') ()
  intro i _ i' _ hnested _
  exact (alike_exprStep (hnested ())).mono (Nat.le_refl _) (by omega)

/-! ## Lines -/

theorem stages_of_eof {expr : Rule Expr} {i : Nat} {e : Expr} {ts : List Token}
    (h : peek ts = .eof) : stages expr i e ts = .ok (e, ts) := by
  unfold stages
  split
  next => cases h
  next => rfl

theorem alike_stages {i i' : Nat} (hi : i ≤ n) (hi' : i' ≤ n') (e : Expr) :
    Alike i i' (stages (expr n) i e) (stages (expr n') i' e) := by
  refine Alike.loop (R := stages (expr n)) (S := stages (expr n')) (fun _ => rfl)
    (fun _ _ _ => stages_of_eof) ?_ hi hi' e
  intro i hi i' hi' hrounds e
  refine .fork (· = .mark .arrow) nofun ?_ ?_ ?_ (.ret e)
  · rintro ⟨_, p⟩ rfl
    refine .bind (.keeping ?_ [e]) fun e => hrounds e
    refine Alike.mono (n := n) ?_ (Nat.le_of_lt hi) (Nat.le_trans (Nat.sub_le i' 1) hi')
    refine .fork (∃ name, · = .ident name) nofun ?_ ?_ ?_ .fail
    · rintro ⟨_, q⟩ ⟨name, rfl⟩
      refine Alike.pred (.expect ?_ .lparen)
      exact (alike_argumentList (alike_expr n n')).map fun args => Expr.call name (e :: args)
    all_goals
      intro ts hts
      dsimp only
      split
      next name _ _ => exact absurd ⟨name, rfl⟩ hts
      next => rfl
  all_goals
    intro ts hts
    unfold stages
    split
    next => exact absurd rfl hts
    next => rfl

/-- An expression takes a name that it starts with. -/
theorem left_expr_ne {x : String} {p : Place} {ts : List Token} (hts : ts.length < n) :
    left (expr n (⟨.ident x, p⟩ :: ts)) ≠ ⟨.ident x, p⟩ :: ts := by
  intro hleft
  obtain ⟨pre, hpre, h⟩ := alike_expr n 1 (⟨.ident x, p⟩ :: ts) hts
  rw [hleft] at hpre h
  obtain rfl : pre = [] := List.append_left_eq_self.1 hpre.symm
  -- it would stop before the name as well if nothing stood behind it
  have hname : expr 1 [⟨.ident x, p⟩] = .ok (.var x, []) := rfl
  have h := congrArg left (h [⟨.ident x, p⟩] (Nat.le_refl 1) rfl)
  rw [List.nil_append, hname, left_moved] at h
  cases h

/-- What follows a name with which an expression starts. -/
theorem alike_expr_ident (x : String) (p : Place) :
    Alike n n' (fun ts => expr (n + 1) (⟨.ident x, p⟩ :: ts))
      fun ts => expr (n' + 1) (⟨.ident x, p⟩ :: ts) := by
  intro ts hts
  obtain ⟨pre, hpre, h⟩ := alike_expr (n + 1) (n' + 1) (⟨.ident x, p⟩ :: ts) (Nat.succ_le_succ hts)
  cases pre with
  | nil => exact absurd hpre.symm (left_expr_ne (Nat.lt_succ_of_le hts))
  | cons t pre =>
    obtain ⟨rfl, htail⟩ := List.cons.inj hpre
    exact ⟨pre, htail, fun us hus hpeek => h us (Nat.succ_le_succ hus) hpeek⟩

theorem assigned_of_arrow {expr : Rule Expr} {x : String} {p : Place} {ts : List Token}
    (h : peek ts = .mark .arrow) :
    assigned expr (⟨.ident x, p⟩ :: ts) = stages expr ts.length (.var x) ts := by
  cases ts with
  | nil => cases h
  | cons t ts =>
    obtain ⟨_, q⟩ := t
    cases h
    rfl

theorem alike_assigned :
    Alike (n + 1) (n' + 1) (assigned (expr (n + 1))) (assigned (expr (n' + 1))) := by
  refine .fork (∃ name, · = .ident name) nofun ?_ ?_ ?_ (alike_expr (n + 1) (n' + 1))
  · rintro ⟨_, p⟩ ⟨x, rfl⟩ ts hts
    by_cases harrow : peek ts = .mark .arrow
    · have hstages : Alike n n' (fun ts => stages (expr (n + 1)) ts.length (.var x) ts)
          fun ts => stages (expr (n' + 1)) ts.length (.var x) ts :=
        .length fun i hi i' hi' => alike_stages (Nat.le_succ_of_le hi) (Nat.le_succ_of_le hi') _
      show Repeats _ _ ts (assigned (expr (n + 1)) (⟨.ident x, p⟩ :: ts))
      rw [assigned_of_arrow harrow]
      exact (hstages ts hts).of_peek fun us hus => assigned_of_arrow (hus.trans harrow)
    · have heq (e : Rule Expr) (us : List Token) (hus : peek us ≠ .mark .arrow) :
          assigned e (⟨.ident x, p⟩ :: us) = e (⟨.ident x, p⟩ :: us) := by
        rw [assigned]
        rintro y q r vs ⟨⟩
        exact hus rfl
      show Repeats _ _ ts (assigned (expr (n + 1)) (⟨.ident x, p⟩ :: ts))
      rw [heq _ ts harrow]
      exact (alike_expr_ident x p ts hts).of_peek fun us hus => heq _ us (by rwa [hus])
  all_goals
    intro ts hts
    unfold assigned
    split
    next name _ _ _ => exact absurd ⟨name, rfl⟩ hts
    next => rfl

theorem alike_lineStep :
    Alike (n + 1) (n' + 1) (lineStep (expr (n + 1))) (lineStep (expr (n' + 1))) := by
  refine .fork (∃ name, · = .ident name) nofun ?_ ?_ ?_
    ((alike_expr (n + 1) (n' + 1)).map Line.expr)
  · rintro ⟨_, p⟩ ⟨x, rfl⟩
    -- the rule looks at two tokens, but no expression stops before the second one
    refine .fork (· = .mark .equal) nofun ?_ ?_ ?_ ((alike_expr_ident x p).map Line.expr)
    · rintro ⟨_, q⟩ rfl
      exact (alike_assigned.map (Line.assign x)).mono (by omega) (by omega)
    all_goals
      intro ts hts
      rw [lineStep]
      · rfl
      · rintro y q r us ⟨⟩
        exact hts rfl
  all_goals
    intro ts hts
    unfold lineStep
    split
    next name _ _ _ => exact absurd ⟨name, rfl⟩ hts
    next => rfl

theorem lineStep_eq {i : Nat} {ts : List Token} (h : ts.length ≤ i) :
    lineStep (expr i) ts = lineStep (expr (i - 1 + 1)) ts := by
  cases i with
  | zero =>
    obtain rfl := List.length_eq_zero_iff.1 (Nat.le_zero.1 h)
    rfl
  | succ i => rfl

theorem alike_line (n n' : Nat) : Alike n n' line line := by
  have h (i i' : Nat) : Alike i i' (lineStep (expr i)) (lineStep (expr i')) := by
    have hstep : Alike (i - 1 + 1) (i' - 1 + 1) _ _ := alike_lineStep
    exact (hstep.mono (by omega) (by omega)).congr (fun _ => lineStep_eq) fun _ => lineStep_eq
  exact Alike.length fun i _ i' _ => h i i'

theorem exists_append_left_line (ts : List Token) : ∃ pre, ts = pre ++ left (line ts) := by
  obtain ⟨pre, hpre, -⟩ := alike_line ts.length 0 ts (Nat.le_refl _)
  exact ⟨pre, hpre⟩

/-- **A line is read alike whatever stands behind the token at which reading
    stops.** -/
theorem line_append {ts pre us : List Token} (hts : ts = pre ++ left (line ts))
    (hpeek : peek us = peek (left (line ts))) : line (pre ++ us) = moved us (line ts) :=
  (alike_line ts.length (pre ++ us).length ts (Nat.le_refl _)).apply hts (Nat.le_refl _) hpeek

end Parser

end Flowline
