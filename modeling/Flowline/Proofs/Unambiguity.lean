/-
  The grammar of lines is unambiguous.

  Reading from the left, a derivation is determined by the tokens as soon as
  those after it do not extend it.

  * `Derivation.Follow d k`: the kinds `k` after the word of `d` do not extend
    `d`: no operator that binds more tightly, no opening parenthesis, no
    question mark, and no `else` for a conditional that lacks one;
  * `Derivation.Unique`: no other derivation fits the tokens, with one lemma
    per alternative of the grammar;
  * `Derivation.unique`: so for all derivations;
  * `Derivation.eq_of_yield`: a line has one derivation with every `else` at
    the nearest conditional that lacks one.
-/
import Flowline.Proofs.Grammar

namespace Flowline

/-! ## What may follow -/

/-- The end of a line: nothing, or the end of the input. -/
def AtEnd : List Kind → Prop
  | [] => True
  | k :: _ => k = .eof

/-- The kinds do not go on with an operator below a rank, nor with a sign that
    extends a factor. -/
def Ends (rank : Nat) : List Kind → Prop
  | .op o :: _ => rank ≤ o.rank
  | .mark .lparen :: _ | .mark .question :: _ => False
  | _ => True

/-- The least rank of an operator that can follow a phrase without extending
    it. -/
def Phrase.reach : Phrase → Nat
  | expr | conditional => 6
  | chain l => l.rank + 1
  | opening => 2
  | power => 1
  | factor => 0

theorem Ends.mono {r s : Nat} (hle : r ≤ s) {k : List Kind} (h : Ends s k) : Ends r k := by
  match k, h with
  | [], _ => trivial
  | .op o :: _, h => exact Nat.le_trans hle h
  | .int _ :: _, _ | .float _ :: _, _ | .ident _ :: _, _ | .str _ :: _, _ | .eof :: _, _ => trivial
  | .mark m :: _, h => cases m <;> trivial

theorem AtEnd.ends {k : List Kind} (h : AtEnd k) (rank : Nat) : Ends rank k := by
  cases k with
  | nil => trivial
  | cons _ _ => cases h; trivial

theorem AtEnd.head_ne {k : List Kind} (h : AtEnd k) (m : Mark) : k.head? ≠ some (.mark m) := by
  cases k with
  | nil => simp
  | cons _ _ => cases h; simp

@[simp] theorem Chain.reach_operand (l : Chain) : l.operand.reach = l.rank := by
  cases l <;> rfl

@[simp] theorem Chain.reach_first (l : Chain) : l.first.reach = l.rank := by
  cases l <;> rfl

namespace Derivation

/-- The kinds after a derived word do not extend the derivation. -/
def Follow : {n : Nonterminal} → Derivation n → List Kind → Prop
  | .line, _, k => AtEnd k
  | .flow, _, k | .stages, _, k => k.head? ≠ some (.mark .arrow)
  | .phrase p, d, k => Ends p.reach k ∧ (d.isOpen → k.head? ≠ some (.mark .elseWord))
  | .operators l, _, k => Ends (l.rank + 1) k
  | .args, _, k => k.head? = some (.mark .rparen)
  | .argsEnd, _, _ => True

theorem follow_of_atEnd {p : Phrase} (d : Derivation (.phrase p)) {k : List Kind}
    (h : AtEnd k) : d.Follow k :=
  ⟨h.ends _, fun _ => h.head_ne _⟩

theorem isOpen_operand {l : Chain} (d : Derivation (.phrase l.operand)) : d.isOpen = false := by
  cases l <;> cases d <;> rfl

theorem isOpen_first {l : Chain} (d : Derivation (.phrase l.first)) : d.isOpen = false := by
  cases l <;> cases d <;> rfl

theorem ends_operators {l : Chain} (d : Derivation (.operators l)) {k : List Kind}
    (h : Ends (l.rank + 1) k) : Ends l.rank (d.yield ++ k) := by
  cases d with
  | noOperator => exact h.mono (Nat.le_succ _)
  | operator _ o rank e rest => exact Nat.le_of_eq rank.symm

theorem follow_chain {l : Chain} (d : Derivation (.phrase (.chain l))) {k : List Kind}
    (h : Ends (l.rank + 1) k) : d.Follow k :=
  ⟨h, by cases d; simp⟩

theorem follow_first {l : Chain} (d : Derivation (.phrase l.first))
    (rest : Derivation (.operators l)) {k : List Kind} (h : Ends (l.rank + 1) k) :
    d.Follow (rest.yield ++ k) :=
  ⟨by rw [Chain.reach_first]; exact rest.ends_operators h, by simp [isOpen_first]⟩

theorem follow_operand {l : Chain} (d : Derivation (.phrase l.operand))
    (rest : Derivation (.operators l)) {k : List Kind} (h : Ends (l.rank + 1) k) :
    d.Follow (rest.yield ++ k) :=
  ⟨by rw [Chain.reach_operand]; exact rest.ends_operators h, by simp [isOpen_operand]⟩

end Derivation

/-! ## Unambiguity -/

/-- The marks that close a phrase. -/
def Mark.closes : Mark → Bool
  | rparen | comma | colon => true
  | _ => false

namespace Derivation

variable {n : Nonterminal}

theorem follow_closes {p : Phrase} (d : Derivation (.phrase p)) {m : Mark} (hm : m.closes)
    (k : List Kind) : d.Follow (.mark m :: k) := by
  cases m with
  | rparen | comma | colon => exact ⟨trivial, fun _ => by simp⟩
  | _ => cases hm

theorem follow_rparen {p : Phrase} (d : Derivation (.phrase p)) {k : List Kind}
    (h : k.head? = some (.mark .rparen)) : d.Follow k := by
  obtain ⟨k', rfl⟩ := List.head?_eq_some_iff.1 h
  exact d.follow_closes rfl k'

theorem follow_factor (d : Derivation (.phrase .factor)) {k : List Kind}
    (h : Ends Phrase.power.reach k) : d.Follow k :=
  ⟨h.mono (Nat.zero_le _), by cases d <;> simp [isOpen]⟩

theorem follow_power (d : Derivation (.phrase .factor)) (k : List Kind) :
    d.Follow (.op (.arith .power) :: k) :=
  ⟨Nat.zero_le _, by simp⟩

theorem follow_else {d : Derivation (.phrase .expr)} (h : d.isOpen = false) (k : List Kind) :
    d.Follow (.mark .elseWord :: k) :=
  ⟨trivial, by simp [h]⟩

/-- A phrase that ends its line has an inner token or the end of the input at
    its second place. -/
theorem second_of_atEnd {p : Phrase} (d : Derivation (.phrase p)) {k w : List Kind} {a b : Kind}
    (hk : AtEnd k) (h : d.yield ++ k = a :: b :: w) : b.isInner ∨ b = .eof := by
  obtain ⟨c, v, hd, -⟩ := d.exists_cons_yield
  have hinner := d.isInner_of_mem_yield rfl
  rw [hd] at h hinner
  obtain ⟨-, h⟩ := List.cons.inj h
  cases v with
  | nil =>
    subst h
    exact Or.inr hk
  | cons c' v =>
    obtain ⟨rfl, -⟩ := List.cons.inj h
    exact Or.inl (hinner _ (by simp))

theorem yield_ne_assign {p : Phrase} (d : Derivation (.phrase p)) {k w : List Kind} {a : Kind}
    (hk : AtEnd k) : d.yield ++ k ≠ a :: .mark .equal :: w := by
  intro h
  rcases d.second_of_atEnd hk h with h | h <;> cases h

theorem yield_ne_flow {p : Phrase} (d : Derivation (.phrase p)) (f : Derivation .flow)
    {k k' : List Kind} (hk : AtEnd k) : d.yield ++ k ≠ f.yield ++ k' := by
  cases f with
  | flow s f as rest =>
    intro h
    rcases d.second_of_atEnd hk h with h | h <;> cases h

theorem conditional_ne_or (c : Derivation (.phrase .conditional))
    (e : Derivation (.phrase (.chain .or))) (k k' : List Kind) :
    c.yield ++ k ≠ e.yield ++ k' := by
  obtain ⟨_, _, hc, rfl⟩ := c.exists_cons_yield
  obtain ⟨_, _, he, hstart⟩ := e.exists_cons_yield
  intro h
  simp only [hc, he, List.cons_append, List.cons.injEq] at h
  rw [← h.1] at hstart
  cases hstart

theorem term_ne_string (e : Derivation (.phrase (.chain .term))) (s : String)
    (k k' : List Kind) : e.yield ++ k ≠ .str s :: k' := by
  obtain ⟨_, _, he, hstart⟩ := e.exists_cons_yield
  intro h
  simp only [he, List.cons_append, List.cons.injEq] at h
  rw [h.1] at hstart
  cases hstart

theorem args_ne_rparen (d : Derivation .args) (k k' : List Kind) :
    d.yield ++ k ≠ .mark .rparen :: k' := by
  have key (e : Derivation (.phrase .expr)) (w : List Kind) :
      e.yield ++ w ≠ .mark .rparen :: k' := by
    obtain ⟨_, _, he, hstart⟩ := e.exists_cons_yield
    intro h
    simp only [he, List.cons_append, List.cons.injEq] at h
    rw [h.1] at hstart
    rcases hstart with h | h <;> cases h
  cases d with
  | lastArg e => exact key e k
  | arg e rest => simpa only [yield, List.append_assoc] using key e _

/-- A derivation is the only one, with every `else` at the nearest conditional
    that lacks one, of the start of a word that it derives. -/
def Unique (d : Derivation n) : Prop :=
  ∀ ⦃d' : Derivation n⦄ ⦃k k' : List Kind⦄, d.Nearest → d'.Nearest → d.Follow k → d'.Follow k' →
    d.yield ++ k = d'.yield ++ k' → d = d' ∧ k = k'

namespace Unique

/-- Before a mark that closes it, a phrase is determined, and so is the mark. -/
theorem of_closes {p : Phrase} {d d' : Derivation (.phrase p)} (hd : d.Unique) (h : d.Nearest)
    (h' : d'.Nearest) {m m' : Mark} (hm : m.closes) (hm' : m'.closes) {k k' : List Kind}
    (hk : d.yield ++ .mark m :: k = d'.yield ++ .mark m' :: k') : d = d' ∧ m = m' ∧ k = k' := by
  obtain ⟨rfl, hr⟩ := hd h h' (d.follow_closes hm k) (d'.follow_closes hm' k') hk
  obtain ⟨hm, rfl⟩ := List.cons.inj hr
  exact ⟨rfl, Kind.mark.inj hm, rfl⟩

theorem assignFlow {x : String} {f : Derivation .flow} (hf : f.Unique) :
    (Derivation.assignFlow x f).Unique := by
  intro d' k k' h h' hk hk' he
  cases d' with
  | assignFlow y g =>
    simp only [yield, List.cons_append, List.cons.injEq, Kind.ident.injEq, true_and] at he
    obtain ⟨rfl, he⟩ := he
    obtain ⟨rfl, rfl⟩ := hf h h' (AtEnd.head_ne hk _) (AtEnd.head_ne hk' _) he
    exact ⟨rfl, rfl⟩
  | assign y e =>
    simp only [yield, List.cons_append, List.cons.injEq, true_and] at he
    exact absurd he.2.symm (e.yield_ne_flow f hk')
  | bare e => exact absurd he.symm (e.yield_ne_assign hk')

theorem assign {x : String} {e : Derivation (.phrase .expr)} (hu : e.Unique) :
    (Derivation.assign x e).Unique := by
  intro d' k k' h h' hk hk' he
  cases d' with
  | assignFlow y g =>
    simp only [yield, List.cons_append, List.cons.injEq, true_and] at he
    exact absurd he.2 (e.yield_ne_flow g hk)
  | assign y e' =>
    simp only [yield, List.cons_append, List.cons.injEq, Kind.ident.injEq, true_and] at he
    obtain ⟨rfl, he⟩ := he
    obtain ⟨rfl, rfl⟩ := hu h h' (follow_of_atEnd _ hk) (follow_of_atEnd _ hk') he
    exact ⟨rfl, rfl⟩
  | bare e' => exact absurd he.symm (e'.yield_ne_assign hk')

theorem bare {e : Derivation (.phrase .expr)} (hu : e.Unique) : (Derivation.bare e).Unique := by
  intro d' k k' h h' hk hk' he
  cases d' with
  | assignFlow y g => exact absurd he (e.yield_ne_assign hk)
  | assign y e' => exact absurd he (e.yield_ne_assign hk)
  | bare e' =>
    obtain ⟨rfl, rfl⟩ := hu h h' (follow_of_atEnd _ hk) (follow_of_atEnd _ hk') he
    exact ⟨rfl, rfl⟩

theorem flow {s f : String} {as : Derivation .argsEnd} {rest : Derivation .stages}
    (has : as.Unique) (hrest : rest.Unique) : (Derivation.flow s f as rest).Unique := by
  intro d' k k' h h' hk hk' he
  cases d' with
  | flow s' f' as' rest' =>
    simp only [yield, List.cons_append, List.append_assoc, List.cons.injEq, Kind.ident.injEq,
      true_and] at he
    obtain ⟨rfl, rfl, he⟩ := he
    obtain ⟨rfl, hr⟩ := has h.1 h'.1 trivial trivial he
    obtain ⟨rfl, rfl⟩ := hrest h.2 h'.2 hk hk' hr
    exact ⟨rfl, rfl⟩

theorem noStage : Derivation.noStage.Unique := by
  intro d' k k' h h' hk hk' he
  cases d' with
  | noStage => exact ⟨rfl, he⟩
  | stage f as rest =>
    obtain rfl : k = _ := he
    exact absurd rfl hk

theorem stage {f : String} {as : Derivation .argsEnd} {rest : Derivation .stages}
    (has : as.Unique) (hrest : rest.Unique) : (Derivation.stage f as rest).Unique := by
  intro d' k k' h h' hk hk' he
  cases d' with
  | noStage =>
    obtain rfl : _ = k' := he
    exact absurd rfl hk'
  | stage f' as' rest' =>
    simp only [yield, List.cons_append, List.append_assoc, List.cons.injEq, Kind.ident.injEq,
      true_and] at he
    obtain ⟨rfl, he⟩ := he
    obtain ⟨rfl, hr⟩ := has h.1 h'.1 trivial trivial he
    obtain ⟨rfl, rfl⟩ := hrest h.2 h'.2 hk hk' hr
    exact ⟨rfl, rfl⟩

theorem conditional {c : Derivation (.phrase .conditional)} (hc : c.Unique) :
    (Derivation.conditional c).Unique := by
  intro d' k k' h h' hk hk' he
  cases d' with
  | conditional c' =>
    obtain ⟨rfl, rfl⟩ := hc h h' hk hk' he
    exact ⟨rfl, rfl⟩
  | or e => exact absurd he (conditional_ne_or c e k k')

theorem or {e : Derivation (.phrase (.chain .or))} (hu : e.Unique) :
    (Derivation.or e).Unique := by
  intro d' k k' h h' hk hk' he
  cases d' with
  | conditional c => exact absurd he.symm (conditional_ne_or c e k' k)
  | or e' =>
    obtain ⟨rfl, rfl⟩ := hu h h' (follow_chain _ hk.1) (follow_chain _ hk'.1) he
    exact ⟨rfl, rfl⟩

theorem ifThen {c t : Derivation (.phrase .expr)} (hc : c.Unique) (ht : t.Unique) :
    (Derivation.ifThen c t).Unique := by
  intro d' k k' h h' hk hk' he
  have hfollow : t.Follow k := ⟨hk.1, fun _ => hk.2 rfl⟩
  cases d' with
  | ifThen c' t' =>
    simp only [yield, List.cons_append, List.append_assoc, List.cons.injEq, true_and] at he
    obtain ⟨rfl, -, he⟩ := hc.of_closes h.1 h'.1 rfl rfl he
    obtain ⟨rfl, rfl⟩ := ht h.2 h'.2 hfollow ⟨hk'.1, fun _ => hk'.2 rfl⟩ (List.cons.inj he).2
    exact ⟨rfl, rfl⟩
  | ifElse c' t' e' =>
    simp only [yield, List.cons_append, List.append_assoc, List.cons.injEq, true_and] at he
    obtain ⟨rfl, -, he⟩ := hc.of_closes h.1 h'.1.1 rfl rfl he
    obtain ⟨rfl, rfl⟩ := ht h.2 h'.1.2.1 hfollow (follow_else h'.2 _) (List.cons.inj he).2
    exact absurd rfl (hk.2 rfl)

theorem ifElse {c t e : Derivation (.phrase .expr)} (hc : c.Unique) (ht : t.Unique)
    (hu : e.Unique) : (Derivation.ifElse c t e).Unique := by
  intro d' k k' h h' hk hk' he
  cases d' with
  | ifThen c' t' =>
    simp only [yield, List.cons_append, List.append_assoc, List.cons.injEq, true_and] at he
    obtain ⟨rfl, -, he⟩ := hc.of_closes h.1.1 h'.1 rfl rfl he
    obtain ⟨rfl, rfl⟩ := ht h.1.2.1 h'.2 (follow_else h.2 _) ⟨hk'.1, fun _ => hk'.2 rfl⟩
      (List.cons.inj he).2
    exact absurd rfl (hk'.2 rfl)
  | ifElse c' t' e' =>
    simp only [yield, List.cons_append, List.append_assoc, List.cons.injEq, true_and] at he
    obtain ⟨rfl, -, he⟩ := hc.of_closes h.1.1 h'.1.1 rfl rfl he
    obtain ⟨rfl, hr⟩ := ht h.1.2.1 h'.1.2.1 (follow_else h.2 _) (follow_else h'.2 _)
      (List.cons.inj he).2
    simp only [List.cons.injEq, true_and] at hr
    obtain ⟨rfl, rfl⟩ := hu h.1.2.2 h'.1.2.2 hk hk' hr
    exact ⟨rfl, rfl⟩

theorem chain {l : Chain} {e : Derivation (.phrase l.first)} {rest : Derivation (.operators l)}
    (hu : e.Unique) (hrest : rest.Unique) : (Derivation.chain l e rest).Unique := by
  intro d' k k' h h' hk hk' he
  cases d' with
  | chain _ e' rest' =>
    simp only [yield, List.append_assoc] at he
    obtain ⟨rfl, hr⟩ := hu h.1 h'.1 (follow_first _ _ hk.1) (follow_first _ _ hk'.1) he
    obtain ⟨rfl, rfl⟩ := hrest h.2 h'.2 hk.1 hk'.1 hr
    exact ⟨rfl, rfl⟩

theorem noOperator {l : Chain} : (Derivation.noOperator l).Unique := by
  intro d' k k' h h' hk hk' he
  cases d' with
  | noOperator => exact ⟨rfl, he⟩
  | operator _ o rank e rest =>
    obtain rfl : k = _ := he
    exact absurd rank (Nat.ne_of_gt hk)

theorem operator {l : Chain} {o : Operator} {rank : o.rank = l.rank}
    {e : Derivation (.phrase l.operand)} {rest : Derivation (.operators l)}
    (hu : e.Unique) (hrest : rest.Unique) : (Derivation.operator l o rank e rest).Unique := by
  intro d' k k' h h' hk hk' he
  cases d' with
  | noOperator =>
    obtain rfl : _ = k' := he
    exact absurd rank (Nat.ne_of_gt hk')
  | operator _ o' rank' e' rest' =>
    simp only [yield, List.cons_append, List.append_assoc, List.cons.injEq, Kind.op.injEq] at he
    obtain ⟨rfl, he⟩ := he
    obtain ⟨rfl, hr⟩ := hu h.1 h'.1 (follow_operand _ _ hk) (follow_operand _ _ hk') he
    obtain ⟨rfl, rfl⟩ := hrest h.2 h'.2 hk hk' hr
    exact ⟨rfl, rfl⟩

theorem string {s : String} : (Derivation.string s).Unique := by
  intro d' k k' h h' hk hk' he
  cases d' with
  | string s' =>
    simp only [yield, List.cons_append, List.nil_append, List.cons.injEq, Kind.str.injEq] at he
    obtain ⟨rfl, rfl⟩ := he
    exact ⟨rfl, rfl⟩
  | term e => exact absurd he.symm (term_ne_string e s k' k)

theorem term {e : Derivation (.phrase (.chain .term))} (hu : e.Unique) :
    (Derivation.term e).Unique := by
  intro d' k k' h h' hk hk' he
  cases d' with
  | string s => exact absurd he (term_ne_string e s k k')
  | term e' =>
    obtain ⟨rfl, rfl⟩ := hu h h' (follow_chain _ hk.1) (follow_chain _ hk'.1) he
    exact ⟨rfl, rfl⟩

theorem base {b : Derivation (.phrase .factor)} (hb : b.Unique) : (Derivation.base b).Unique := by
  intro d' k k' h h' hk hk' he
  cases d' with
  | base b' =>
    obtain ⟨rfl, rfl⟩ := hb h h' (follow_factor _ hk.1) (follow_factor _ hk'.1) he
    exact ⟨rfl, rfl⟩
  | raised b' e' =>
    simp only [yield, List.append_assoc] at he
    obtain ⟨rfl, rfl⟩ := hb h h'.1 (follow_factor _ hk.1) (follow_power _ _) he
    exact absurd hk.1 (Nat.not_succ_le_zero 0)

theorem raised {b e : Derivation (.phrase .factor)} (hb : b.Unique) (hu : e.Unique) :
    (Derivation.raised b e).Unique := by
  intro d' k k' h h' hk hk' he
  cases d' with
  | base b' =>
    simp only [yield, List.append_assoc] at he
    obtain ⟨rfl, rfl⟩ := hb h.1 h' (follow_power _ _) (follow_factor _ hk'.1) he
    exact absurd hk'.1 (Nat.not_succ_le_zero 0)
  | raised b' e' =>
    simp only [yield, List.append_assoc] at he
    obtain ⟨rfl, hr⟩ := hb h.1 h'.1 (follow_power _ _) (follow_power _ _) he
    obtain ⟨rfl, rfl⟩ := hu h.2 h'.2 (follow_factor _ hk.1) (follow_factor _ hk'.1)
      (List.cons.inj hr).2
    exact ⟨rfl, rfl⟩

theorem int {n : Int64} : (Derivation.int n).Unique := by
  intro d' k k' h h' hk hk' he
  cases d' <;> simp_all [yield]

theorem float {x : Float} : (Derivation.float x).Unique := by
  intro d' k k' h h' hk hk' he
  cases d' <;> simp_all [yield]

theorem var {x : String} : (Derivation.var x).Unique := by
  intro d' k k' h h' hk hk' he
  cases d' with
  | var x' => simp_all [yield]
  | call f as =>
    obtain rfl : k = _ := (List.cons.inj he).2
    exact hk.1.elim
  | _ => simp [yield] at he

theorem call {f : String} {as : Derivation .argsEnd} (has : as.Unique) :
    (Derivation.call f as).Unique := by
  intro d' k k' h h' hk hk' he
  cases d' with
  | var x =>
    obtain rfl : _ = k' := (List.cons.inj he).2
    exact hk'.1.elim
  | call f' as' =>
    simp only [yield, List.cons_append, List.cons.injEq, Kind.ident.injEq, true_and] at he
    obtain ⟨rfl, he⟩ := he
    obtain ⟨rfl, rfl⟩ := has h h' trivial trivial he
    exact ⟨rfl, rfl⟩
  | _ => simp [yield] at he

theorem group {e : Derivation (.phrase .expr)} (hu : e.Unique) : (Derivation.group e).Unique := by
  intro d' k k' h h' hk hk' he
  cases d' with
  | group e' =>
    simp only [yield, List.cons_append, List.append_assoc, List.cons.injEq, true_and] at he
    obtain ⟨rfl, -, rfl⟩ := hu.of_closes h h' rfl rfl he
    exact ⟨rfl, rfl⟩
  | ternary c t e' =>
    simp only [yield, List.cons_append, List.append_assoc, List.cons.injEq, true_and] at he
    obtain ⟨rfl, -, rfl⟩ := hu.of_closes h h'.1 rfl rfl he
    exact hk.1.elim
  | _ => simp [yield] at he

theorem ternary {c t e : Derivation (.phrase .expr)} (hc : c.Unique) (ht : t.Unique)
    (hu : e.Unique) : (Derivation.ternary c t e).Unique := by
  intro d' k k' h h' hk hk' he
  cases d' with
  | group e' =>
    simp only [yield, List.cons_append, List.append_assoc, List.cons.injEq, true_and] at he
    obtain ⟨rfl, -, rfl⟩ := hc.of_closes h.1 h' rfl rfl he
    exact hk'.1.elim
  | ternary c' t' e' =>
    simp only [yield, List.cons_append, List.append_assoc, List.cons.injEq, true_and] at he
    obtain ⟨rfl, -, he⟩ := hc.of_closes h.1 h'.1 rfl rfl he
    simp only [List.cons.injEq, true_and] at he
    obtain ⟨rfl, -, he⟩ := ht.of_closes h.2.1 h'.2.1 rfl rfl he
    simp only [List.cons.injEq, true_and] at he
    obtain ⟨rfl, -, rfl⟩ := hu.of_closes h.2.2 h'.2.2 rfl rfl he
    exact ⟨rfl, rfl⟩
  | _ => simp [yield] at he

theorem lastArg {e : Derivation (.phrase .expr)} (hu : e.Unique) :
    (Derivation.lastArg e).Unique := by
  intro d' k k' h h' hk hk' he
  cases d' with
  | lastArg e' =>
    obtain ⟨rfl, rfl⟩ := hu h h' (follow_rparen _ hk) (follow_rparen _ hk') he
    exact ⟨rfl, rfl⟩
  | arg e' rest' =>
    simp only [yield, List.append_assoc] at he
    obtain ⟨rfl, rfl⟩ := hu h h'.1 (follow_rparen _ hk) (follow_closes _ rfl _) he
    cases hk

theorem arg {e : Derivation (.phrase .expr)} {rest : Derivation .args} (hu : e.Unique)
    (hrest : rest.Unique) : (Derivation.arg e rest).Unique := by
  intro d' k k' h h' hk hk' he
  cases d' with
  | lastArg e' =>
    simp only [yield, List.append_assoc] at he
    obtain ⟨rfl, rfl⟩ := hu h.1 h' (follow_closes _ rfl _) (follow_rparen _ hk') he
    cases hk'
  | arg e' rest' =>
    simp only [yield, List.append_assoc] at he
    obtain ⟨rfl, -, he⟩ := hu.of_closes h.1 h'.1 rfl rfl he
    obtain ⟨rfl, rfl⟩ := hrest h.2 h'.2 hk hk' he
    exact ⟨rfl, rfl⟩

theorem noArgs : Derivation.noArgs.Unique := by
  intro d' k k' h h' hk hk' he
  cases d' with
  | noArgs => exact ⟨rfl, (List.cons.inj he).2⟩
  | someArgs as =>
    simp only [yield, List.append_assoc] at he
    exact absurd he.symm (as.args_ne_rparen _ _)

theorem someArgs {as : Derivation .args} (has : as.Unique) : (Derivation.someArgs as).Unique := by
  intro d' k k' h h' hk hk' he
  simp only [yield, List.append_assoc] at he
  cases d' with
  | noArgs => exact absurd he (as.args_ne_rparen _ _)
  | someArgs as' =>
    simp only [yield, List.append_assoc] at he
    have hfollow (d : Derivation .args) (k : List Kind) : d.Follow (.mark .rparen :: k) := rfl
    obtain ⟨rfl, hr⟩ := has h h' (hfollow as k) (hfollow as' k') he
    exact ⟨rfl, (List.cons.inj hr).2⟩

end Unique

/-- **Every derivation is unique.** -/
theorem unique (d : Derivation n) : d.Unique := by
  induction d with
  | assignFlow _ _ ih => exact .assignFlow ih
  | assign _ _ ih => exact .assign ih
  | bare _ ih => exact .bare ih
  | flow _ _ _ _ ih₁ ih₂ => exact .flow ih₁ ih₂
  | noStage => exact .noStage
  | stage _ _ _ ih₁ ih₂ => exact .stage ih₁ ih₂
  | conditional _ ih => exact .conditional ih
  | or _ ih => exact .or ih
  | ifThen _ _ ih₁ ih₂ => exact .ifThen ih₁ ih₂
  | ifElse _ _ _ ih₁ ih₂ ih₃ => exact .ifElse ih₁ ih₂ ih₃
  | chain _ _ _ ih₁ ih₂ => exact .chain ih₁ ih₂
  | noOperator => exact .noOperator
  | operator _ _ _ _ _ ih₁ ih₂ => exact .operator ih₁ ih₂
  | string => exact .string
  | term _ ih => exact .term ih
  | base _ ih => exact .base ih
  | raised _ _ ih₁ ih₂ => exact .raised ih₁ ih₂
  | int => exact .int
  | float => exact .float
  | var => exact .var
  | call _ _ ih => exact .call ih
  | group _ ih => exact .group ih
  | ternary _ _ _ ih₁ ih₂ ih₃ => exact .ternary ih₁ ih₂ ih₃
  | lastArg _ ih => exact .lastArg ih
  | arg _ _ ih₁ ih₂ => exact .arg ih₁ ih₂
  | noArgs => exact .noArgs
  | someArgs _ ih => exact .someArgs ih

/-- **A line has one derivation, once every `else` belongs to the nearest
    conditional that lacks one.** -/
theorem eq_of_yield {d d' : Derivation .line} (h : d.Nearest) (h' : d'.Nearest)
    (he : d.yield = d'.yield) : d = d' :=
  (@unique _ d d' [] [] h h' trivial trivial (by rw [he])).1

end Derivation

end Flowline
