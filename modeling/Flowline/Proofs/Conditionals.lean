/-
  The short conditional and the keyword conditional.

  * `ternaryWord`, `keywordWord`: the words `(c)?(t):(e)` and `if (c): t else: e`;
  * `Expr.isOpen`: an `else` after the expression goes into it;
  * `Expr.TakesElse`: where it goes;
  * `StandsFor w e`: the word `w` is read as the expression `e`;
  * `standsFor_ternaryWord`, `standsFor_keywordWord`, `exists_standsFor_keywordWord`: what
    both words are read as;
  * `parseTokens_ternary_keyword`: they are laid out in the same way, unless the first
    branch is open.
-/
import Flowline.Proofs.Flows

namespace Flowline

/-! ## Words -/

/-- `(c)?(t):(e)` -/
def ternaryWord (c t e : List Kind) : List Kind :=
  .mark .lparen :: (c ++ .mark .rparen :: .mark .question :: .mark .lparen ::
    (t ++ .mark .rparen :: .mark .colon :: .mark .lparen :: (e ++ [.mark .rparen])))

/-- `if (c): t else: e` -/
def keywordWord (c t e : List Kind) : List Kind :=
  .mark .ifWord :: .mark .lparen :: (c ++ .mark .rparen :: .mark .colon ::
    (t ++ .mark .elseWord :: .mark .colon :: e))

/-- A word as a line by itself, or on the right of the assignment to a name. -/
def lineWord : Option String → List Kind → List Kind
  | none, w => w
  | some x, w => .ident x :: .mark .equal :: w

/-- An expression as a line by itself, or as the value of an assignment. -/
def Line.ofTarget : Option String → Expr → Line
  | none, e => .expr e
  | some x, e => .assign x e

/-- The word is read as the expression. -/
def StandsFor (w : List Kind) (e : Expr) : Prop :=
  ∃ d : Derivation (.phrase .expr), d.Nearest ∧ d.yield = w ∧ d.meaning = e

/-! ## Open expressions -/

/-- A conditional without an `else`, or with one whose branch is open. -/
def Expr.isOpen : Expr → Bool
  | ifThen _ _ => true
  | ifElse _ _ e => e.isOpen
  | _ => false

/-- The word is read as an open conditional. -/
def OpenWord (w : List Kind) : Prop :=
  ∃ e, StandsFor w e ∧ e.isOpen

/-- The first expression becomes the third with an `else` after it, whose branch is the
    second: the `else` goes to the innermost conditional at the end that lacks one. -/
inductive Expr.TakesElse : Expr → Expr → Expr → Prop where
  /-- The conditional itself, if no other one at the end of its branch lacks an `else`. -/
  | here {c t b : Expr} (closed : t.isOpen = false) : TakesElse (.ifThen c t) b (.ifElse c t b)
  /-- One at the end of the only branch. -/
  | branch {c t b t' : Expr} (inner : TakesElse t b t') :
      TakesElse (.ifThen c t) b (.ifThen c t')
  /-- One at the end of the second branch. -/
  | alternate {c t e b e' : Expr} (inner : TakesElse e b e') :
      TakesElse (.ifElse c t e) b (.ifElse c t e')

namespace Derivation

/-- Operators make nothing open. -/
theorem isOpen_meaning_operators {l : Chain} : ∀ (d : Derivation (.operators l)) {e : Expr},
    e.isOpen = false → Expr.isOpen (d.meaning e) = false
  | noOperator _, _, he => he
  | operator _ _ _ _ rest, _, _ => rest.isOpen_meaning_operators rfl

/-- What an open derivation stands for is open. -/
theorem isOpen_meaning {p : Phrase} : ∀ d : Derivation (.phrase p),
    Expr.isOpen d.meaning = d.isOpen
  | conditional c => c.isOpen_meaning
  | ifElse _ _ e => e.isOpen_meaning
  | or e => by
    rw [meaning, e.isOpen_meaning]
    cases e
    rfl
  | chain l e rest =>
    rest.isOpen_meaning_operators (e.isOpen_meaning.trans (isOpen_first e))
  | term e => by
    rw [meaning, e.isOpen_meaning]
    cases e
    rfl
  | base b => by
    rw [meaning, b.isOpen_meaning]
    cases b <;> rfl
  | ifThen _ _ | raised _ _ | string _ | int _ | float _ | var _ | call _ _ | group _
  | ternary _ _ _ => rfl

/-- An `else` after an open expression goes to the innermost conditional at its end
    that lacks one. -/
theorem exists_takesElse {p : Phrase} {b : Derivation (.phrase .expr)} (hb : b.Nearest) :
    ∀ d : Derivation (.phrase p), d.isOpen → d.Nearest →
      ∃ d' : Derivation (.phrase p), d'.Nearest ∧
        d'.yield = d.yield ++ .mark .elseWord :: .mark .colon :: b.yield ∧
          Expr.TakesElse d.meaning b.meaning d'.meaning
  | conditional c, hopen, hd => by
    obtain ⟨c', hc', hyield, htakes⟩ := exists_takesElse hb c hopen hd
    exact ⟨.conditional c', hc', hyield, htakes⟩
  | ifThen c t, _, ⟨hc, ht⟩ => by
    by_cases hopen : t.isOpen
    · obtain ⟨t', ht', hyield, htakes⟩ := exists_takesElse hb t hopen ht
      exact ⟨.ifThen c t', ⟨hc, ht'⟩, by simp [hyield], .branch htakes⟩
    · have hclosed : t.isOpen = false := by simpa using hopen
      exact ⟨.ifElse c t b, ⟨⟨hc, ht, hb⟩, hclosed⟩, by simp,
        .here (t.isOpen_meaning.trans hclosed)⟩
  | ifElse c t e, hopen, ⟨⟨hc, ht, he⟩, hclosed⟩ => by
    obtain ⟨e', he', hyield, htakes⟩ := exists_takesElse hb e hopen he
    exact ⟨.ifElse c t e', ⟨⟨hc, ht, he'⟩, hclosed⟩, by simp [hyield], .alternate htakes⟩

end Derivation

/-! ## Readings -/

/-- A word is read as one expression only. -/
theorem StandsFor.unique {w : List Kind} {e e' : Expr} (h : StandsFor w e) (h' : StandsFor w e') :
    e = e' := by
  obtain ⟨d, hd, hyield, rfl⟩ := h
  obtain ⟨d', hd', hyield', rfl⟩ := h'
  have hbare : Derivation.bare d = .bare d' :=
    Derivation.eq_of_yield hd hd' (hyield.trans hyield'.symm)
  cases hbare
  rfl

theorem StandsFor.derivable {w : List Kind} {e : Expr} (h : StandsFor w e) :
    Derivable (.phrase .expr) w := by
  obtain ⟨d, -, hyield, -⟩ := h
  exact ⟨d, hyield⟩

/-- What is read as an expression that is not open is no open conditional. -/
theorem StandsFor.not_openWord {w : List Kind} {e : Expr} (h : StandsFor w e)
    (hclosed : e.isOpen = false) : ¬ OpenWord w := by
  rintro ⟨e', h', hopen⟩
  obtain rfl := h.unique h'
  rw [hclosed] at hopen
  cases hopen

theorem exists_standsFor {w : List Kind} (h : Derivable (.phrase .expr) w) :
    ∃ e, StandsFor w e := by
  obtain ⟨d, hyield⟩ := h
  obtain ⟨d', hd', hyield'⟩ := d.exists_nearest
  exact ⟨d'.meaning, d', hd', hyield'.trans hyield, rfl⟩

/-- A factor is read as what it stands for. -/
theorem StandsFor.of_factor (b : FactorArgument) : StandsFor b.1.yield b.1.meaning :=
  ⟨(Argument.ofFactor b).1, Subtype.prop _, Argument.word_ofFactor b, rfl⟩

section
variable {wc wt we : List Kind} {c t e : Expr}

theorem standsFor_ternaryWord (hc : StandsFor wc c) (ht : StandsFor wt t) (he : StandsFor we e) :
    StandsFor (ternaryWord wc wt we) (.ternary c t e) := by
  obtain ⟨dc, hdc, rfl, rfl⟩ := hc
  obtain ⟨dt, hdt, rfl, rfl⟩ := ht
  obtain ⟨de, hde, rfl, rfl⟩ := he
  exact .of_factor ⟨.ternary dc dt de, hdc, hdt, hde⟩

theorem standsFor_keywordWord (hc : StandsFor wc c) (ht : StandsFor wt t)
    (hclosed : t.isOpen = false) (he : StandsFor we e) :
    StandsFor (keywordWord wc wt we) (.ifElse c t e) := by
  obtain ⟨dc, hdc, rfl, rfl⟩ := hc
  obtain ⟨dt, hdt, rfl, rfl⟩ := ht
  obtain ⟨de, hde, rfl, rfl⟩ := he
  exact ⟨.conditional (.ifElse dc dt de), ⟨⟨hdc, hdt, hde⟩, dt.isOpen_meaning.symm.trans hclosed⟩,
    rfl, rfl⟩

theorem exists_standsFor_keywordWord (hc : StandsFor wc c) (ht : StandsFor wt t)
    (hopen : t.isOpen) (he : StandsFor we e) :
    ∃ t', t.TakesElse e t' ∧ StandsFor (keywordWord wc wt we) (.ifThen c t') := by
  obtain ⟨dc, hdc, rfl, rfl⟩ := hc
  obtain ⟨dt, hdt, rfl, rfl⟩ := ht
  obtain ⟨de, hde, rfl, rfl⟩ := he
  obtain ⟨dt', hdt', hyield, htakes⟩ :=
    Derivation.exists_takesElse hde dt (dt.isOpen_meaning.symm.trans hopen) hdt
  refine ⟨_, htakes, .conditional (.ifThen dc dt'), ⟨hdc, hdt'⟩, ?_, rfl⟩
  simp [hyield, keywordWord]

end

/-! ## Lines -/

/-- A line is laid out as what its word stands for. -/
theorem StandsFor.parseTokens_eq {target : Option String} {w : List Kind} {e : Expr}
    (h : StandsFor w e) {ts : List Token} (hts : sentence ts = lineWord target w) :
    parseTokens ts = .ok (Line.ofTarget target e).store := by
  obtain ⟨d, hd, rfl, rfl⟩ := h
  cases target with
  | none => exact parseTokens_eq_ok_iff.2 ⟨.bare d, hd, hts.symm, rfl⟩
  | some x => exact parseTokens_eq_ok_iff.2 ⟨.assign x d, hd, hts.symm, rfl⟩

/-- Both forms of a conditional take the same nodes. -/
theorem Line.store_ternary (target : Option String) (c t e : Expr) :
    (ofTarget target (.ternary c t e)).store = (ofTarget target (.ifElse c t e)).store := by
  cases target <;>
    simp only [ofTarget, store, nodes, rooted, tree, Expr.tree, Expr.size]

/-- The store of a line holds its expression at the number of the nodes of that. -/
theorem Line.exists_top_store (target : Option String) (e : Expr) :
    ∃ parent, (ofTarget target e).store.nodes[e.size]? = some ((e.tree 1).top parent) := by
  have hid (parent : Option Nat) : ((e.tree 1).top parent).id = e.size := by
    rw [Tree.id_top, Expr.id_tree, Expr.idFrom, Nat.add_sub_cancel_left]
  obtain ⟨below, hnodes, -⟩ := (e.tree 1).exists_nodes_eq
  have hmem (parent : Option Nat) : (e.tree 1).top parent ∈ (e.tree 1).nodes parent := by
    simp [hnodes]
  cases target with
  | none =>
    have hheld := (Line.expr e).getElem?_store_tree _ (hmem (some 0))
    rw [hid] at hheld
    exact ⟨_, hheld⟩
  | some x =>
    have hheld := (Line.assign x e).getElem?_store_tree ((e.tree 1).top (some (1 + e.size + 1)))
      (by simp [Line.tree, Tree.nodes, Forest.nodes, hmem])
    rw [hid] at hheld
    exact ⟨_, hheld⟩

/-- **The short and the keyword conditional are the same tree.**  By themselves or as the
    value of an assignment, `(c)?(a):(b)` and `if (c): a else: b` are both laid out, and
    their stores are the same, unless `a` is an open conditional.  If it is, the keyword
    line is laid out as well, but the `else` before `b` goes to the innermost conditional
    at the end of `a` that lacks one, and the outer conditional has none. -/
theorem parseTokens_ternary_keyword (target : Option String) {c a b : List Kind}
    (hc : Derivable (.phrase .expr) c) (ha : Derivable (.phrase .expr) a)
    (hb : Derivable (.phrase .expr) b) {ts ts' : List Token}
    (hts : sentence ts = lineWord target (ternaryWord c a b))
    (hts' : sentence ts' = lineWord target (keywordWord c a b)) :
    (¬ OpenWord a → ∃ t, parseTokens ts = .ok t ∧ parseTokens ts' = .ok t) ∧
      (OpenWord a → ∃ cond branch alternate branch' : Expr,
        StandsFor c cond ∧ StandsFor a branch ∧ StandsFor b alternate ∧
          branch.TakesElse alternate branch' ∧
          let outer := Expr.ifThen cond branch'
          let store := (Line.ofTarget target outer).store
          parseTokens ts' = .ok store ∧
            ∃ n, store.nodes[outer.size]? = some n ∧ n.kind = .cond ∧
              n.child? .alternate = none) := by
  obtain ⟨cond, hcond⟩ := exists_standsFor hc
  obtain ⟨alternate, halternate⟩ := exists_standsFor hb
  constructor
  · intro hclosed
    obtain ⟨branch, hbranch⟩ := exists_standsFor ha
    have hnot : branch.isOpen = false := by
      by_contra hopen
      exact hclosed ⟨branch, hbranch, by simpa using hopen⟩
    have hternary := standsFor_ternaryWord hcond hbranch halternate
    have hkeyword := standsFor_keywordWord hcond hbranch hnot halternate
    refine ⟨_, hternary.parseTokens_eq hts, ?_⟩
    rw [hkeyword.parseTokens_eq hts', Line.store_ternary]
  · rintro ⟨branch, hbranch, hopen⟩
    obtain ⟨branch', htakes, hkeyword⟩ :=
      exists_standsFor_keywordWord hcond hbranch hopen halternate
    obtain ⟨parent, htop⟩ := Line.exists_top_store target (.ifThen cond branch')
    exact ⟨cond, branch, alternate, branch', hcond, hbranch, halternate, htakes,
      hkeyword.parseTokens_eq hts', _, htop, rfl, rfl⟩

/-- A closed branch on the right of an assignment, and an open one in a line by itself. -/
theorem parseTokens_ternary_keyword_dangling :
    let p : List Kind := [.ident "p"]
    let q : List Kind := [.ident "q"]
    let one : List Kind := [.int 1]
    let dangling : List Kind :=
      [.mark .ifWord, .mark .lparen, .ident "q", .mark .rparen, .mark .colon, .int 2]
    let ts := (lex "x = (p)?(q):(1)").tokens
    let ts' := (lex "x = if (p): q else: 1").tokens
    let us := (lex "(p)?(if (q): 2):(1)").tokens
    let us' := (lex "if (p): if (q): 2 else: 1").tokens
    ((sentence ts = lineWord (some "x") (ternaryWord p q one) ∧
        sentence ts' = lineWord (some "x") (keywordWord p q one)) ∧
      ∃ t, parseTokens ts = .ok t ∧ parseTokens ts' = .ok t) ∧
    (sentence us = lineWord none (ternaryWord p dangling one) ∧
        sentence us' = lineWord none (keywordWord p dangling one)) ∧
      parseTokens us' =
        .ok (Line.expr (.ifThen (.var "p") (.ifElse (.var "q") (.int 2) (.int 1)))).store := by
  intro p q one dangling ts ts' us us'
  have hts : sentence ts = lineWord (some "x") (ternaryWord p q one) := by
    simp only [ts, p, q, one]
    cbv
  have hts' : sentence ts' = lineWord (some "x") (keywordWord p q one) := by
    simp only [ts', p, q, one]
    cbv
  have hus : sentence us = lineWord none (ternaryWord p dangling one) := by
    simp only [us, p, dangling, one]
    cbv
  have hus' : sentence us' = lineWord none (keywordWord p dangling one) := by
    simp only [us', p, dangling, one]
    cbv
  have hp : StandsFor p (.var "p") := .of_factor ⟨.var "p", trivial⟩
  have hq : StandsFor q (.var "q") := .of_factor ⟨.var "q", trivial⟩
  have hone : StandsFor one (.int 1) := .of_factor ⟨.int 1, trivial⟩
  have hdangling : StandsFor dangling (.ifThen (.var "q") (.int 2)) :=
    ⟨.conditional (.ifThen (Argument.ofFactor ⟨.var "q", trivial⟩).1
      (Argument.ofFactor ⟨.int 2, trivial⟩).1), ⟨Subtype.prop _, Subtype.prop _⟩, rfl, rfl⟩
  refine ⟨⟨⟨hts, hts'⟩, ?_⟩, ⟨hus, hus'⟩, ?_⟩
  · exact (parseTokens_ternary_keyword (some "x") hp.derivable hq.derivable hone.derivable hts
      hts').1 (hq.not_openWord rfl)
  · obtain ⟨cond, branch, alternate, branch', hcond, hbranch, halternate, htakes, hparse, -⟩ :=
      (parseTokens_ternary_keyword none hp.derivable hdangling.derivable hone.derivable hus
        hus').2 ⟨_, hdangling, rfl⟩
    obtain rfl := hcond.unique hp
    obtain rfl := hbranch.unique hdangling
    obtain rfl := halternate.unique hone
    cases htakes with
    | here _ => exact hparse
    | branch inner => cases inner

end Flowline
