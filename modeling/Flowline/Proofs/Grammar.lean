/-
  The grammar of lines, as derivations.

      line        := IDENT '=' flow | IDENT '=' expr | expr
      flow        := IDENT ('->' IDENT '(' args? ')')+
      expr        := conditional | or
      conditional := 'if' '(' expr ')' ':' expr ('else' ':' expr)?
      or          := and ('||' and)*
      and         := compare ('&&' compare)*
      compare     := additive (CMP additive)*
      additive    := (STRING | term) (('+' | '-') term)*
      term        := power (('*' | '/') power)*
      power       := factor ('^' factor)?
      factor      := NUMBER | IDENT | IDENT '(' args? ')' | '(' expr ')'
                   | '(' expr ')' '?' '(' expr ')' ':' '(' expr ')'
      args        := expr (',' expr)*

  * `Derivation n`: the derivations from the nonterminal `n`, one constructor
    per alternative of a rule; `Derivation.yield` is the derived word and
    `Derivation.meaning` the abstract expression or line;
  * `Derivation.Nearest`: every `else` belongs to the nearest conditional that
    lacks one;
  * `Derivation.exists_cons_yield`, `Derivation.isInner_of_mem_yield`: the
    first and the other tokens of derived words;
  * `Derivation.exists_nearest`: a word that can be derived can be derived with
    every `else` at the nearest conditional.
-/
import Flowline.Parser

namespace Flowline

/-! ## Nonterminals -/

/-- The rules whose operators chain to the left. -/
inductive Chain where
  | term
  | additive
  | compare
  | and
  | or

/-- The rank of the operators of a chain: `* /`, `+ -`, the comparisons, `&&`
    and `||`. -/
def Chain.rank : Chain → Nat
  | term => 1
  | additive => 2
  | compare => 3
  | and => 4
  | or => 5

/-- The nonterminals below a line that derive an expression. -/
inductive Phrase where
  | expr
  | conditional
  /-- `or`, `and`, `compare`, `additive` or `term`. -/
  | chain (l : Chain)
  /-- `STRING | term` -/
  | opening
  | power
  | factor

/-- The nonterminals, and the groups in parentheses that a rule repeats or
    leaves out. -/
inductive Nonterminal where
  | line
  | flow
  | phrase (p : Phrase)
  | args
  /-- `('->' IDENT '(' args? ')')*` -/
  | stages
  /-- The operators of a chain, each with the operand after it. -/
  | operators (l : Chain)
  /-- `args? ')'` -/
  | argsEnd

/-- What stands after an operator of a chain. -/
def Chain.operand : Chain → Phrase
  | term => .power
  | additive => .chain .term
  | compare => .chain .additive
  | and => .chain .compare
  | or => .chain .and

/-- What stands before the first operator of a chain. -/
def Chain.first : Chain → Phrase
  | additive => .opening
  | l => l.operand

/-! ## Derivations -/

/-- The derivations from a nonterminal. -/
inductive Derivation : Nonterminal → Type where
  /-- `line := IDENT '=' flow` -/
  | assignFlow (x : String) (f : Derivation .flow) : Derivation .line
  /-- `line := IDENT '=' expr` -/
  | assign (x : String) (e : Derivation (.phrase .expr)) : Derivation .line
  /-- `line := expr` -/
  | bare (e : Derivation (.phrase .expr)) : Derivation .line
  /-- `flow := IDENT '->' IDENT '(' args? ')' stages` -/
  | flow (s f : String) (as : Derivation .argsEnd) (rest : Derivation .stages) :
      Derivation .flow
  | noStage : Derivation .stages
  /-- `stages := '->' IDENT '(' args? ')' stages` -/
  | stage (f : String) (as : Derivation .argsEnd) (rest : Derivation .stages) :
      Derivation .stages
  /-- `expr := conditional` -/
  | conditional (c : Derivation (.phrase .conditional)) : Derivation (.phrase .expr)
  /-- `expr := or` -/
  | or (e : Derivation (.phrase (.chain .or))) : Derivation (.phrase .expr)
  /-- `conditional := 'if' '(' expr ')' ':' expr` -/
  | ifThen (c t : Derivation (.phrase .expr)) : Derivation (.phrase .conditional)
  /-- `conditional := 'if' '(' expr ')' ':' expr 'else' ':' expr` -/
  | ifElse (c t e : Derivation (.phrase .expr)) : Derivation (.phrase .conditional)
  /-- A first operand, then operators and the operands after them. -/
  | chain (l : Chain) (e : Derivation (.phrase l.first)) (rest : Derivation (.operators l)) :
      Derivation (.phrase (.chain l))
  | noOperator (l : Chain) : Derivation (.operators l)
  | operator (l : Chain) (o : Operator) (rank : o.rank = l.rank)
      (e : Derivation (.phrase l.operand)) (rest : Derivation (.operators l)) :
      Derivation (.operators l)
  | string (s : String) : Derivation (.phrase .opening)
  | term (e : Derivation (.phrase (.chain .term))) : Derivation (.phrase .opening)
  /-- `power := factor` -/
  | base (b : Derivation (.phrase .factor)) : Derivation (.phrase .power)
  /-- `power := factor '^' factor` -/
  | raised (b e : Derivation (.phrase .factor)) : Derivation (.phrase .power)
  | int (n : Int64) : Derivation (.phrase .factor)
  | float (x : Float) : Derivation (.phrase .factor)
  | var (x : String) : Derivation (.phrase .factor)
  /-- `factor := IDENT '(' args? ')'` -/
  | call (f : String) (as : Derivation .argsEnd) : Derivation (.phrase .factor)
  /-- `factor := '(' expr ')'` -/
  | group (e : Derivation (.phrase .expr)) : Derivation (.phrase .factor)
  /-- `factor := '(' expr ')' '?' '(' expr ')' ':' '(' expr ')'` -/
  | ternary (c t e : Derivation (.phrase .expr)) : Derivation (.phrase .factor)
  | lastArg (e : Derivation (.phrase .expr)) : Derivation .args
  /-- `args := expr ',' args` -/
  | arg (e : Derivation (.phrase .expr)) (rest : Derivation .args) : Derivation .args
  | noArgs : Derivation .argsEnd
  | someArgs (as : Derivation .args) : Derivation .argsEnd

/-- What a derivation from a nonterminal stands for.  Operators and stages
    take what is on their left. -/
def Nonterminal.Meaning : Nonterminal → Type
  | line => Line
  | flow | phrase _ => Expr
  | args | argsEnd => List Expr
  | stages | operators _ => Expr → Expr

namespace Derivation

/-- The derived word. -/
@[simp] def yield {n : Nonterminal} : Derivation n → List Kind
  | assignFlow x f => .ident x :: .mark .equal :: f.yield
  | assign x e => .ident x :: .mark .equal :: e.yield
  | bare e => e.yield
  | flow s f as rest =>
    .ident s :: .mark .arrow :: .ident f :: .mark .lparen :: (as.yield ++ rest.yield)
  | noStage => []
  | stage f as rest => .mark .arrow :: .ident f :: .mark .lparen :: (as.yield ++ rest.yield)
  | conditional c => c.yield
  | or e => e.yield
  | ifThen c t =>
    .mark .ifWord :: .mark .lparen :: (c.yield ++ .mark .rparen :: .mark .colon :: t.yield)
  | ifElse c t e =>
    .mark .ifWord :: .mark .lparen :: (c.yield ++ .mark .rparen :: .mark .colon ::
      (t.yield ++ .mark .elseWord :: .mark .colon :: e.yield))
  | chain _ e rest => e.yield ++ rest.yield
  | noOperator _ => []
  | operator _ o _ e rest => .op o :: (e.yield ++ rest.yield)
  | string s => [.str s]
  | term e => e.yield
  | base b => b.yield
  | raised b e => b.yield ++ .op (.arith .power) :: e.yield
  | int n => [.int n]
  | float x => [.float x]
  | var x => [.ident x]
  | call f as => .ident f :: .mark .lparen :: as.yield
  | group e => .mark .lparen :: (e.yield ++ [.mark .rparen])
  | ternary c t e =>
    .mark .lparen :: (c.yield ++ .mark .rparen :: .mark .question :: .mark .lparen ::
      (t.yield ++ .mark .rparen :: .mark .colon :: .mark .lparen ::
        (e.yield ++ [.mark .rparen])))
  | lastArg e => e.yield
  | arg e rest => e.yield ++ .mark .comma :: rest.yield
  | noArgs => [.mark .rparen]
  | someArgs as => as.yield ++ [.mark .rparen]

/-- What a derivation stands for.  Operators nest to the left, and a flow is
    nested calls. -/
@[simp] def meaning {n : Nonterminal} : Derivation n → n.Meaning
  | assignFlow x f => Line.assign x f.meaning
  | assign x e => Line.assign x e.meaning
  | bare e => Line.expr e.meaning
  | flow s f as rest => rest.meaning (.call f (.var s :: as.meaning))
  | noStage => fun e => e
  | stage f as rest => fun e => rest.meaning (.call f (e :: as.meaning))
  | conditional c => c.meaning
  | or e => e.meaning
  | ifThen c t => Expr.ifThen c.meaning t.meaning
  | ifElse c t e => Expr.ifElse c.meaning t.meaning e.meaning
  | chain _ e rest => rest.meaning e.meaning
  | noOperator _ => fun e => e
  | operator _ o _ e rest => fun l => rest.meaning (.binary o l e.meaning)
  | string s => Expr.str s
  | term e => e.meaning
  | base b => b.meaning
  | raised b e => Expr.binary (.arith .power) b.meaning e.meaning
  | int n => Expr.int n
  | float x => Expr.float x
  | var x => Expr.var x
  | call f as => Expr.call f as.meaning
  | group e => Expr.group e.meaning
  | ternary c t e => Expr.ternary c.meaning t.meaning e.meaning
  | lastArg e => [e.meaning]
  | arg e rest => e.meaning :: rest.meaning
  | noArgs => []
  | someArgs as => as.meaning

/-- Whether a derivation ends with a conditional that lacks an `else`. -/
@[simp] def isOpen {n : Nonterminal} : Derivation n → Bool
  | conditional c => c.isOpen
  | ifThen _ _ => true
  | ifElse _ _ e => e.isOpen
  | _ => false

/-- Every `else` belongs to the nearest conditional that lacks one: the branch
    before an `else` does not end with such a conditional. -/
@[simp] def Nearest {n : Nonterminal} : Derivation n → Prop
  | assignFlow _ f => f.Nearest
  | assign _ e | bare e | or e | term e | base e | group e | lastArg e => e.Nearest
  | flow _ _ as rest | stage _ as rest => as.Nearest ∧ rest.Nearest
  | conditional c => c.Nearest
  | ifThen c t => c.Nearest ∧ t.Nearest
  | ifElse c t e => (c.Nearest ∧ t.Nearest ∧ e.Nearest) ∧ t.isOpen = false
  | chain _ e rest | operator _ _ _ e rest | arg e rest => e.Nearest ∧ rest.Nearest
  | raised b e => b.Nearest ∧ e.Nearest
  | call _ as | someArgs as => as.Nearest
  | ternary c t e => c.Nearest ∧ t.Nearest ∧ e.Nearest
  | noStage | noOperator _ | string _ | int _ | float _ | var _ | noArgs => True

end Derivation

/-- The word can be derived from the nonterminal. -/
def Derivable (n : Nonterminal) (w : List Kind) : Prop :=
  ∃ d : Derivation n, d.yield = w

/-! ## First and inner tokens -/

/-- The kinds that a factor starts with. -/
def Kind.startsFactor : Kind → Bool
  | int _ | float _ | ident _ | mark .lparen => true
  | _ => false

/-- The kinds that a sum starts with. -/
def Kind.startsSum : Kind → Bool
  | str _ => true
  | k => k.startsFactor

/-- The kinds that the words of a phrase start with. -/
def Phrase.Starts (k : Kind) : Phrase → Prop
  | expr => k = .mark .ifWord ∨ k.startsSum
  | conditional => k = .mark .ifWord
  | chain .term | power | factor => k.startsFactor
  | chain _ | opening => k.startsSum

theorem Kind.startsSum_of_startsFactor {k : Kind} (h : k.startsFactor) : k.startsSum := by
  cases k <;> first | exact h | rfl

theorem Phrase.starts_chain {k : Kind} {l : Chain} (h : l.first.Starts k) :
    (Phrase.chain l).Starts k := by
  cases l <;> exact h

/-- The kinds of the tokens inside expressions. -/
def Kind.isInner : Kind → Bool
  | mark .equal | mark .arrow | eof => false
  | _ => true

/-- The end of the input. -/
def Kind.isEof : Kind → Bool
  | eof => true
  | _ => false

theorem Kind.isEof_of_isInner {k : Kind} (h : k.isInner) : k.isEof = false := by
  cases k <;> first | rfl | cases h

/-- The nonterminals inside expressions. -/
def Nonterminal.isInner : Nonterminal → Bool
  | line | flow | stages => false
  | _ => true

namespace Derivation

variable {n : Nonterminal}

/-- A phrase is not empty and starts as its rule says. -/
theorem exists_cons_yield {p : Phrase} :
    ∀ d : Derivation (.phrase p), ∃ k w, d.yield = k :: w ∧ p.Starts k
  | conditional c =>
    have ⟨k, w, h, hk⟩ := c.exists_cons_yield
    ⟨k, w, h, Or.inl hk⟩
  | or e =>
    have ⟨k, w, h, hk⟩ := e.exists_cons_yield
    ⟨k, w, h, Or.inr hk⟩
  | chain l e rest =>
    have ⟨k, w, h, hk⟩ := e.exists_cons_yield
    ⟨k, w ++ rest.yield, by rw [yield, h]; rfl, Phrase.starts_chain hk⟩
  | term e =>
    have ⟨k, w, h, hk⟩ := e.exists_cons_yield
    ⟨k, w, h, Kind.startsSum_of_startsFactor hk⟩
  | base b => b.exists_cons_yield
  | raised b e =>
    have ⟨k, w, h, hk⟩ := b.exists_cons_yield
    ⟨k, w ++ .op (.arith .power) :: e.yield, by rw [yield, h]; rfl, hk⟩
  | ifThen _ _ | ifElse _ _ _ | string _ | int _ | float _ | var _ | call _ _ | group _
  | ternary _ _ _ => ⟨_, _, rfl, rfl⟩

/-- A line is not empty. -/
theorem line_yield_ne_nil (d : Derivation .line) : d.yield ≠ [] := by
  cases d with
  | assignFlow | assign => simp
  | bare e =>
    obtain ⟨_, _, hw, -⟩ := e.exists_cons_yield
    simp [hw]

/-- No assignment sign, arrow or end of the input stands inside an expression. -/
theorem isInner_of_mem_yield (d : Derivation n) (hn : n.isInner) :
    ∀ k ∈ d.yield, k.isInner := by
  induction d with
  | assignFlow | assign | bare | flow | noStage | stage => cases hn
  | conditional _ ih | or _ ih | term _ ih | base _ ih | lastArg _ ih => exact ih rfl
  | noOperator | noArgs | string | int | float | var => simp [yield, Kind.isInner]
  | chain _ _ _ ih₁ ih₂ => exact List.forall_mem_append.2 ⟨ih₁ rfl, ih₂ rfl⟩
  | operator _ _ _ _ _ ih₁ ih₂ =>
    exact List.forall_mem_cons.2 ⟨rfl, List.forall_mem_append.2 ⟨ih₁ rfl, ih₂ rfl⟩⟩
  | call _ _ ih => exact List.forall_mem_cons.2 ⟨rfl, List.forall_mem_cons.2 ⟨rfl, ih rfl⟩⟩
  | raised _ _ ih₁ ih₂ | arg _ _ ih₁ ih₂ =>
    exact List.forall_mem_append.2 ⟨ih₁ rfl, List.forall_mem_cons.2 ⟨rfl, ih₂ rfl⟩⟩
  | someArgs _ ih =>
    exact List.forall_mem_append.2 ⟨ih rfl, List.forall_mem_cons.2 ⟨rfl, by simp⟩⟩
  | group _ ih =>
    simp only [yield, List.forall_mem_cons, List.forall_mem_append]
    exact ⟨rfl, ih rfl, rfl, by simp⟩
  | ifThen _ _ ih₁ ih₂ =>
    simp only [yield, List.forall_mem_cons, List.forall_mem_append]
    exact ⟨rfl, rfl, ih₁ rfl, rfl, rfl, ih₂ rfl⟩
  | ifElse _ _ _ ih₁ ih₂ ih₃ =>
    simp only [yield, List.forall_mem_cons, List.forall_mem_append]
    exact ⟨rfl, rfl, ih₁ rfl, rfl, rfl, ih₂ rfl, rfl, rfl, ih₃ rfl⟩
  | ternary _ _ _ ih₁ ih₂ ih₃ =>
    simp only [yield, List.forall_mem_cons, List.forall_mem_append]
    exact ⟨rfl, ih₁ rfl, rfl, rfl, rfl, ih₂ rfl, rfl, rfl, rfl, ih₃ rfl, rfl, by simp⟩

/-- A derived word does not hold the end of the input. -/
theorem isEof_of_mem_yield (d : Derivation n) : ∀ k ∈ d.yield, k.isEof = false := by
  induction d with
  | assignFlow _ _ ih | assign _ _ ih => simpa [Kind.isEof] using ih
  | bare _ ih => exact ih
  | flow _ _ _ _ ih₁ ih₂ =>
    simp only [yield, List.forall_mem_cons, List.forall_mem_append]
    exact ⟨rfl, rfl, rfl, rfl, ih₁, ih₂⟩
  | stage _ _ _ ih₁ ih₂ =>
    simp only [yield, List.forall_mem_cons, List.forall_mem_append]
    exact ⟨rfl, rfl, rfl, ih₁, ih₂⟩
  | noStage => simp
  | _ => exact fun k hk => Kind.isEof_of_isInner (isInner_of_mem_yield _ rfl k hk)

/-! ## Dangling branches -/

/-- A conditional that lacks an `else` takes one. -/
theorem exists_attach {d : Derivation n} (hd : d.isOpen) (hnear : d.Nearest)
    {e : Derivation (.phrase .expr)} (he : e.Nearest) :
    ∃ d' : Derivation n, d'.Nearest ∧
      d'.yield = d.yield ++ .mark .elseWord :: .mark .colon :: e.yield := by
  induction d with
  | conditional c ih =>
    obtain ⟨c', hc', hy⟩ := ih hd hnear
    exact ⟨.conditional c', hc', hy⟩
  | ifThen c t _ iht =>
    obtain ⟨hc, ht⟩ := hnear
    by_cases hopen : t.isOpen
    · obtain ⟨t', ht', hy⟩ := iht hopen ht
      exact ⟨.ifThen c t', ⟨hc, ht'⟩, by simp [yield, hy]⟩
    · exact ⟨.ifElse c t e, ⟨⟨hc, ht, he⟩, by simpa using hopen⟩, by simp [yield]⟩
  | ifElse c t a _ _ iha =>
    obtain ⟨⟨hc, ht, ha⟩, hopen⟩ := hnear
    obtain ⟨a', ha', hy⟩ := iha hd ha
    exact ⟨.ifElse c t a', ⟨⟨hc, ht, ha'⟩, hopen⟩, by simp [yield, hy]⟩
  | _ => cases hd

/-- **A word that can be derived can be derived with every `else` at the
    nearest conditional that lacks one.** -/
theorem exists_nearest (d : Derivation n) :
    ∃ d' : Derivation n, d'.Nearest ∧ d'.yield = d.yield := by
  induction d with
  | assignFlow x _ ih =>
    obtain ⟨f, hf, hy⟩ := ih
    exact ⟨.assignFlow x f, hf, by simp [yield, hy]⟩
  | assign x _ ih =>
    obtain ⟨e, he, hy⟩ := ih
    exact ⟨.assign x e, he, by simp [yield, hy]⟩
  | bare _ ih =>
    obtain ⟨e, he, hy⟩ := ih
    exact ⟨.bare e, he, hy⟩
  | flow s f _ _ ih₁ ih₂ =>
    obtain ⟨as, has, hy₁⟩ := ih₁
    obtain ⟨rest, hrest, hy₂⟩ := ih₂
    exact ⟨.flow s f as rest, ⟨has, hrest⟩, by simp [yield, hy₁, hy₂]⟩
  | stage f _ _ ih₁ ih₂ =>
    obtain ⟨as, has, hy₁⟩ := ih₁
    obtain ⟨rest, hrest, hy₂⟩ := ih₂
    exact ⟨.stage f as rest, ⟨has, hrest⟩, by simp [yield, hy₁, hy₂]⟩
  | conditional _ ih =>
    obtain ⟨c, hc, hy⟩ := ih
    exact ⟨.conditional c, hc, hy⟩
  | or _ ih =>
    obtain ⟨e, he, hy⟩ := ih
    exact ⟨.or e, he, hy⟩
  | ifThen _ _ ih₁ ih₂ =>
    obtain ⟨c, hc, hy₁⟩ := ih₁
    obtain ⟨t, ht, hy₂⟩ := ih₂
    exact ⟨.ifThen c t, ⟨hc, ht⟩, by simp [yield, hy₁, hy₂]⟩
  | ifElse _ _ _ ih₁ ih₂ ih₃ =>
    obtain ⟨c, hc, hy₁⟩ := ih₁
    obtain ⟨t, ht, hy₂⟩ := ih₂
    obtain ⟨e, he, hy₃⟩ := ih₃
    -- an open branch takes the `else` over
    by_cases hopen : t.isOpen
    · obtain ⟨t', ht', hy'⟩ := exists_attach hopen ht he
      exact ⟨.ifThen c t', ⟨hc, ht'⟩, by simp [yield, hy', hy₁, hy₂, hy₃]⟩
    · exact ⟨.ifElse c t e, ⟨⟨hc, ht, he⟩, by simpa using hopen⟩, by
        simp [yield, hy₁, hy₂, hy₃]⟩
  | chain l _ _ ih₁ ih₂ =>
    obtain ⟨e, he, hy₁⟩ := ih₁
    obtain ⟨rest, hrest, hy₂⟩ := ih₂
    exact ⟨.chain l e rest, ⟨he, hrest⟩, by simp [yield, hy₁, hy₂]⟩
  | operator l o rank _ _ ih₁ ih₂ =>
    obtain ⟨e, he, hy₁⟩ := ih₁
    obtain ⟨rest, hrest, hy₂⟩ := ih₂
    exact ⟨.operator l o rank e rest, ⟨he, hrest⟩, by simp [yield, hy₁, hy₂]⟩
  | term _ ih =>
    obtain ⟨e, he, hy⟩ := ih
    exact ⟨.term e, he, hy⟩
  | base _ ih =>
    obtain ⟨b, hb, hy⟩ := ih
    exact ⟨.base b, hb, hy⟩
  | raised _ _ ih₁ ih₂ =>
    obtain ⟨b, hb, hy₁⟩ := ih₁
    obtain ⟨e, he, hy₂⟩ := ih₂
    exact ⟨.raised b e, ⟨hb, he⟩, by simp [yield, hy₁, hy₂]⟩
  | call f _ ih =>
    obtain ⟨as, has, hy⟩ := ih
    exact ⟨.call f as, has, by simp [yield, hy]⟩
  | group _ ih =>
    obtain ⟨e, he, hy⟩ := ih
    exact ⟨.group e, he, by simp [yield, hy]⟩
  | ternary _ _ _ ih₁ ih₂ ih₃ =>
    obtain ⟨c, hc, hy₁⟩ := ih₁
    obtain ⟨t, ht, hy₂⟩ := ih₂
    obtain ⟨e, he, hy₃⟩ := ih₃
    exact ⟨.ternary c t e, ⟨hc, ht, he⟩, by simp [yield, hy₁, hy₂, hy₃]⟩
  | lastArg _ ih =>
    obtain ⟨e, he, hy⟩ := ih
    exact ⟨.lastArg e, he, hy⟩
  | arg _ _ ih₁ ih₂ =>
    obtain ⟨e, he, hy₁⟩ := ih₁
    obtain ⟨rest, hrest, hy₂⟩ := ih₂
    exact ⟨.arg e rest, ⟨he, hrest⟩, by simp [yield, hy₁, hy₂]⟩
  | someArgs _ ih =>
    obtain ⟨as, has, hy⟩ := ih
    exact ⟨.someArgs as, has, by simp [yield, hy]⟩
  | noStage => exact ⟨.noStage, trivial, rfl⟩
  | noOperator l => exact ⟨.noOperator l, trivial, rfl⟩
  | noArgs => exact ⟨.noArgs, trivial, rfl⟩
  | string s => exact ⟨.string s, trivial, rfl⟩
  | int n => exact ⟨.int n, trivial, rfl⟩
  | float x => exact ⟨.float x, trivial, rfl⟩
  | var x => exact ⟨.var x, trivial, rfl⟩

end Derivation

end Flowline
