/-
  Substitution of factors for variables.

  * `Expr.subst`, `Derivation.subst`: what stands in the places of the variables
    of an expression, and of the variables that a derivation has as factors;
  * `expand`: the same for words, where a name is a variable unless the sign
    after it makes it the name of a function, a target or the source of a flow;
  * `Derivation.yield_subst`: the word of a derivation determines the word
    after a substitution;
  * `Expr.Uses`: the variables and the functions of an expression;
  * `Derivation.uses_meaning`, `Derivation.meaning_subst`: they are names in the
    derived word, and substitution commutes with what derivations stand for.
-/
import Flowline.Proofs.Evaluation
import Flowline.Proofs.Completeness

namespace Flowline

/-! ## Expressions -/

mutual
/-- The expression with others in the places of its variables. -/
@[simp] def Expr.subst (θ : String → Expr) : Expr → Expr
  | int n => int n
  | float x => float x
  | str s => str s
  | var y => θ y
  | call f args => call f (Expr.substAll θ args)
  | group e => group (e.subst θ)
  | binary o l r => binary o (l.subst θ) (r.subst θ)
  | ternary c t e => ternary (c.subst θ) (t.subst θ) (e.subst θ)
  | ifThen c t => ifThen (c.subst θ) (t.subst θ)
  | ifElse c t e => ifElse (c.subst θ) (t.subst θ) (e.subst θ)

@[simp] def Expr.substAll (θ : String → Expr) : List Expr → List Expr
  | [] => []
  | e :: es => e.subst θ :: Expr.substAll θ es
end

/-- The target of an assignment is no variable. -/
@[simp] def Line.subst (θ : String → Expr) : Line → Line
  | expr e => expr (e.subst θ)
  | assign x e => assign x (e.subst θ)

@[simp] theorem Line.body_subst (θ : String → Expr) (l : Line) :
    (l.subst θ).body = l.body.subst θ := by
  cases l <;> rfl

mutual
@[simp] theorem Expr.subst_var : ∀ e : Expr, e.subst Expr.var = e
  | .int _ | .float _ | .str _ | .var _ => rfl
  | .call f args => by rw [Expr.subst, Expr.substAll_var]
  | .group e => by rw [Expr.subst, e.subst_var]
  | .binary o l r => by rw [Expr.subst, l.subst_var, r.subst_var]
  | .ternary c t e => by rw [Expr.subst, c.subst_var, t.subst_var, e.subst_var]
  | .ifThen c t => by rw [Expr.subst, c.subst_var, t.subst_var]
  | .ifElse c t e => by rw [Expr.subst, c.subst_var, t.subst_var, e.subst_var]

theorem Expr.substAll_var : ∀ es : List Expr, Expr.substAll Expr.var es = es
  | [] => rfl
  | e :: es => by rw [Expr.substAll, e.subst_var, Expr.substAll_var es]
end

mutual
/-- The variables of an expression have one property, and the names of the
    functions that it calls another one. -/
@[simp] def Expr.Uses (V F : String → Prop) : Expr → Prop
  | int _ | float _ | str _ => True
  | var y => V y
  | call f args => F f ∧ Expr.AllUse V F args
  | group e => e.Uses V F
  | binary _ l r => l.Uses V F ∧ r.Uses V F
  | ternary c t e | ifElse c t e => c.Uses V F ∧ t.Uses V F ∧ e.Uses V F
  | ifThen c t => c.Uses V F ∧ t.Uses V F

@[simp] def Expr.AllUse (V F : String → Prop) : List Expr → Prop
  | [] => True
  | e :: es => e.Uses V F ∧ Expr.AllUse V F es
end

/-! ## Derivations -/

namespace Derivation

variable {n : Nonterminal} {θ : String → Derivation (.phrase .factor)}

/-- The derivation with other factors in the places of its variables. -/
@[simp] def subst (θ : String → Derivation (.phrase .factor)) {n : Nonterminal} :
    Derivation n → Derivation n
  | assignFlow x f => assignFlow x (f.subst θ)
  | assign x e => assign x (e.subst θ)
  | bare e => bare (e.subst θ)
  | flow s f as rest => flow s f (as.subst θ) (rest.subst θ)
  | noStage => noStage
  | stage f as rest => stage f (as.subst θ) (rest.subst θ)
  | conditional c => conditional (c.subst θ)
  | or e => or (e.subst θ)
  | ifThen c t => ifThen (c.subst θ) (t.subst θ)
  | ifElse c t e => ifElse (c.subst θ) (t.subst θ) (e.subst θ)
  | chain l e rest => chain l (e.subst θ) (rest.subst θ)
  | noOperator l => noOperator l
  | operator l o rank e rest => operator l o rank (e.subst θ) (rest.subst θ)
  | string s => string s
  | term e => term (e.subst θ)
  | base b => base (b.subst θ)
  | raised b e => raised (b.subst θ) (e.subst θ)
  | int n => int n
  | float x => float x
  | var x => θ x
  | call f as => call f (as.subst θ)
  | group e => group (e.subst θ)
  | ternary c t e => ternary (c.subst θ) (t.subst θ) (e.subst θ)
  | lastArg e => lastArg (e.subst θ)
  | arg e rest => arg (e.subst θ) (rest.subst θ)
  | noArgs => noArgs
  | someArgs as => someArgs (as.subst θ)

@[simp] theorem subst_var (d : Derivation n) : d.subst var = d := by
  induction d <;> simp_all

theorem isOpen_factor (b : Derivation (.phrase .factor)) : b.isOpen = false := by
  cases b <;> rfl

@[simp] theorem isOpen_subst (d : Derivation n) : (d.subst θ).isOpen = d.isOpen := by
  induction d with
  | var x => exact isOpen_factor (θ x)
  | conditional _ ih | ifElse _ _ _ _ _ ih => exact ih
  | _ => rfl

theorem Nearest.subst (hθ : ∀ y, (θ y).Nearest) {d : Derivation n} (hd : d.Nearest) :
    (d.subst θ).Nearest := by
  induction d with
  | var x => exact hθ x
  | _ => simp_all

end Derivation

/-! ## Words -/

/-- The marks that make the name before them that of a function, a target or
    the source of a flow. -/
def Mark.claimsName : Mark → Bool
  | lparen | equal | arrow => true
  | _ => false

/-- A name before the kinds is a variable. -/
@[simp] def EndsName : List Kind → Bool
  | .mark m :: _ => !m.claimsName
  | _ => true

/-- The word with others in the places of its variables. -/
def expand (r : String → List Kind) : List Kind → List Kind
  | [] => []
  | .ident y :: k => (if EndsName k then r y else [.ident y]) ++ expand r k
  | c :: k => c :: expand r k

section

variable {r : String → List Kind} {k : List Kind}

@[simp] theorem expand_nil : expand r [] = [] :=
  rfl

@[simp] theorem expand_mark (m : Mark) : expand r (.mark m :: k) = .mark m :: expand r k :=
  rfl

@[simp] theorem expand_op (o : Operator) : expand r (.op o :: k) = .op o :: expand r k :=
  rfl

theorem expand_var {y : String} (h : EndsName k) :
    expand r (.ident y :: k) = r y ++ expand r k := by
  rw [expand, if_pos h]

end

/-- What may follow the word of a nonterminal.  An argument list is closed by
    its own parenthesis. -/
def Nonterminal.Precedes : Nonterminal → List Kind → Prop
  | argsEnd, _ => True
  | _, k => EndsName k

@[simp] theorem Nonterminal.precedes_phrase {p : Phrase} {k : List Kind} :
    (phrase p).Precedes k ↔ EndsName k :=
  Iff.rfl

@[simp] theorem Nonterminal.precedes_args {k : List Kind} : args.Precedes k ↔ EndsName k :=
  Iff.rfl

namespace Derivation

variable {n : Nonterminal} {θ : String → Derivation (.phrase .factor)}

theorem endsName_operators {l : Chain} (d : Derivation (.operators l)) {k : List Kind}
    (h : EndsName k) : EndsName (d.yield ++ k) := by
  cases d with
  | noOperator => exact h
  | operator => rfl

theorem expand_yield (d : Derivation n) {k : List Kind} (hk : n.Precedes k) :
    expand (fun y => (θ y).yield) (d.yield ++ k) =
      (d.subst θ).yield ++ expand (fun y => (θ y).yield) k := by
  induction d generalizing k with
  | assignFlow _ _ ih | assign _ _ ih => simp [expand, Mark.claimsName, ih hk]
  | bare _ ih | conditional _ ih | or _ ih | term _ ih | base _ ih | lastArg _ ih => exact ih hk
  | flow _ _ _ _ ih₁ ih₂ | stage _ _ _ ih₁ ih₂ =>
    simp [expand, Mark.claimsName, ih₁ trivial, ih₂ hk]
  | noStage | noOperator | noArgs => simp
  | string | int | float => simp [expand]
  | var x => exact expand_var hk
  | call _ _ ih => simp [expand, Mark.claimsName, ih trivial]
  | chain _ _ rest ih₁ ih₂ | operator _ _ _ _ rest ih₁ ih₂ =>
    simp [ih₁ (rest.endsName_operators hk), ih₂ hk]
  | raised _ _ ih₁ ih₂ | arg _ _ ih₁ ih₂ | ifThen _ _ ih₁ ih₂ =>
    simp [ih₁, ih₂ hk, Mark.claimsName]
  | group _ ih | someArgs _ ih => simp [ih, Mark.claimsName]
  | ifElse _ _ _ ih₁ ih₂ ih₃ => simp [ih₁, ih₂, ih₃ hk, Mark.claimsName]
  | ternary _ _ _ ih₁ ih₂ ih₃ => simp [ih₁, ih₂, ih₃, Mark.claimsName]

/-- **The word of a derivation determines its word after a substitution.** -/
theorem yield_subst (d : Derivation n) :
    (d.subst θ).yield = expand (fun y => (θ y).yield) d.yield := by
  have hnil : n.Precedes [] := by
    cases n <;> first | exact trivial | exact rfl
  simpa using (d.expand_yield hnil).symm

end Derivation

/-! ## Meanings -/

/-- The names in a word have a property. -/
def Named (P : String → Prop) (w : List Kind) : Prop :=
  ∀ y, .ident y ∈ w → P y

section

variable {P : String → Prop} {u w : List Kind}

@[simp] theorem named_ident {y : String} : Named P (.ident y :: w) ↔ P y ∧ Named P w := by
  simp [Named, or_imp, forall_and]

@[simp] theorem named_mark {m : Mark} : Named P (.mark m :: w) ↔ Named P w := by
  simp [Named]

@[simp] theorem named_op {o : Operator} : Named P (.op o :: w) ↔ Named P w := by
  simp [Named]

@[simp] theorem named_append : Named P (u ++ w) ↔ Named P u ∧ Named P w := by
  simp [Named, or_imp, forall_and]

end

namespace Nonterminal

/-- What a derivation stands for uses variables and functions with the given
    properties.  Operators and stages add no others. -/
def Uses (V F : String → Prop) : (n : Nonterminal) → n.Meaning → Prop
  | line, l => l.body.Uses V F
  | flow, e | phrase _, e => e.Uses V F
  | args, es | argsEnd, es => Expr.AllUse V F es
  | stages, f | operators _, f => ∀ e : Expr, e.Uses V F → (f e).Uses V F

/-- What a derivation stands for after a substitution. -/
def Substituted (θ : String → Expr) : (n : Nonterminal) → n.Meaning → n.Meaning → Prop
  | line, l, l' => l' = l.subst θ
  | flow, e, e' | phrase _, e, e' => e' = e.subst θ
  | args, es, es' | argsEnd, es, es' => es' = Expr.substAll θ es
  | stages, f, f' | operators _, f, f' => ∀ e : Expr, f' (e.subst θ) = (f e).subst θ

end Nonterminal

namespace Derivation

variable {n : Nonterminal} {θ : String → Derivation (.phrase .factor)}

/-- What factors in the places of variables stand for. -/
def meanings (θ : String → Derivation (.phrase .factor)) (y : String) : Expr :=
  (θ y).meaning

/-- The variables are names in the derived word, and the functions are names in
    it after every substitution. -/
theorem uses_meaning {V F : String → Prop} (d : Derivation n) (hV : Named V d.yield)
    (hF : Named F (d.subst θ).yield) : n.Uses V F d.meaning := by
  induction d with
  | bare _ ih | conditional _ ih | or _ ih | term _ ih | base _ ih => exact ih hV hF
  | int | float | string | noArgs => trivial
  | noStage | noOperator => exact fun _ he => he
  | var x => exact (named_ident.1 hV).1
  | assignFlow _ _ ih | assign _ _ ih =>
    simp only [yield, subst, named_ident, named_mark] at hV hF
    exact ih hV.2 hF.2
  | flow _ _ _ _ ih₁ ih₂ =>
    simp only [yield, subst, named_ident, named_mark, named_append] at hV hF
    exact ih₂ hV.2.2.2 hF.2.2.2 _ ⟨hF.2.1, hV.1, ih₁ hV.2.2.1 hF.2.2.1⟩
  | stage _ _ _ ih₁ ih₂ =>
    simp only [yield, subst, named_ident, named_mark, named_append] at hV hF
    exact fun _ he => ih₂ hV.2.2 hF.2.2 _ ⟨hF.1, he, ih₁ hV.2.1 hF.2.1⟩
  | chain _ _ _ ih₁ ih₂ =>
    simp only [yield, subst, named_append] at hV hF
    exact ih₂ hV.2 hF.2 _ (ih₁ hV.1 hF.1)
  | operator _ _ _ _ _ ih₁ ih₂ =>
    simp only [yield, subst, named_op, named_append] at hV hF
    exact fun _ he => ih₂ hV.2 hF.2 _ ⟨he, ih₁ hV.1 hF.1⟩
  | lastArg _ ih => exact ⟨ih hV hF, trivial⟩
  | ifThen _ _ ih₁ ih₂ | raised _ _ ih₁ ih₂ | arg _ _ ih₁ ih₂ =>
    simp only [yield, subst, named_op, named_mark, named_append] at hV hF
    exact ⟨ih₁ hV.1 hF.1, ih₂ hV.2 hF.2⟩
  | call _ _ ih =>
    simp only [yield, subst, named_ident, named_mark] at hV hF
    exact ⟨hF.1, ih hV.2 hF.2⟩
  | group _ ih | someArgs _ ih =>
    simp only [yield, subst, named_mark, named_append] at hV hF
    exact ih hV.1 hF.1
  | ifElse _ _ _ ih₁ ih₂ ih₃ =>
    simp only [yield, subst, named_mark, named_append] at hV hF
    exact ⟨ih₁ hV.1 hF.1, ih₂ hV.2.1 hF.2.1, ih₃ hV.2.2 hF.2.2⟩
  | ternary _ _ _ ih₁ ih₂ ih₃ =>
    simp only [yield, subst, named_mark, named_append] at hV hF
    exact ⟨ih₁ hV.1 hF.1, ih₂ hV.2.1 hF.2.1, ih₃ hV.2.2.1 hF.2.2.1⟩

/-- Substitution commutes with what derivations stand for, if it leaves alone
    the names that are left in the word.  Among these are the sources of flows,
    which are no factors but stand for variables. -/
theorem meaning_subst (d : Derivation n)
    (h : Named (fun y => θ y = .var y) (d.subst θ).yield) :
    n.Substituted (meanings θ) d.meaning (d.subst θ).meaning := by
  induction d with
  | bare _ ih => exact congrArg Line.expr (ih h)
  | conditional _ ih | or _ ih | term _ ih | base _ ih => exact ih h
  | var | int | float | string | noArgs => rfl
  | noStage | noOperator => exact fun _ => rfl
  | assignFlow x _ ih | assign x _ ih =>
    simp only [yield, subst, named_ident, named_mark] at h
    exact congrArg (Line.assign x) (ih h.2)
  | flow s f as rest ih₁ ih₂ =>
    simp only [yield, subst, named_ident, named_mark, named_append] at h
    have hcall : Expr.subst (meanings θ) (.call f (.var s :: as.meaning)) =
        .call f (.var s :: (as.subst θ).meaning) :=
      congrArg (Expr.call f)
        ((List.cons.injEq ..).mpr ⟨congrArg meaning h.1, (ih₁ h.2.2.1).symm⟩)
    have hrest := ih₂ h.2.2.2 (.call f (.var s :: as.meaning))
    rwa [hcall] at hrest
  | stage f as rest ih₁ ih₂ =>
    simp only [yield, subst, named_ident, named_mark, named_append] at h
    intro e
    have hcall : Expr.subst (meanings θ) (.call f (e :: as.meaning)) =
        .call f (e.subst (meanings θ) :: (as.subst θ).meaning) :=
      congrArg (Expr.call f) (congrArg (List.cons _) (ih₁ h.2.1).symm)
    have hrest := ih₂ h.2.2 (.call f (e :: as.meaning))
    rwa [hcall] at hrest
  | chain _ e rest ih₁ ih₂ =>
    simp only [yield, subst, named_append] at h
    have he : (e.subst θ).meaning = e.meaning.subst (meanings θ) := ih₁ h.1
    show (rest.subst θ).meaning (e.subst θ).meaning = (rest.meaning e.meaning).subst _
    rw [he]
    exact ih₂ h.2 e.meaning
  | operator _ o _ e rest ih₁ ih₂ =>
    simp only [yield, subst, named_op, named_append] at h
    intro l
    have hbinary : Expr.subst (meanings θ) (.binary o l e.meaning) =
        .binary o (l.subst (meanings θ)) (e.subst θ).meaning :=
      congrArg (Expr.binary o _) (ih₁ h.1).symm
    have hrest := ih₂ h.2 (.binary o l e.meaning)
    rwa [hbinary] at hrest
  | lastArg _ ih => exact congrArg (fun e => [e]) (ih h)
  | call f _ ih =>
    simp only [yield, subst, named_ident, named_mark] at h
    exact congrArg (Expr.call f) (ih h.2)
  | group _ ih =>
    simp only [yield, subst, named_mark, named_append] at h
    exact congrArg Expr.group (ih h.1)
  | someArgs _ ih =>
    simp only [yield, subst, named_mark, named_append] at h
    exact ih h.1
  | ifThen _ _ ih₁ ih₂ =>
    simp only [yield, subst, named_mark, named_append] at h
    exact (Expr.ifThen.injEq ..).mpr ⟨ih₁ h.1, ih₂ h.2⟩
  | raised _ _ ih₁ ih₂ =>
    simp only [yield, subst, named_op, named_append] at h
    exact (Expr.binary.injEq ..).mpr ⟨rfl, ih₁ h.1, ih₂ h.2⟩
  | arg _ _ ih₁ ih₂ =>
    simp only [yield, subst, named_mark, named_append] at h
    exact (List.cons.injEq ..).mpr ⟨ih₁ h.1, ih₂ h.2⟩
  | ifElse _ _ _ ih₁ ih₂ ih₃ =>
    simp only [yield, subst, named_mark, named_append] at h
    exact (Expr.ifElse.injEq ..).mpr ⟨ih₁ h.1, ih₂ h.2.1, ih₃ h.2.2⟩
  | ternary _ _ _ ih₁ ih₂ ih₃ =>
    simp only [yield, subst, named_mark, named_append] at h
    exact (Expr.ternary.injEq ..).mpr ⟨ih₁ h.1, ih₂ h.2.1, ih₃ h.2.2.1⟩

/-! ## Single variables -/

/-- A factor in the place of a single variable. -/
def only (x : String) (g : Derivation (.phrase .factor)) (y : String) :
    Derivation (.phrase .factor) :=
  if y = x then g else var y

section

variable {x : String} {g : Derivation (.phrase .factor)}

@[simp] theorem only_self : only x g x = g :=
  if_pos rfl

theorem only_of_ne {y : String} (h : y ≠ x) : only x g y = var y :=
  if_neg h

theorem meanings_only_self : meanings (only x g) x = g.meaning := by
  rw [meanings, only_self]

theorem meanings_only_of_ne {y : String} (h : y ≠ x) : meanings (only x g) y = .var y := by
  rw [meanings, only_of_ne h]
  rfl

/-- A name that is left nowhere in a word was replaced everywhere. -/
theorem named_only {w : List Kind} (h : .ident x ∉ w) : Named (fun y => only x g y = var y) w := by
  intro y hy
  refine only_of_ne ?_
  rintro rfl
  exact h hy

theorem nearest_only (h : g.Nearest) (y : String) : (only x g y).Nearest := by
  unfold only
  split
  next => exact h
  next => trivial

/-- A variable that is left nowhere can be named otherwise first. -/
theorem subst_only_var {hole : String} (d : Derivation n)
    (h : .ident x ∉ (d.subst (only hole g)).yield) :
    (d.subst (only hole (var x))).subst (only x g) = d.subst (only hole g) := by
  induction d with
  | var y =>
    by_cases hy : y = hole
    · subst hy
      simp
    · simp only [subst, only_of_ne hy] at h ⊢
      exact (named_only h) y List.mem_cons_self
  | _ => simp_all

end

end Derivation

end Flowline
