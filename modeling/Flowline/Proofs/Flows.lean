/-
  A flow is nested calls.

  * `Stage`: the function of a stage of a flow and its arguments;
  * `flowWord`, `nestedWord`: the lines `x = s -> f(a) -> g(b)` and
    `x = g(f(s, a), b)`, with any number of stages;
  * `Derivation.ofArgs`, `Derivation.ofStages`, `Derivation.nested`: the
    derivations of both from those of the arguments;
  * `Derivation.meaning_nested`: they stand for the same expression;
  * `parseTokens_flow_eq_nested`: both lines are laid out, and in the same way.
-/
import Flowline.Proofs.Parsing
import Mathlib

namespace Flowline

/-! ## Words -/

/-- A stage of a flow: the name of a function and the arguments after the one
    that flows in. -/
structure Stage (α : Type) where
  name : String
  args : List α

/-- The stage with other arguments. -/
def Stage.map {α β : Type} (f : α → β) (st : Stage α) : Stage β :=
  { name := st.name, args := st.args.map f }

/-- Words divided by commas. -/
def commas (ws : List (List Kind)) : List Kind :=
  List.intercalate [.mark .comma] ws

/-- A call of a function with arguments. -/
def callWord (f : String) (args : List (List Kind)) : List Kind :=
  .ident f :: .mark .lparen :: (commas args ++ [.mark .rparen])

/-- A stage after an arrow. -/
def Stage.word (st : Stage (List Kind)) : List Kind :=
  .mark .arrow :: callWord st.name st.args

/-- `x = s -> f₁(..) -> .. -> fₙ(..)` -/
def flowWord (x s : String) (stages : List (Stage (List Kind))) : List Kind :=
  .ident x :: .mark .equal :: .ident s :: stages.flatMap Stage.word

/-- `x = fₙ(.. f₁(s, ..) .., ..)` -/
def nestedWord (x s : String) (stages : List (Stage (List Kind))) : List Kind :=
  .ident x :: .mark .equal ::
    stages.foldl (fun w st => callWord st.name (w :: st.args)) [.ident s]

/-! ## Derivations -/

/-- An expression that can stand as an argument. -/
abbrev Argument := { d : Derivation (.phrase .expr) // d.Nearest }

/-- The word of an argument. -/
def Argument.word (a : Argument) : List Kind :=
  a.1.yield

/-- A factor that can stand as an argument. -/
abbrev FactorArgument := { d : Derivation (.phrase .factor) // d.Nearest }

/-- A factor is an expression. -/
def Argument.ofFactor (b : FactorArgument) : Argument :=
  ⟨.or (.chain .or (.chain .and (.chain .compare (.chain .additive (.term (.chain .term
    (.base b.1) (.noOperator _))) (.noOperator _)) (.noOperator _)) (.noOperator _))
    (.noOperator _)), by simpa using b.2⟩

@[simp] theorem Argument.word_ofFactor (b : FactorArgument) :
    (Argument.ofFactor b).word = b.1.yield := by
  simp [Argument.ofFactor, Argument.word]

namespace Derivation

/-- Arguments divided by commas. -/
def ofArgs (a : Argument) : List Argument → Derivation .args
  | [] => .lastArg a.1
  | b :: bs => .arg a.1 (ofArgs b bs)

/-- Arguments up to the closing parenthesis. -/
def ofArgsEnd : List Argument → Derivation .argsEnd
  | [] => .noArgs
  | a :: as => .someArgs (ofArgs a as)

theorem nearest_ofArgs (a : Argument) (as : List Argument) : (ofArgs a as).Nearest := by
  induction as generalizing a with
  | nil => exact a.2
  | cons b bs ih => exact ⟨a.2, ih b⟩

theorem yield_ofArgs (a : Argument) (as : List Argument) :
    (ofArgs a as).yield = commas ((a :: as).map Argument.word) := by
  induction as generalizing a with
  | nil => simp [ofArgs, commas, Argument.word]
  | cons b bs ih =>
    rw [ofArgs, yield, ih b]
    simp [commas, Argument.word]

theorem meaning_ofArgs (a : Argument) (as : List Argument) :
    (ofArgs a as).meaning = (a :: as).map (·.1.meaning) := by
  induction as generalizing a with
  | nil => rfl
  | cons b bs ih =>
    rw [ofArgs, meaning, ih b]
    rfl

theorem nearest_ofArgsEnd : ∀ as : List Argument, (ofArgsEnd as).Nearest
  | [] => trivial
  | a :: as => nearest_ofArgs a as

theorem yield_ofArgsEnd : ∀ as : List Argument,
    (ofArgsEnd as).yield = commas (as.map Argument.word) ++ [.mark .rparen]
  | [] => rfl
  | a :: as => by rw [ofArgsEnd, yield, yield_ofArgs]

theorem meaning_ofArgsEnd : ∀ as : List Argument,
    (ofArgsEnd as).meaning = as.map (·.1.meaning)
  | [] => rfl
  | a :: as => meaning_ofArgs a as

/-- The stages of a flow, one after another. -/
def ofStages : List (Stage Argument) → Derivation .stages
  | [] => .noStage
  | st :: sts => .stage st.name (ofArgsEnd st.args) (ofStages sts)

theorem nearest_ofStages : ∀ sts : List (Stage Argument), (ofStages sts).Nearest
  | [] => trivial
  | st :: sts => ⟨nearest_ofArgsEnd st.args, nearest_ofStages sts⟩

theorem yield_ofStages (sts : List (Stage Argument)) :
    (ofStages sts).yield = (sts.map (Stage.map Argument.word)).flatMap Stage.word := by
  induction sts with
  | nil => rfl
  | cons st sts ih =>
    rw [ofStages, yield, yield_ofArgsEnd, ih]
    simp [Stage.word, callWord, Stage.map]

/-- A call with a factor before the arguments of a stage. -/
def ofStage (b : FactorArgument) (st : Stage Argument) : FactorArgument :=
  ⟨.call st.name (ofArgsEnd (.ofFactor b :: st.args)), nearest_ofArgsEnd _⟩

theorem yield_ofStage (b : FactorArgument) (st : Stage Argument) :
    (ofStage b st).1.yield = callWord st.name (b.1.yield :: st.args.map Argument.word) := by
  rw [ofStage, yield, yield_ofArgsEnd, List.map_cons, Argument.word_ofFactor]
  rfl

/-- A factor that goes through stages as the first argument of nested calls. -/
def nested (b : FactorArgument) (sts : List (Stage Argument)) : FactorArgument :=
  sts.foldl ofStage b

theorem yield_nested (b : FactorArgument) (sts : List (Stage Argument)) :
    (nested b sts).1.yield = (sts.map (Stage.map Argument.word)).foldl
      (fun w st => callWord st.name (w :: st.args)) b.1.yield := by
  induction sts generalizing b with
  | nil => rfl
  | cons st sts ih =>
    show (nested (ofStage b st) sts).1.yield = _
    rw [ih, yield_ofStage]
    rfl

/-- Nested calls stand for what the stages make of their factor. -/
theorem meaning_nested (b : FactorArgument) (sts : List (Stage Argument)) :
    (nested b sts).1.meaning = (ofStages sts).meaning b.1.meaning := by
  induction sts generalizing b with
  | nil => rfl
  | cons st sts ih =>
    have hcall : (ofStage b st).1.meaning =
        Expr.call st.name (b.1.meaning :: (ofArgsEnd st.args).meaning) := by
      rw [ofStage, meaning, meaning_ofArgsEnd, meaning_ofArgsEnd]
      rfl
    show (nested (ofStage b st) sts).1.meaning = _
    rw [ih, hcall]
    rfl

end Derivation

/-! ## Lines -/

/-- Derivable words are the words of arguments. -/
theorem exists_arguments {ws : List (List Kind)}
    (h : ∀ w ∈ ws, Derivable (.phrase .expr) w) :
    ∃ as : List Argument, as.map Argument.word = ws := by
  have hrange : ws ∈ Set.range (List.map Argument.word) := by
    rw [Set.range_list_map]
    intro w hw
    obtain ⟨d, rfl⟩ := h w hw
    obtain ⟨d', hd', hyield⟩ := d.exists_nearest
    exact ⟨⟨d', hd'⟩, hyield⟩
  exact hrange

theorem exists_stages {sts : List (Stage (List Kind))}
    (h : ∀ st ∈ sts, ∀ w ∈ st.args, Derivable (.phrase .expr) w) :
    ∃ as : List (Stage Argument), as.map (Stage.map Argument.word) = sts := by
  have hrange : sts ∈ Set.range (List.map (Stage.map Argument.word)) := by
    rw [Set.range_list_map]
    intro st hst
    obtain ⟨as, has⟩ := exists_arguments (h st hst)
    exact ⟨⟨st.name, as⟩, by rw [Stage.map, has]⟩
  exact hrange

/-- **A flow is nested calls.**  The line `x = s -> f₁(..) -> .. -> fₙ(..)` and
    the line `x = fₙ(.. f₁(s, ..) .., ..)` are both laid out, and their stores
    are the same. -/
theorem parseTokens_flow_eq_nested (x s : String) (stages : List (Stage (List Kind)))
    (hne : stages ≠ [])
    (hargs : ∀ st ∈ stages, ∀ w ∈ st.args, Derivable (.phrase .expr) w) {ts ts' : List Token}
    (hts : sentence ts = flowWord x s stages) (hts' : sentence ts' = nestedWord x s stages) :
    ∃ a, parseTokens ts = .ok a ∧ parseTokens ts' = .ok a := by
  obtain ⟨sts, rfl⟩ := exists_stages hargs
  let source : FactorArgument := ⟨.var s, trivial⟩
  have hnested : parseTokens ts' =
      .ok (Line.assign x (Derivation.nested source sts).1.meaning).store := by
    refine parseTokens_eq_ok_iff.2
      ⟨.assign x (Argument.ofFactor (Derivation.nested source sts)).1, Subtype.prop _, ?_, rfl⟩
    rw [hts', nestedWord, Derivation.yield]
    show _ :: _ :: (Argument.ofFactor _).word = _
    rw [Argument.word_ofFactor, Derivation.yield_nested]
    rfl
  refine ⟨_, ?_, hnested⟩
  cases sts with
  | nil => exact absurd rfl hne
  | cons st sts =>
    refine parseTokens_eq_ok_iff.2
      ⟨.assignFlow x (.flow s st.name (Derivation.ofArgsEnd st.args) (Derivation.ofStages sts)),
        ⟨Derivation.nearest_ofArgsEnd _, Derivation.nearest_ofStages _⟩, ?_, ?_⟩
    · rw [hts, flowWord, List.map_cons, List.flatMap_cons, ← Derivation.yield_ofStages]
      simp [Stage.word, Stage.map, callWord, Derivation.yield_ofArgsEnd]
    · rw [Derivation.meaning_nested]
      rfl

/-- An argument may be a conditional that lacks an `else`, and there may be no
    argument but the one that flows in. -/
theorem parseTokens_flow_eq_nested_open :
    let dangling : List Kind :=
      [.mark .ifWord, .mark .lparen, .ident "a", .mark .rparen, .mark .colon, .int 2]
    let stages : List (Stage (List Kind)) := [⟨"f", [dangling, [.int 3]]⟩, ⟨"g", []⟩]
    let ts := (lex "x = s -> f(if (a): 2, 3) -> g()").tokens
    let ts' := (lex "x = g(f(s, if (a): 2, 3))").tokens
    (sentence ts = flowWord "x" "s" stages ∧ sentence ts' = nestedWord "x" "s" stages) ∧
      ∃ t, parseTokens ts = .ok t ∧ parseTokens ts' = .ok t := by
  intro dangling stages ts ts'
  have hts : sentence ts = flowWord "x" "s" stages := by
    simp only [ts, stages, dangling]
    cbv
  have hts' : sentence ts' = nestedWord "x" "s" stages := by
    simp only [ts', stages, dangling]
    cbv
  refine ⟨⟨hts, hts'⟩, parseTokens_flow_eq_nested "x" "s" stages (by simp [stages]) ?_ hts hts'⟩
  let a := Argument.ofFactor ⟨.var "a", trivial⟩
  let two := Argument.ofFactor ⟨.int 2, trivial⟩
  let three := Argument.ofFactor ⟨.int 3, trivial⟩
  simp only [stages, List.forall_mem_cons]
  exact ⟨⟨⟨.conditional (.ifThen a.1 two.1), rfl⟩, ⟨three.1, rfl⟩, by simp⟩, by simp, by simp⟩

end Flowline
