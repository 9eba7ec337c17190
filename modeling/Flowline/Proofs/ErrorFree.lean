/-
  Where failed calls end their lines, no error value is left behind.

  * `Value.HoldsError`, `Value.ErrorFree`: a value is an error value or holds
    one at some depth, or it does not;
  * `Callable.KeepsErrorFree`: a function makes no error value of arguments
    without one;
  * `Arith.gives_apply`, `Builtin.gives_apply`: nor do the operators and the
    built-in functions;
  * `EvalM.Yields`: what an evaluation gives in a table without error values;
  * `Expr.yields_eval`: an expression gives none;
  * `Session.Action`, `Session.act`: what can happen to a session;
  * `Session.errorFree_after`: whatever happens, the session holds none.
-/
import Flowline.Proofs.Laziness

namespace Flowline

variable {σ : Type}

/-! ## Values -/

/-- A value is an error value, or a list that holds one at some depth. -/
inductive Value.HoldsError : Value → Prop
  | error (message : String) : HoldsError (.error message)
  | item {v : Value} {items : List Value} : v ∈ items → v.HoldsError → HoldsError (.list items)

/-- A value is no error value and holds none at any depth. -/
def Value.ErrorFree (v : Value) : Prop :=
  ¬ v.HoldsError

namespace Value

@[simp] theorem errorFree_int (n : Int64) : (int n).ErrorFree := by
  rintro ⟨⟩

@[simp] theorem errorFree_float (x : Float) : (float x).ErrorFree := by
  rintro ⟨⟩

@[simp] theorem errorFree_bool (b : Bool) : (bool b).ErrorFree := by
  rintro ⟨⟩

@[simp] theorem errorFree_str (s : String) : (str s).ErrorFree := by
  rintro ⟨⟩

@[simp] theorem errorFree_none : none.ErrorFree := by
  rintro ⟨⟩

@[simp] theorem errorFree_list {items : List Value} :
    (list items).ErrorFree ↔ ∀ v ∈ items, v.ErrorFree := by
  constructor
  · intro h v hv herror
    exact h (.item hv herror)
  · rintro h (_ | ⟨hv, herror⟩)
    exact h _ hv herror

end Value

/-! ## Operators -/

/-- Whatever a computation gives has a property. -/
def Gives {ε α : Type} (x : Except ε α) (P : α → Prop) : Prop :=
  ∀ a, x = .ok a → P a

section

variable {ε α β : Type} {P : α → Prop} {Q : β → Prop}

@[simp] theorem gives_ok {a : α} : Gives (.ok a : Except ε α) P ↔ P a := by
  simp [Gives]

@[simp] theorem gives_pure {a : α} : Gives (pure a : Except ε α) P ↔ P a :=
  gives_ok

@[simp] theorem gives_error (e : ε) : Gives (.error e) P := by
  simp [Gives]

theorem Gives.bind {x : Except ε α} {k : α → Except ε β} (hx : Gives x P)
    (hk : ∀ a, P a → Gives (k a) Q) : Gives (x >>= k) Q := by
  cases x with
  | error e => exact gives_error e
  | ok a => exact hk a (hx a rfl)

theorem Gives.mapError {ε' : Type} {x : Except ε α} (hx : Gives x P) (f : ε → ε') :
    Gives (x.mapError f) P := by
  cases x with
  | error e => exact gives_error (f e)
  | ok a => exact gives_ok.2 (gives_ok.1 hx)

/-- Nothing need be known of what comes first. -/
theorem Gives.of_rest {x : Except ε α} {k : α → Except ε β} (hk : ∀ a, Gives (k a) Q) :
    Gives (x >>= k) Q := by
  cases x with
  | error e => exact gives_error e
  | ok a => exact hk a

end

namespace Value

variable {a b : Value}

theorem gives_ofExact (o : Arith) (r : Option Int64) : Gives (ofExact o r) ErrorFree := by
  cases r <;> simp [ofExact]

theorem gives_onFloats (o : Arith) (f : Float → Float → Float) (a b : Value) :
    Gives (onFloats o f a b) ErrorFree := by
  unfold onFloats
  split <;> simp

theorem gives_powFloat (a b : Value) : Gives (powFloat a b) ErrorFree := by
  unfold powFloat
  split
  next =>
    split
    next => simp
    next => split <;> simp
  next => simp

theorem ErrorFree.unbool (ha : a.ErrorFree) : a.unbool.ErrorFree := by
  cases a with
  | bool flag => simp [Value.unbool]
  | _ => exact ha

theorem ErrorFree.promote (ha : a.ErrorFree) (hb : b.ErrorFree) :
    (promote a b).1.ErrorFree ∧ (promote a b).2.ErrorFree := by
  unfold Value.promote
  split
  next => exact ⟨ha.unbool, hb.unbool⟩
  next => exact ⟨ha, hb⟩

/-- A sum holds no more than its operands. -/
theorem gives_add (ha : a.ErrorFree) (hb : b.ErrorFree) : Gives (add a b) ErrorFree := by
  have hab := ha.promote hb
  unfold add
  split
  next => exact gives_ofExact _ _
  next => simp
  next x y h =>
    rw [h, errorFree_list, errorFree_list] at hab
    rw [gives_ok, errorFree_list]
    exact List.forall_mem_append.2 hab
  next => exact gives_onFloats _ _ _ _

end Value

/-- An arithmetic operator makes no error value of operands without one. -/
theorem Arith.gives_apply {a b : Value} (ha : a.ErrorFree) (hb : b.ErrorFree) (o : Arith) :
    Gives (o.apply a b) Value.ErrorFree := by
  cases o with
  | plus => exact Value.gives_add ha hb
  | minus =>
    rw [Arith.apply, Value.sub]
    split
    next => exact Value.gives_ofExact _ _
    next => exact Value.gives_onFloats _ _ _ _
  | times =>
    rw [Arith.apply, Value.mul]
    split
    next => exact Value.gives_ofExact _ _
    next => exact Value.gives_onFloats _ _ _ _
  | divide =>
    rw [Arith.apply, Value.div]
    split
    next => split <;> simp
    next => simp
  | power =>
    rw [Arith.apply, Value.pow]
    split
    next =>
      split
      next => exact Value.gives_ofExact _ _
      next => exact Value.gives_powFloat _ _
    next => exact Value.gives_powFloat _ _

/-! ## Built-in functions -/

namespace Builtin

theorem gives_toInt (f : Builtin) (x : Float) : Gives (toInt f x) Value.ErrorFree := by
  unfold toInt
  split <;> simp

theorem gives_applyAbs (v : Value) : Gives (applyAbs v) Value.ErrorFree := by
  unfold applyAbs
  split
  next => split <;> simp
  next => simp
  next => simp

/-- The best item is one of the items. -/
theorem gives_bestOf (f : Builtin) (want : Ordering) {items : List Value}
    (hitems : ∀ v ∈ items, v.ErrorFree) {best : Value} (hbest : best.ErrorFree) :
    Gives (bestOf f want best items) Value.ErrorFree := by
  induction items generalizing best with
  | nil => simpa [bestOf] using hbest
  | cons v vs ih =>
    obtain ⟨hv, hvs⟩ := List.forall_mem_cons.1 hitems
    rw [bestOf]
    split
    next => simp
    next =>
      refine ih hvs ?_
      split
      next => exact hv
      next => exact hbest

theorem gives_extremum (f : Builtin) (want : Ordering) {args : List Value}
    (hargs : ∀ v ∈ args, v.ErrorFree) : Gives (extremum f want args) Value.ErrorFree := by
  have hitems : ∀ v ∈ candidates args, v.ErrorFree := by
    unfold candidates
    split
    next items => exact Value.errorFree_list.1 (hargs (.list items) List.mem_cons_self)
    next => exact hargs
  unfold extremum
  split
  next => simp
  next v vs h =>
    rw [h] at hitems
    obtain ⟨hv, hvs⟩ := List.forall_mem_cons.1 hitems
    exact gives_bestOf f want hvs hv

theorem gives_applyRound (v : Value) (digits : Option Value) :
    Gives (applyRound v digits) Value.ErrorFree := by
  unfold applyRound
  split
  next => simp
  next =>
    refine .of_rest fun x => ?_
    split
    next => exact gives_toInt _ _
    next => exact .of_rest fun _ => by simp

theorem gives_applyLen (v : Value) : Gives (applyLen v) Value.ErrorFree := by
  unfold applyLen
  split <;> simp

theorem gives_applyInt (v : Value) : Gives (applyInt v) Value.ErrorFree := by
  unfold applyInt
  split
  next => simp
  next => exact gives_toInt _ _
  next => simp
  next => split <;> simp
  next => simp

theorem gives_applyFloat (v : Value) : Gives (applyFloat v) Value.ErrorFree := by
  unfold applyFloat
  split
  next => split <;> simp
  next => simp
  next => exact .of_rest fun _ => by simp

/-- A list is filled with zeros or with a given value. -/
theorem errorFree_getD {fill : Option Value} (h : ∀ v, fill = some v → v.ErrorFree) :
    (fill.getD (.int 0)).ErrorFree := by
  cases fill with
  | none => simp
  | some v => exact h v rfl

theorem gives_applyVector (n : Value) {fill : Option Value}
    (h : ∀ v, fill = some v → v.ErrorFree) : Gives (applyVector n fill) Value.ErrorFree := by
  have hfill := errorFree_getD h
  refine .of_rest fun _ => .of_rest fun _ => ?_
  rw [gives_pure, Value.errorFree_list]
  intro v hv
  rwa [List.eq_of_mem_replicate hv]

theorem gives_applyMatrix (rows cols : Value) {fill : Option Value}
    (h : ∀ v, fill = some v → v.ErrorFree) :
    Gives (applyMatrix rows cols fill) Value.ErrorFree := by
  have hfill := errorFree_getD h
  refine .of_rest fun _ => .of_rest fun _ => .of_rest fun _ => ?_
  rw [gives_pure, Value.errorFree_list]
  intro row hrow
  rw [List.eq_of_mem_replicate hrow, Value.errorFree_list]
  intro v hv
  rwa [List.eq_of_mem_replicate hv]

theorem gives_applyReal (f : Builtin) (g : Float → Float) (v : Value) :
    Gives (applyReal f g v) Value.ErrorFree :=
  .of_rest fun _ => by simp

theorem gives_applyReal₂ (f : Builtin) (g : Float → Float → Float) (a b : Value) :
    Gives (applyReal₂ f g a b) Value.ErrorFree :=
  .of_rest fun _ => .of_rest fun _ => by simp

theorem gives_applyRounding (f : Builtin) (g : Float → Float) (v : Value) :
    Gives (applyRounding f g v) Value.ErrorFree := by
  unfold applyRounding
  split
  next => simp
  next => exact .of_rest fun _ => gives_toInt _ _

theorem gives_applySqrt (v : Value) : Gives (applySqrt v) Value.ErrorFree := by
  refine .of_rest fun x => ?_
  dsimp only
  split
  next => exact .of_rest fun _ => by simp
  next => simp

theorem gives_applyLog (v : Value) (base : Option Value) :
    Gives (applyLog v base) Value.ErrorFree := by
  refine .of_rest fun x => ?_
  dsimp only
  split
  next => exact gives_error _
  next =>
    cases base with
    | none => simp
    | some base =>
      refine .of_rest fun b => ?_
      split
      next => exact gives_error _
      next => simp

theorem gives_oneOrTwo (f : Builtin) {args : List Value} (h : ∀ v ∈ args, v.ErrorFree) :
    Gives (oneOrTwo f args) fun p => ∀ v, p.2 = some v → v.ErrorFree := by
  unfold oneOrTwo
  split
  next => simp
  next a b =>
    rw [gives_ok]
    rintro _ ⟨⟩
    exact h b (by simp)
  next => simp

theorem gives_twoOrThree (f : Builtin) {args : List Value} (h : ∀ v ∈ args, v.ErrorFree) :
    Gives (twoOrThree f args) fun p => ∀ v, p.2.2 = some v → v.ErrorFree := by
  unfold twoOrThree
  split
  next => simp
  next a b c =>
    rw [gives_ok]
    rintro _ ⟨⟩
    exact h c (by simp)
  next => simp

/-- **A built-in function makes no error value of arguments without one.** -/
theorem gives_apply {args : List Value} (h : ∀ v ∈ args, v.ErrorFree) (f : Builtin) :
    Gives (f.apply args) Value.ErrorFree := by
  cases f with
  | abs => exact .of_rest gives_applyAbs
  | float => exact .of_rest gives_applyFloat
  | genMatrix =>
    exact (gives_twoOrThree _ h).bind fun p hp => gives_applyMatrix p.1 p.2.1 hp
  | genVector => exact (gives_oneOrTwo _ h).bind fun p hp => gives_applyVector p.1 hp
  | int => exact .of_rest gives_applyInt
  | len => exact .of_rest gives_applyLen
  | max => exact gives_extremum _ _ h
  | min => exact gives_extremum _ _ h
  | print => exact gives_ok.2 Value.errorFree_none
  | round => exact .of_rest fun p => gives_applyRound p.1 p.2
  | str => exact .of_rest fun _ => by simp
  | ceil => exact .of_rest (gives_applyRounding _ _)
  | cos => exact .of_rest (gives_applyReal _ _)
  | exp => exact .of_rest (gives_applyReal _ _)
  | floor => exact .of_rest (gives_applyRounding _ _)
  | hypot => exact .of_rest fun p => gives_applyReal₂ _ _ p.1 p.2
  | log => exact .of_rest fun p => gives_applyLog p.1 p.2
  | pow => exact .of_rest fun p => gives_applyReal₂ _ _ p.1 p.2
  | sin => exact .of_rest (gives_applyReal _ _)
  | sqrt => exact .of_rest gives_applySqrt
  | tan => exact .of_rest (gives_applyReal _ _)

end Builtin

/-! ## Functions and tables -/

/-- The function makes no error value of arguments without one, whatever the
    state of its host. -/
def Callable.KeepsErrorFree (f : Callable σ) : Prop :=
  ∀ args host v, (∀ a ∈ args, a.ErrorFree) → (f.run args host).result = .ok v → v.ErrorFree

/-- So do all functions of the registry. -/
def Registry.KeepsErrorFree (r : Registry σ) : Prop :=
  ∀ name f, r.find? name = some f → f.KeepsErrorFree

theorem Builtin.keepsErrorFree_callable (f : Builtin) :
    (f.callable : Callable σ).KeepsErrorFree := by
  intro args host v hargs
  exact (Builtin.gives_apply hargs f).mapError CallFault.toError v

theorem Registry.keepsErrorFree_standard : (Registry.standard : Registry σ).KeepsErrorFree := by
  have key (fs : List Builtin) (name : String) (f : Callable σ)
      (h : Builtin.lookup fs name = some f) : f.KeepsErrorFree := by
    obtain ⟨b, -, rfl⟩ := Option.map_eq_some_iff.1 h
    exact b.keepsErrorFree_callable
  intro name f h
  rcases Option.or_eq_some_iff.1 h with h | ⟨-, h⟩
  · exact key _ name f h
  · exact key _ name f h

/-- A binding to a value without error values, or to a function that makes
    none. -/
def Binding.ErrorFree : Binding σ → Prop
  | value v => v.ErrorFree
  | callable f => f.KeepsErrorFree

/-- All bindings of a table are without error values. -/
def Symbols.ErrorFree (s : Symbols σ) : Prop :=
  ∀ name b, s.get? name = some b → b.ErrorFree

namespace Symbols

theorem errorFree_empty : (empty : Symbols σ).ErrorFree := by
  intro name b h
  cases h

theorem ErrorFree.insert {s : Symbols σ} (hs : s.ErrorFree) (name : String) {b : Binding σ}
    (hb : b.ErrorFree) : (s.insert name b).ErrorFree := by
  intro x c h
  rw [get?_insert] at h
  split at h
  next =>
    cases h
    exact hb
  next => exact hs x c h

theorem ErrorFree.erase {s : Symbols σ} (hs : s.ErrorFree) (name : String) :
    (s.erase name).ErrorFree := by
  intro x b h
  rw [get?_erase] at h
  split at h
  next => cases h
  next => exact hs x b h

theorem ErrorFree.assign {s : Symbols σ} (hs : s.ErrorFree) (name : String) {v : Value}
    (hv : v.ErrorFree) : (s.assign name v).ErrorFree :=
  hs.insert name hv

theorem errorFree_constants : (constants : Symbols σ).ErrorFree :=
  (errorFree_empty.assign "e" (Value.errorFree_float _)).assign "pi" (Value.errorFree_float _)

end Symbols

/-! ## Evaluations -/

/-- In a table without error values, what an evaluation gives has a property,
    and the table stays without error values, also if the evaluation fails. -/
def EvalM.Yields {α : Type} (P : α → Prop) (m : EvalM σ α) : Prop :=
  ∀ st, st.symbols.ErrorFree → Gives (m.run st).1 P ∧ (m.run st).2.symbols.ErrorFree

namespace EvalM

variable {α β : Type} {P : α → Prop} {Q : β → Prop}

theorem Yields.bind {m : EvalM σ α} {k : α → EvalM σ β} (hm : m.Yields P)
    (hk : ∀ a, P a → (k a).Yields Q) : (m >>= k).Yields Q := by
  intro st hst
  obtain ⟨hP, hst'⟩ := hm st hst
  rw [run_bind]
  cases hr : m.run st with
  | mk r st' =>
    rw [hr] at hP hst'
    cases r with
    | error e => exact ⟨gives_error e, hst'⟩
    | ok a => exact hk a (hP a rfl) st' hst'

/-- A step that changes no name may give anything. -/
theorem Yields.andThen {m : EvalM σ α} {k : α → EvalM σ β} (hm : m.Yields fun _ => True)
    (hk : ∀ a, (k a).Yields Q) : (m >>= k).Yields Q :=
  hm.bind fun a _ => hk a

theorem Yields.pure {a : α} (h : P a) : (pure a : EvalM σ α).Yields P :=
  fun _ hst => ⟨gives_ok.2 h, hst⟩

theorem yields_visit (id : Nat) (kind : NodeKind) :
    (visit id kind : EvalM σ Unit).Yields fun _ => True :=
  fun _ hst => ⟨fun _ _ => trivial, hst⟩

theorem Yields.ofOp {x : Except OpFault α} (h : Gives x P) : (ofOp x : EvalM σ α).Yields P := by
  intro st hst
  cases x with
  | ok a => exact ⟨gives_ok.2 (h a rfl), hst⟩
  | error f => exact ⟨gives_error _, hst⟩

/-- An operator may give any truth value. -/
theorem yields_truth (x : Except OpFault Bool) :
    (EvalM.ofOp x : EvalM σ Bool).Yields fun _ => True :=
  .ofOp fun _ _ => trivial

theorem yields_bool (b : Bool) : (Pure.pure (.bool b) : EvalM σ Value).Yields Value.ErrorFree :=
  .pure (Value.errorFree_bool b)

theorem yields_lookup (name : String) : (lookup name : EvalM σ Value).Yields Value.ErrorFree := by
  intro st hst
  rw [run_lookup]
  refine ⟨fun v hv => ?_, hst⟩
  unfold Symbols.valueOf at hv
  split at hv
  next h =>
    cases hv
    exact hst name _ h
  next => cases hv
  next => cases hv

end EvalM

/-- What a call of a function of the table or of the registry gives. -/
theorem gives_callResult {r : Registry σ} {s : Symbols σ} (hr : r.KeepsErrorFree)
    (hs : s.ErrorFree) (host : σ) (name : String) {args : List Value}
    (hargs : ∀ a ∈ args, a.ErrorFree) :
    Gives (callResult r s host name args) Value.ErrorFree := by
  have hfound (f : Callable σ) (h : resolve r s name = .ok f) : f.KeepsErrorFree := by
    unfold resolve at h
    split at h
    next hf =>
      cases h
      exact hs name _ hf
    next => cases h
    next =>
      split at h
      next hf =>
        cases h
        exact hr name f hf
      next => cases h
  unfold callResult
  split
  next f hf =>
    have hrun : Gives (f.run args host).result Value.ErrorFree :=
      fun v => hfound f hf args host v hargs
    exact hrun.mapError _
  next => exact gives_error _

section

variable {env : Env σ}

/-- Where failed calls end their lines, a call gives what the function
    gives. -/
theorem yields_callFunction (hr : env.registry.KeepsErrorFree)
    (hc : env.config.callFaults = .propagate) (site : Nat) (name : String) {args : List Value}
    (hargs : ∀ a ∈ args, a.ErrorFree) :
    (callFunction env site name args).Yields Value.ErrorFree := by
  intro st hst
  obtain ⟨host, events, -, hrun⟩ := run_callFunction env.registry site name args st
  have hresult := gives_callResult hr hst st.host name hargs
  rw [hrun env.config, hc]
  cases h : callResult env.registry st.symbols st.host name args with
  | error f => exact ⟨gives_error f, hst⟩
  | ok v => exact ⟨gives_ok.2 (hresult v h), hst⟩

namespace EvalM

variable {a b c t e : EvalM σ Value}

theorem Yields.logic (ha : a.Yields Value.ErrorFree) (hb : b.Yields Value.ErrorFree)
    (o : Connective) (setting : Conditionals) :
    (EvalM.logic o a b setting).Yields Value.ErrorFree := by
  cases setting with
  | eager =>
    exact ha.bind fun _ _ => hb.bind fun _ _ => (yields_truth _).andThen fun _ =>
      (yields_truth _).andThen fun _ => yields_bool _
  | lazy =>
    refine ha.bind fun _ _ => (yields_truth _).andThen fun left => ?_
    cases o.decides left with
    | true => exact yields_bool _
    | false => exact hb.bind fun _ _ => (yields_truth _).andThen fun _ => yields_bool _

theorem Yields.conditional (hc : c.Yields Value.ErrorFree) (ht : t.Yields Value.ErrorFree)
    (he : e.Yields Value.ErrorFree) (setting : Conditionals) :
    (EvalM.conditional c t e setting).Yields Value.ErrorFree := by
  cases setting with
  | eager =>
    refine hc.bind fun _ _ => ht.bind fun _ hy => he.bind fun _ hz =>
      (yields_truth _).andThen fun holds => ?_
    cases holds with
    | true => exact .pure hy
    | false => exact .pure hz
  | lazy =>
    refine hc.bind fun _ _ => (yields_truth _).andThen fun holds => ?_
    cases holds with
    | true => exact ht
    | false => exact he

theorem Yields.binary (ha : a.Yields Value.ErrorFree) (hb : b.Yields Value.ErrorFree)
    (o : Operator) : (EvalM.binary env a b o).Yields Value.ErrorFree := by
  cases o with
  | arith o => exact ha.bind fun _ hx => hb.bind fun _ hy => .ofOp (Arith.gives_apply hx hy o)
  | compare o =>
    exact ha.bind fun _ _ => hb.bind fun _ _ => (yields_truth _).andThen fun _ => yields_bool _
  | logic o => exact ha.logic hb o _

end EvalM

mutual
/-- **An expression gives no error value where failed calls end their lines.** -/
theorem Expr.yields_eval (hr : env.registry.KeepsErrorFree)
    (hc : env.config.callFaults = .propagate) (next : Nat) :
    ∀ e : Expr, (e.eval env next).Yields Value.ErrorFree
  | .int n => (EvalM.yields_visit _ _).andThen fun _ => .pure (Value.errorFree_int n)
  | .float x => (EvalM.yields_visit _ _).andThen fun _ => .pure (Value.errorFree_float x)
  | .str s => (EvalM.yields_visit _ _).andThen fun _ => .pure (Value.errorFree_str s)
  | .var name => (EvalM.yields_visit _ _).andThen fun _ => EvalM.yields_lookup name
  | .call name args =>
    (EvalM.yields_visit _ _).andThen fun _ =>
      (Expr.yields_evalAll hr hc next args).bind fun _ hvals =>
        yields_callFunction hr hc _ name hvals
  | .group e => (EvalM.yields_visit _ _).andThen fun _ => e.yields_eval hr hc next
  | .binary o l r =>
    (EvalM.yields_visit _ _).andThen fun _ =>
      (l.yields_eval hr hc next).binary (r.yields_eval hr hc _) o
  | .ternary c t e | .ifElse c t e =>
    (EvalM.yields_visit _ _).andThen fun _ =>
      (c.yields_eval hr hc next).conditional (t.yields_eval hr hc _) (e.yields_eval hr hc _) _
  | .ifThen c t =>
    (EvalM.yields_visit _ _).andThen fun _ =>
      (c.yields_eval hr hc next).conditional (t.yields_eval hr hc _) (.pure Value.errorFree_none) _

/-- Several expressions give lists of values without error values. -/
theorem Expr.yields_evalAll (hr : env.registry.KeepsErrorFree)
    (hc : env.config.callFaults = .propagate) (next : Nat) :
    ∀ es : List Expr, (Expr.evalAll env next es).Yields fun vs => ∀ v ∈ vs, v.ErrorFree
  | [] => .pure nofun
  | e :: es =>
    (e.yields_eval hr hc next).bind fun _ hv =>
      (Expr.yields_evalAll hr hc _ es).bind fun _ hvs => .pure (List.forall_mem_cons.2 ⟨hv, hvs⟩)
end

/-- So does a line, which may bind what it gives to a name. -/
theorem Line.yields_eval (hr : env.registry.KeepsErrorFree)
    (hc : env.config.callFaults = .propagate) (l : Line) :
    (l.eval env).Yields Value.ErrorFree := by
  cases l with
  | expr e => exact (EvalM.yields_visit _ _).andThen fun _ => e.yields_eval hr hc 1
  | assign name e =>
    refine (EvalM.yields_visit _ _).andThen fun _ => (EvalM.yields_visit _ _).andThen fun _ =>
      (EvalM.yields_visit _ _).andThen fun _ => (e.yields_eval hr hc 1).bind fun v hv => ?_
    have hbind : (bindName name v : EvalM σ Unit).Yields fun _ => True :=
      fun st hst => ⟨fun _ _ => trivial, hst.assign name hv⟩
    exact hbind.andThen fun _ => .pure hv

end

/-! ## Sessions -/

/-- What can happen to a session between two lines, or in one. -/
inductive Session.Action (σ : Type) where
  | evalLine (source : String)
  | reset
  | remove (name : String)
  | setConditionals (c : Conditionals)
  | define (name : String) (f : Callable σ)

namespace Session

/-- The session after something has happened to it. -/
def act (s : Session σ) : Action σ → Session σ
  | .evalLine source => (s.evalLine source).session
  | .reset => s.reset
  | .remove name => s.remove name
  | .setConditionals c => s.withConditionals c
  | .define name f => s.define name f

/-- Failed calls end their lines, and neither the table nor the registry has an
    error value or makes one. -/
structure ErrorFree (s : Session σ) : Prop where
  symbols : s.symbols.ErrorFree
  registry : s.registry.KeepsErrorFree
  callFaults : s.config.callFaults = .propagate

theorem errorFree_start (host : σ) : (start .standard {} host).ErrorFree where
  symbols := Symbols.errorFree_constants
  registry := Registry.keepsErrorFree_standard
  callFaults := rfl

/-- A line of such a session gives no error value and leaves such a session. -/
theorem ErrorFree.evalLine {s : Session σ} (hs : s.ErrorFree) (source : String) :
    Gives (s.evalLine source).result Value.ErrorFree ∧ (s.evalLine source).session.ErrorFree := by
  rcases whole_or_error source with ⟨l, hl⟩ | ⟨e, he⟩
  · have hline : (l.eval s.env).Yields Value.ErrorFree := l.yields_eval hs.registry hs.callFaults
    obtain ⟨hgives, hsymbols⟩ := hline (s.scanned source).state hs.symbols
    rw [evalLine_of_whole hl]
    exact ⟨hgives.mapError _, hsymbols, hs.registry, hs.callFaults⟩
  · rw [evalLine_of_error he]
    exact ⟨gives_error e, hs.symbols, hs.registry, hs.callFaults⟩

/-- Nothing that can happen to such a session brings in an error value. -/
theorem ErrorFree.act {s : Session σ} (hs : s.ErrorFree) {action : Action σ}
    (h : ∀ name f, action = .define name f → f.KeepsErrorFree) : (s.act action).ErrorFree := by
  cases action with
  | evalLine source => exact (hs.evalLine source).2
  | reset => exact ⟨Symbols.errorFree_constants, hs.registry, hs.callFaults⟩
  | remove name => exact ⟨hs.symbols.erase name, hs.registry, hs.callFaults⟩
  | setConditionals c => exact ⟨hs.symbols, hs.registry, hs.callFaults⟩
  | define name f =>
    exact ⟨hs.symbols.insert name (h name f rfl), hs.registry, hs.callFaults⟩

theorem ErrorFree.foldl_act {s : Session σ} (hs : s.ErrorFree) {actions : List (Action σ)}
    (h : ∀ name f, .define name f ∈ actions → f.KeepsErrorFree) :
    (actions.foldl Session.act s).ErrorFree := by
  induction actions generalizing s with
  | nil => exact hs
  | cons action actions ih =>
    refine ih (hs.act fun name f hf => ?_) fun name f hf => ?_
    · exact h name f (hf ▸ List.mem_cons_self)
    · exact h name f (List.mem_cons_of_mem _ hf)

/-- **Where failed calls end their lines, a session never holds an error
    value.**  Whatever lines are evaluated, names removed, settings for
    conditionals changed and functions defined that make no error value of
    arguments without one, no name is bound to an error value or to a list that
    holds one at any depth, and no line gives one. -/
theorem errorFree_after (host : σ) (actions : List (Action σ))
    (h : ∀ name f, .define name f ∈ actions → f.KeepsErrorFree) :
    let s := actions.foldl Session.act (start .standard {} host)
    (∀ name v, s.symbols.get? name = some (.value v) → v.ErrorFree) ∧
      ∀ source v, (s.evalLine source).result = .ok v → v.ErrorFree := by
  have hs := (errorFree_start host).foldl_act h
  exact ⟨fun name v hv => hs.symbols name _ hv, fun source v hv => (hs.evalLine source).1 v hv⟩

/-- A function that puts its arguments into a list, between two settings. -/
theorem errorFree_after_define :
    let f : Callable Unit := .pure "pair" fun args => .ok (.list args)
    let actions : List (Action Unit) := [.define "pair" f, .evalLine "x = pair(1, max(2, 3))",
      .setConditionals .lazy, .evalLine "y = x + missing(x)", .remove "pi"]
    let s := actions.foldl Session.act (start .standard {} ())
    (∀ name g, .define name g ∈ actions → g.KeepsErrorFree) ∧
      (s.evalLine "len(x)").result = .ok (.int 2) ∧
      (∀ name v, s.symbols.get? name = some (.value v) → v.ErrorFree) ∧
      ∀ source v, (s.evalLine source).result = .ok v → v.ErrorFree := by
  intro f actions s
  have hf : f.KeepsErrorFree := by
    rintro args host _ hargs ⟨⟩
    exact Value.errorFree_list.2 hargs
  have hdefine : ∀ name g, .define name g ∈ actions → g.KeepsErrorFree := by
    intro name g hg
    simp only [actions, List.mem_cons, Action.define.injEq, reduceCtorEq, List.not_mem_nil,
      or_false] at hg
    exact hg.2 ▸ hf
  exact ⟨hdefine, by decide +kernel, errorFree_after () actions hdefine⟩

end Session

end Flowline
