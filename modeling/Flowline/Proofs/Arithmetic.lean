/-
  Integer arithmetic is right from the text to the value.

  * `Formula`: integer literals, joined by `+`, `-` and `*` or raised to a
    literal power, with `Formula.value` in unbounded integers and
    `Formula.Fits` if all values on the way fit into 64 bits;
  * `Formula.Written`: the texts of a formula, with blanks and more parentheses
    than needed wherever they may stand;
  * `Formula.Written.exists_expr`, `Formula.Denotes.settles`: the expression that
    such a text is read as, and its evaluation;
  * `Session.evalLine_formula`: a line that is a formula gives its value, or
    overflows.
-/
import Flowline.Proofs.Integers
import Flowline.Proofs.Rendering
import Flowline.Proofs.Parsing
import Flowline.Proofs.Evaluation

namespace Flowline

/-! ## Formulas -/

/-- Integer arithmetic. -/
inductive Formula where
  | literal (n : Nat)
  | join (o : IntOp) (a b : Formula)
  | power (base : Formula) (exponent : Nat)

namespace Formula

/-- The value, in unbounded integers. -/
def value : Formula → Int
  | literal n => n
  | join o a b => o.apply a.value b.value
  | power b k => b.value ^ k

/-- The values of the formula and of all its parts fit into 64 bits. -/
def Fits : Formula → Prop
  | literal n => Whole.InRange n
  | join o a b => a.Fits ∧ b.Fits ∧ Whole.InRange (join o a b).value
  | power b k => b.Fits ∧ Whole.InRange k ∧ Whole.InRange (power b k).value

end Formula

/-- How an operator is written. -/
def IntOp.sign : IntOp → Char
  | plus => '+'
  | minus => '-'
  | times => '*'

/-- How loosely an operator binds; a power, of rank zero, binds closest. -/
def IntOp.rank : IntOp → Nat
  | plus | minus => 2
  | times => 1

/-- The text writes the formula at a place where operators of a rank below the
    given one need no parentheses.  An operator leaves such a place to operators
    of its own rank on its left, and not on its right; a power leaves none. -/
inductive Formula.Written : Nat → Formula → List Char → Prop where
  | literal {r : Nat} {ds : List Char} (digits : IsDigits ds)
      (range : Decimal.ofDigits ds < Whole.limit) : Written r (.literal (Decimal.ofDigits ds)) ds
  | join {r : Nat} {o : IntOp} {a b : Formula} {cs ds : List Char} (rank : o.rank < r)
      (left : Written (o.rank + 1) a cs) (right : Written o.rank b ds) :
      Written r (.join o a b) (cs ++ o.sign :: ds)
  | power {r : Nat} {b : Formula} {k : Nat} {cs ds : List Char} (rank : 0 < r)
      (base : Written 0 b cs) (exponent : Written 0 (.literal k) ds) :
      Written r (.power b k) (cs ++ '^' :: ds)
  | paren {r : Nat} {e : Formula} {cs : List Char} (inner : Written 3 e cs) :
      Written r e ('(' :: (cs ++ [')']))
  | blankBefore {r : Nat} {e : Formula} {c : Char} {cs : List Char} (gap : isGap c)
      (inner : Written r e cs) : Written r e (c :: cs)
  | blankAfter {r : Nat} {e : Formula} {c : Char} {cs : List Char} (gap : isGap c)
      (inner : Written r e cs) : Written r e (cs ++ [c])

/-! ## Scanning -/

/-- The text goes on no number. -/
def EndsNumber (v : List Char) : Prop :=
  ∀ c ∈ v.head?, c.isDigit = false ∧ c ≠ '.'

/-- Before what goes on no number, the text is cut into tokens of the given
    kinds and blanks, and there is nothing to report about it. -/
def ScansAs (cs : List Char) (ks : List Kind) : Prop :=
  ∃ ps : List Piece, (∀ v, EndsNumber v → pieces (cs ++ v) = ps ++ pieces v) ∧
    ps.filterMap Piece.kind? = ks ∧ ∀ x ∈ ps, x.complaint? = none

theorem ScansAs.readsAs {cs : List Char} {ks : List Kind} (h : ScansAs cs ks) : ReadsAs cs ks := by
  obtain ⟨ps, hps, hkinds, hquiet⟩ := h
  have hall : pieces cs = ps := by simpa [pieces] using hps [] (by simp [EndsNumber])
  rw [ReadsAs, hall]
  exact ⟨hkinds, hquiet⟩

theorem ScansAs.append {cs ds : List Char} {ks js : List Kind} (h : ScansAs cs ks)
    (h' : ScansAs ds js) (hends : ∀ v, EndsNumber v → EndsNumber (ds ++ v)) :
    ScansAs (cs ++ ds) (ks ++ js) := by
  obtain ⟨ps, hps, hkinds, hquiet⟩ := h
  obtain ⟨qs, hqs, hkinds', hquiet'⟩ := h'
  refine ⟨ps ++ qs, fun v hv => ?_, ?_, List.forall_mem_append.2 ⟨hquiet, hquiet'⟩⟩
  · rw [List.append_assoc, hps _ (hends v hv), hqs v hv, List.append_assoc]
  · rw [List.filterMap_append, hkinds, hkinds']

theorem ScansAs.nil : ScansAs [] [] :=
  ⟨[], fun _ _ => rfl, rfl, by simp⟩

/-- A character that is a piece by itself. -/
theorem ScansAs.cons {c : Char} {ds : List Char} {x : Piece} {js : List Kind} (h : ScansAs ds js)
    (hscan : ∀ v, scan c (ds ++ v) = (x, ds ++ v)) (hquiet : x.complaint? = none) :
    ScansAs (c :: ds) (x.kind?.toList ++ js) := by
  obtain ⟨ps, hps, hkinds, hquiet'⟩ := h
  refine ⟨x :: ps, fun v hv => ?_, ?_, List.forall_mem_cons.2 ⟨hquiet, hquiet'⟩⟩
  · rw [List.cons_append, pieces, hscan, hps v hv, List.cons_append]
  · rw [List.filterMap_cons, hkinds]
    cases x.kind? <;> rfl

theorem ScansAs.blank {c : Char} {ds : List Char} {js : List Kind} (hc : isGap c)
    (h : ScansAs ds js) : ScansAs (c :: ds) js := by
  refine h.cons (x := .blank c) (fun v => ?_) rfl
  rw [scan, if_pos hc]

theorem ScansAs.digits {ds : List Char} {n : Int64} (h : IsDigits ds)
    (hn : n.toInt = Decimal.ofDigits ds) : ScansAs ds [.int n] := by
  have hkind := Lexeme.kind_digits_of_some (Whole.ofInt?_eq_some_iff.2 hn)
  refine ⟨[.lexeme (.number ds none)], fun v hv => ?_, ?_, ?_⟩
  · have hscan := scanNumber_digits h hv
    obtain ⟨c, cs, rfl⟩ := List.exists_cons_of_ne_nil h.1
    have hlexeme : scanLexeme c (cs ++ v) = some (.number (c :: cs) none, v) := by
      rw [scanLexeme_digit (h.2 c List.mem_cons_self), ← hscan]
      rfl
    rw [List.cons_append, pieces, scan_of_scanLexeme hlexeme]
    rfl
  · simp [Piece.kind?, hkind]
  · refine List.forall_mem_singleton.2 (Piece.complaint?_lexeme fun x => ?_)
    rw [hkind]
    intro hfloat
    cases hfloat

/-- A minus sign is no arrow unless an angle follows it. -/
theorem scan_sign (o : IntOp) {c : Char} (hc : c ≠ '>') (v : List Char) :
    scan o.sign (c :: v) = (.lexeme (.op (.arith o.arith)), c :: v) := by
  cases o with
  | plus => rfl
  | times => rfl
  | minus =>
    have harrow : Text.after? (Lexeme.mark .arrow).chars ('-' :: c :: v) = none := by
      show Text.after? ['-', '>'] ('-' :: c :: v) = none
      simp [Text.after?, Ne.symm hc]
    refine scan_of_scanLexeme ?_
    show scanSign ('-' :: c :: v) = _
    rw [scanSign, signs, List.findSome?_cons, harrow]
    rfl

/-- A formula starts with no angle. -/
theorem Formula.Written.exists_head {r : Nat} {e : Formula} {cs : List Char} (h : e.Written r cs) :
    ∃ c ds, cs = c :: ds ∧ c ≠ '>' := by
  induction h with
  | literal hds _ =>
    obtain ⟨c, cs, rfl⟩ := List.exists_cons_of_ne_nil hds.1
    refine ⟨c, cs, rfl, ?_⟩
    rintro rfl
    exact absurd (hds.2 '>' List.mem_cons_self) (by decide)
  | join _ _ _ ih _ | power _ _ _ ih _ =>
    obtain ⟨c, cs, rfl, hc⟩ := ih
    exact ⟨c, _, rfl, hc⟩
  | paren _ _ => exact ⟨'(', _, rfl, by decide⟩
  | blankBefore hgap _ _ =>
    refine ⟨_, _, rfl, ?_⟩
    rintro rfl
    exact absurd hgap (by decide)
  | blankAfter _ _ ih =>
    obtain ⟨c, cs, rfl, hc⟩ := ih
    exact ⟨c, _, rfl, hc⟩

/-! ## Derivations -/

/-- The phrases at a place where operators of a rank below the given one may
    stand. -/
def place : Nat → Phrase
  | 0 => .factor
  | 1 => .power
  | 2 => .chain .term
  | _ => .chain .additive

/-- The kinds are derived at a place, and stand for the expression. -/
def Phrased (r : Nat) (x : Expr) (ks : List Kind) : Prop :=
  ∃ d : Derivation (.phrase (place r)), d.Nearest ∧ d.yield = ks ∧ d.meaning = x

/-- Operators and their operands take one more. -/
theorem Derivation.exists_snoc {l : Chain} {o : Operator} (ho : o.rank = l.rank)
    {e : Derivation (.phrase l.operand)} (he : e.Nearest) :
    ∀ d : Derivation (.operators l), d.Nearest → ∃ d' : Derivation (.operators l), d'.Nearest ∧
      d'.yield = d.yield ++ .op o :: e.yield ∧
      ∀ x, d'.meaning x = .binary o (d.meaning x) e.meaning
  | .noOperator _, _ =>
    ⟨.operator l o ho e (.noOperator l), ⟨he, trivial⟩, by simp [yield], fun _ => rfl⟩
  | .operator _ o' ho' e' rest, ⟨he', hrest⟩ =>
    have ⟨rest', hnear, hyield, hmeaning⟩ := exists_snoc ho he rest hrest
    ⟨.operator l o' ho' e' rest', ⟨he', hnear⟩, by simp [yield, hyield], fun _ => hmeaning _⟩

/-- A chain takes one more operator and operand. -/
theorem Derivation.exists_chain {l : Chain} {o : Operator} (ho : o.rank = l.rank)
    {d : Derivation (.phrase (.chain l))} (hd : d.Nearest)
    {e : Derivation (.phrase l.operand)} (he : e.Nearest) :
    ∃ d' : Derivation (.phrase (.chain l)), d'.Nearest ∧ d'.yield = d.yield ++ .op o :: e.yield ∧
      d'.meaning = .binary o d.meaning e.meaning := by
  cases d with
  | chain _ first rest =>
    obtain ⟨hfirst, hrest⟩ := hd
    obtain ⟨rest', hnear, hyield, hmeaning⟩ := exists_snoc ho he rest hrest
    exact ⟨.chain l first rest', ⟨hfirst, hnear⟩, by simp [yield, hyield], hmeaning _⟩

namespace Phrased

variable {r : Nat} {x y : Expr} {ks js : List Kind}

theorem succ (h : Phrased r x ks) : Phrased (r + 1) x ks := by
  obtain ⟨d, hd, rfl, rfl⟩ := h
  match r with
  | 0 => exact ⟨.base d, hd, rfl, rfl⟩
  | 1 => exact ⟨.chain .term d (.noOperator _), ⟨hd, trivial⟩, List.append_nil _, rfl⟩
  | 2 => exact ⟨.chain .additive (.term d) (.noOperator _), ⟨hd, trivial⟩, List.append_nil _, rfl⟩
  | _ + 3 => exact ⟨d, hd, rfl, rfl⟩

theorem mono {r' : Nat} (h : Phrased r x ks) (hr : r ≤ r') : Phrased r' x ks := by
  induction hr with
  | refl => exact h
  | step _ ih => exact ih.succ

theorem int (n : Int64) : Phrased 0 (.int n) [.int n] :=
  ⟨.int n, trivial, rfl, rfl⟩

/-- A sum is an expression. -/
theorem exists_expr (h : Phrased 3 x ks) :
    ∃ d : Derivation (.phrase .expr), d.Nearest ∧ d.yield = ks ∧ d.meaning = x := by
  obtain ⟨d, hd, rfl, rfl⟩ := h
  refine ⟨.or (.chain .or (.chain .and (.chain .compare d (.noOperator _)) (.noOperator _))
    (.noOperator _)), ⟨⟨⟨hd, trivial⟩, trivial⟩, trivial⟩, ?_, rfl⟩
  exact (List.append_nil _).trans ((List.append_nil _).trans (List.append_nil _))

theorem group (h : Phrased 3 x ks) :
    Phrased 0 (.group x) (.mark .lparen :: (ks ++ [.mark .rparen])) := by
  obtain ⟨d, hd, rfl, rfl⟩ := h.exists_expr
  exact ⟨.group d, hd, rfl, rfl⟩

theorem power (h : Phrased 0 x ks) (h' : Phrased 0 y js) :
    Phrased 1 (.binary (.arith .power) x y) (ks ++ .op (.arith .power) :: js) := by
  obtain ⟨b, hb, rfl, rfl⟩ := h
  obtain ⟨e, he, rfl, rfl⟩ := h'
  exact ⟨.raised b e, ⟨hb, he⟩, rfl, rfl⟩

theorem join (o : IntOp) (h : Phrased (o.rank + 1) x ks) (h' : Phrased o.rank y js) :
    Phrased (o.rank + 1) (.binary (.arith o.arith) x y) (ks ++ .op (.arith o.arith) :: js) := by
  obtain ⟨d, hd, rfl, rfl⟩ := h
  obtain ⟨e, he, rfl, rfl⟩ := h'
  cases o with
  | plus | minus => exact Derivation.exists_chain (l := .additive) rfl hd he
  | times => exact Derivation.exists_chain (l := .term) rfl hd he

end Phrased

/-! ## Expressions -/

/-- The expression computes the formula, parentheses aside. -/
inductive Formula.Denotes : Expr → Formula → Prop where
  | int {n : Int64} {k : Nat} (value : n.toInt = k) : Denotes (.int n) (.literal k)
  | join {o : IntOp} {x y : Expr} {a b : Formula} (left : Denotes x a) (right : Denotes y b) :
      Denotes (.binary (.arith o.arith) x y) (.join o a b)
  | power {x y : Expr} {b : Formula} {k : Nat} (base : Denotes x b)
      (exponent : Denotes y (.literal k)) : Denotes (.binary (.arith .power) x y) (.power b k)
  | group {x : Expr} {e : Formula} (inner : Denotes x e) : Denotes (.group x) e

theorem endsNumber_cons {c : Char} (hc : c.isDigit = false ∧ c ≠ '.') (v : List Char) :
    EndsNumber (c :: v) := by
  intro d hd
  cases hd
  exact hc

theorem not_isDigit_of_isGap {c : Char} (h : isGap c) : c.isDigit = false ∧ c ≠ '.' := by
  simp only [isGap, Bool.or_eq_true, beq_iff_eq] at h
  rcases h with (rfl | rfl) | rfl <;> decide

/-- **The text of a formula is scanned into the tokens of an expression that
    computes it.** -/
theorem Formula.Written.exists_expr {r : Nat} {e : Formula} {cs : List Char} (h : e.Written r cs) :
    ∃ ks x, ScansAs cs ks ∧ Phrased r x ks ∧ Denotes x e := by
  induction h with
  | @literal r ds hds hrange =>
    have hin : Whole.InRange (Decimal.ofDigits ds) := ⟨by rw [Whole.limit]; omega, hrange⟩
    obtain ⟨n, hn, -⟩ := Whole.exists_ofInt?_of_inRange hin
    exact ⟨[.int n], .int n, .digits hds hn, (Phrased.int n).mono (Nat.zero_le _), .int hn⟩
  | @join r o a b cs ds hr _ hright ihl ihr =>
    obtain ⟨ks, x, hscan, hphrase, hdenotes⟩ := ihl
    obtain ⟨js, y, hscan', hphrase', hdenotes'⟩ := ihr
    refine ⟨ks ++ .op (.arith o.arith) :: js, .binary (.arith o.arith) x y, ?_,
      (hphrase.join o hphrase').mono hr, .join hdenotes hdenotes'⟩
    obtain ⟨c, ds, rfl, hc⟩ := hright.exists_head
    refine hscan.append (hscan'.cons (x := .lexeme (.op (.arith o.arith)))
      (fun v => scan_sign o hc _) rfl) fun v _ => endsNumber_cons ?_ _
    cases o <;> decide
  | power hr _ _ ihb ihe =>
    obtain ⟨ks, x, hscan, hphrase, hdenotes⟩ := ihb
    obtain ⟨js, y, hscan', hphrase', hdenotes'⟩ := ihe
    refine ⟨ks ++ .op (.arith .power) :: js, .binary (.arith .power) x y, ?_,
      (hphrase.power hphrase').mono hr, .power hdenotes hdenotes'⟩
    exact hscan.append (hscan'.cons (x := .lexeme (.op (.arith .power))) (fun v => rfl) rfl)
      fun v _ => endsNumber_cons (by decide) _
  | paren _ ih =>
    obtain ⟨ks, x, hscan, hphrase, hdenotes⟩ := ih
    refine ⟨.mark .lparen :: (ks ++ [.mark .rparen]), .group x, ?_,
      hphrase.group.mono (Nat.zero_le _), .group hdenotes⟩
    have hclose : ScansAs [')'] [.mark .rparen] :=
      ScansAs.nil.cons (x := .lexeme (.mark .rparen)) (fun v => rfl) rfl
    exact (hscan.append hclose fun v _ => endsNumber_cons (by decide) _).cons
      (x := .lexeme (.mark .lparen)) (fun v => rfl) rfl
  | blankBefore hgap _ ih =>
    obtain ⟨ks, x, hscan, hphrase⟩ := ih
    exact ⟨ks, x, hscan.blank hgap, hphrase⟩
  | blankAfter hgap _ ih =>
    obtain ⟨ks, x, hscan, hphrase⟩ := ih
    refine ⟨ks, x, ?_, hphrase⟩
    have happend := hscan.append (ScansAs.nil.blank hgap) fun v _ =>
      endsNumber_cons (not_isDigit_of_isGap hgap) v
    rwa [List.append_nil] at happend

/-! ## Evaluation -/

variable {σ : Type}

/-- The evaluation gives the value of the formula, or overflows, and changes
    nothing but the events. -/
def Formula.Settles (e : Formula) (m : EvalM σ Value) : Prop :=
  ∀ st : State σ, ∃ events,
    (e.Fits ∧ ∃ n : Int64, n.toInt = e.value ∧ m.run st = (.ok (.int n), { st with events })) ∨
    (¬ e.Fits ∧ ∃ o, m.run st = (.error (.operator (.overflow o)), { st with events }))

theorem Formula.Settles.visit {e : Formula} {m : EvalM σ Value} (h : e.Settles m) (id : Nat)
    (kind : NodeKind) : e.Settles (EvalM.visit id kind >>= fun _ => m) := by
  intro st
  obtain ⟨events, hrun⟩ := h { st with events := st.events.push (.visit id kind) }
  exact ⟨events, by simpa only [EvalM.run_bind, EvalM.visit, EvalM.run_emit] using hrun⟩

/-- An operator that is exact on integers computes a formula from its parts. -/
theorem Formula.Settles.operator {a b e : Formula} {o : Arith} {m m' : EvalM σ Value}
    (ha : a.Settles m) (hb : b.Settles m')
    (hfits : e.Fits ↔ a.Fits ∧ b.Fits ∧ Whole.InRange e.value)
    (hexact : ∀ p q : Int64, p.toInt = a.value → q.toInt = b.value →
      o.apply (.int p) (.int q) = Value.ofExact o (Whole.ofInt? e.value)) :
    e.Settles (m >>= fun x => m' >>= fun y => EvalM.ofOp (o.apply x y)) := by
  intro st
  obtain ⟨events, ⟨hfa, p, hp, hrun⟩ | ⟨hfa, o', hrun⟩⟩ := ha st
  · obtain ⟨events', ⟨hfb, q, hq, hrun'⟩ | ⟨hfb, o', hrun'⟩⟩ := hb { st with events }
    · have hop := hexact p q hp hq
      refine ⟨events', ?_⟩
      by_cases hrange : Whole.InRange e.value
      · obtain ⟨n, hn, hint⟩ := Whole.exists_ofInt?_of_inRange hrange
        refine Or.inl ⟨hfits.2 ⟨hfa, hfb, hrange⟩, n, hn, ?_⟩
        rw [EvalM.run_bind, hrun]
        simp only [EvalM.run_bind, hrun', hop, hint]
        rfl
      · refine Or.inr ⟨fun h => hrange (hfits.1 h).2.2, o, ?_⟩
        rw [EvalM.run_bind, hrun]
        simp only [EvalM.run_bind, hrun', hop, Whole.ofInt?_eq_none hrange]
        rfl
    · refine ⟨events', Or.inr ⟨fun h => hfb (hfits.1 h).2.1, o', ?_⟩⟩
      rw [EvalM.run_bind, hrun]
      simp only [EvalM.run_bind, hrun']
  · refine ⟨events, Or.inr ⟨fun h => hfa (hfits.1 h).1, o', ?_⟩⟩
    rw [EvalM.run_bind, hrun]

/-- **An expression that computes a formula gives its value, or overflows.** -/
theorem Formula.Denotes.settles {x : Expr} {e : Formula} (h : e.Denotes x) (env : Env σ)
    (next : Nat) : e.Settles (x.eval env next) := by
  induction h generalizing next with
  | @int n k hn =>
    rw [Expr.eval]
    refine Formula.Settles.visit (e := .literal k) (fun st =>
      ⟨st.events, Or.inl ⟨?_, n, hn, rfl⟩⟩) _ _
    rw [Formula.Fits, ← hn]
    exact Whole.inRange_toInt n
  | group _ ih =>
    rw [Expr.eval]
    exact (ih next).visit _ _
  | @join o x y a b _ _ iha ihb =>
    rw [Expr.eval]
    refine Formula.Settles.visit ((iha next).operator (ihb _) Iff.rfl fun p q hp hq => ?_) _ _
    rw [IntOp.apply_int, hp, hq]
    rfl
  | @power x y b k _ _ ihb ihk =>
    rw [Expr.eval]
    refine Formula.Settles.visit ((ihb next).operator (ihk _) Iff.rfl fun p q hp hq => ?_) _ _
    have hq' : q.toInt = k := hq
    rw [Arith.apply_power_int p q (by omega), hp, hq', Int.toNat_natCast]
    rfl

/-! ## Lines -/

/-- A text that is scanned into the kinds of an expression is that expression. -/
theorem read_of_readsAs {source : String} {ks : List Kind} {x : Expr}
    (h : ReadsAs source.toList ks) (hx : Phrased 3 x ks) :
    read (lex source).tokens = .whole (.expr x) := by
  obtain ⟨d, hd, rfl, rfl⟩ := hx.exists_expr
  refine read_eq_whole_iff.2 ⟨.bare d, hd, ?_, rfl⟩
  have hwords : words (lex source).tokens = d.yield ++ [.eof] := by
    rw [words, lex, lexFrom, map_kind_tokensFrom, h.1]
  exact (sentence_eq hwords d.isEof_of_mem_yield rfl).symm

/-- **Integer arithmetic is right from the text to the value.**  A line that is
    a formula gives the value of the formula, if the values of all its parts
    fit into 64 bits, and overflows otherwise.  Either way there are no
    diagnostics. -/
theorem Session.evalLine_formula (s : Session σ) (source : String) (e : Formula)
    (h : e.Written 3 source.toList) :
    (e.Fits → ∃ n : Int64, n.toInt = e.value ∧ (s.evalLine source).result = .ok (.int n)) ∧
      (¬ e.Fits → ∃ err, (s.evalLine source).result = .error err ∧ err.kind = .overflow) ∧
      (s.evalLine source).session.diagnostics = [] := by
  obtain ⟨ks, x, hscan, hphrase, hdenotes⟩ := h.exists_expr
  have hreads := hscan.readsAs
  have hdiagnostics : (lex source).diagnostics = [] := diagnosticsFrom_eq_nil hreads.2 _
  rw [Session.evalLine_of_whole (read_of_readsAs hreads hphrase)]
  have hsettles : e.Settles ((Line.expr x).eval s.env) := (hdenotes.settles s.env 1).visit _ _
  obtain ⟨events, ⟨hfits, n, hn, hrun⟩ | ⟨hfits, o, hrun⟩⟩ := hsettles (s.scanned source).state
  · rw [hrun]
    exact ⟨fun _ => ⟨n, hn, rfl⟩, fun hnot => absurd hfits hnot, hdiagnostics⟩
  · rw [hrun]
    exact ⟨fun hyes => absurd hyes hfits, fun _ => ⟨_, rfl, rfl⟩, hdiagnostics⟩

/-- The least integer is written as a power. -/
theorem Session.evalLine_formula_least :
    let s : Session Unit := Session.start .standard {} ()
    let e : Formula := .power (.join .minus (.literal 0) (.literal 2)) 63
    (e.Written 3 "(0 -2)^63".toList ∧ e.Fits ∧ e.value = -Whole.limit) ∧
      (e.Fits → ∃ n : Int64, n.toInt = e.value ∧ (s.evalLine "(0 -2)^63").result = .ok (.int n)) ∧
      (¬ e.Fits → ∃ err, (s.evalLine "(0 -2)^63").result = .error err ∧ err.kind = .overflow) ∧
      (s.evalLine "(0 -2)^63").session.diagnostics = [] := by
  intro s e
  have h : e.Written 3 "(0 -2)^63".toList := by
    have h₀ : Formula.Written 3 (.literal 0) ['0'] :=
      @Formula.Written.literal 3 ['0'] ⟨by simp, by simp⟩ (by decide)
    have h₂ : Formula.Written 2 (.literal 2) ['2'] :=
      @Formula.Written.literal 2 ['2'] ⟨by simp, by simp⟩ (by decide)
    have h₆₃ : Formula.Written 0 (.literal 63) ['6', '3'] :=
      @Formula.Written.literal 0 ['6', '3'] ⟨by simp, by simp⟩ (by decide)
    have hblank : Formula.Written 3 (.literal 0) ['0', ' '] := .blankAfter rfl h₀
    exact .power (by decide) (.paren (.join (o := .minus) (by decide) hblank h₂)) h₆₃
  refine ⟨⟨h, ?_, rfl⟩, Session.evalLine_formula s _ e h⟩
  simp only [e, Formula.Fits, Formula.value, IntOp.apply, Whole.InRange, Whole.limit]
  omega

end Flowline
