/-
  Writing kinds and scanning them are inverse.

  * `Kind.Writable`: the kinds whose texts are read back;
  * `render`: kinds as a text, one to a line;
  * `spells_text`: the text of a writable kind spells it;
  * `writable_of_spells`: what is spelled is writable, floats aside;
  * `kinds_render`: kinds that are written one to a line are read back.
-/
import Flowline.Proofs.Spelling
import Flowline.Proofs.Locality

namespace Flowline

/-! ## Writable kinds -/

/-- The kinds whose texts are read back: integers that are not negative, names
    that are words and not keywords, strings on one line, marks and operators. -/
def Kind.Writable : Kind → Prop
  | int n => 0 ≤ n.toInt
  | float _ | eof => False
  | ident name => IsWord name.toList ∧ name ∉ keywords
  | str body => '\n' ∉ body.toList
  | mark _ | op _ => True

/-- Kinds as a text, one to a line. -/
def render (ks : List Kind) : String :=
  "\n".intercalate (ks.map Kind.text)

/-- The digits of a number are read as the number. -/
theorem ofDigits_toDigits (n : Nat) : Decimal.ofDigits (Nat.toDigits 10 n) = n :=
  Nat.ofDigitChars_ten_toDigits

theorem isDigits_toDigits (n : Nat) : IsDigits (Nat.toDigits 10 n) :=
  ⟨Nat.toDigits_ne_nil, fun _ hc => Nat.isDigit_of_mem_toDigits (by decide) (by decide) hc⟩

/-- The text of a writable kind spells it. -/
theorem spells_text {k : Kind} (h : k.Writable) : Spells k.text.toList k := by
  cases k with
  | int n =>
    obtain ⟨m, hm⟩ := Int.eq_ofNat_of_zero_le h
    have htext : (Kind.int n).text.toList = Nat.toDigits 10 m := by
      have hstring : toString (m : Int) = String.ofList (Nat.toDigits 10 m) :=
        Nat.toString_eq_ofList_toDigits
      rw [Kind.text, hm, hstring, String.toList_ofList]
    rw [htext]
    exact .int (isDigits_toDigits m) (by rw [ofDigits_toDigits, hm])
  | float x | eof => cases h
  | ident name =>
    have hs := Spells.ident h.1 (by rw [String.ofList_toList]; exact h.2)
    rw [String.ofList_toList] at hs
    exact hs
  | str body =>
    have hs := Spells.str h
    rw [String.ofList_toList] at hs
    simpa [Kind.text] using hs
  | mark m => exact .mark m
  | op o => exact .op o

/-- What is spelled is writable, floats aside. -/
theorem writable_of_spells {cs : List Char} {k : Kind} (h : Spells cs k) :
    (∃ x, k = .float x) ∨ k.Writable := by
  cases h with
  | int _ hn =>
    refine Or.inr ?_
    rw [Kind.Writable, hn]
    exact Int.natCast_nonneg _
  | large _ _ => exact Or.inl ⟨_, rfl⟩
  | decimal _ _ => exact Or.inl ⟨_, rfl⟩
  | ident hword hname => exact Or.inr ⟨by rwa [String.toList_ofList], hname⟩
  | str hbody => exact Or.inr (by rwa [Kind.Writable, String.toList_ofList])
  | mark _ | op _ => exact Or.inr trivial

/-! ## Reading back -/

/-- Only digits that are read as a float are too large. -/
theorem Lexeme.kind_of_tooLarge {l : Lexeme} (h : l.tooLarge) : ∃ x, l.kind = .float x := by
  rcases l with ⟨ds, _ | fraction⟩ | cs | body | m | o
  · exact ⟨_, Lexeme.kind_digits_of_none (Option.isNone_iff_eq_none.1 h)⟩
  all_goals cases h

/-- Nothing is reported about what is not read as a float. -/
theorem Piece.complaint?_lexeme {l : Lexeme} (h : ∀ x, l.kind ≠ .float x) :
    (Piece.lexeme l).complaint? = none := by
  rw [Piece.complaint?, if_neg]
  intro hlarge
  obtain ⟨x, hx⟩ := Lexeme.kind_of_tooLarge hlarge
  exact h x hx

/-- What spells a token is one piece. -/
theorem exists_pieces_of_spells {cs : List Char} {k : Kind} (h : Spells cs k) :
    ∃ l, pieces cs = [.lexeme l] ∧ l.kind = k := by
  obtain ⟨c, cs, l, rfl, hscan, hk⟩ := exists_scanLexeme_of_spells h
  refine ⟨l, ?_, hk⟩
  rw [pieces, scan_of_scanLexeme hscan, pieces]

/-- The text is cut into tokens of the given kinds and blanks, and there is
    nothing to report about it. -/
def ReadsAs (cs : List Char) (ks : List Kind) : Prop :=
  (pieces cs).filterMap Piece.kind? = ks ∧ ∀ x ∈ pieces cs, x.complaint? = none

theorem ReadsAs.nil : ReadsAs [] [] := by
  rw [ReadsAs, pieces]
  exact ⟨rfl, by simp⟩

theorem ReadsAs.text {k : Kind} (h : k.Writable) : ReadsAs k.text.toList [k] := by
  obtain ⟨l, hpieces, hk⟩ := exists_pieces_of_spells (spells_text h)
  rw [ReadsAs, hpieces]
  refine ⟨by simp [Piece.kind?, hk], List.forall_mem_singleton.2 ?_⟩
  refine Piece.complaint?_lexeme fun x hx => ?_
  rw [← hk, hx] at h
  exact h

theorem ReadsAs.append_newline {cs t : List Char} {ks js : List Kind} (h : ReadsAs cs ks)
    (h' : ReadsAs t js) : ReadsAs (cs ++ '\n' :: t) (ks ++ js) := by
  rw [ReadsAs, pieces_append_newline]
  constructor
  · rw [List.filterMap_append, List.filterMap_cons_none rfl, h.1, h'.1]
  · rw [List.forall_mem_append, List.forall_mem_cons]
    exact ⟨h.2, rfl, h'.2⟩

/-- **Writable kinds are read back from their texts.** -/
theorem ReadsAs.render {ks : List Kind} (h : ∀ k ∈ ks, k.Writable) :
    ReadsAs (render ks).toList ks := by
  rw [Flowline.render, String.toList_intercalate]
  induction ks with
  | nil => exact ReadsAs.nil
  | cons k ks ih =>
    obtain ⟨hk, hks⟩ := List.forall_mem_cons.1 h
    cases ks with
    | nil => simpa using ReadsAs.text hk
    | cons k' ks =>
      have hline := (ReadsAs.text hk).append_newline (ih hks)
      simpa [List.intercalate_cons_cons] using hline

theorem diagnosticsFrom_eq_nil {ps : List Piece} (h : ∀ x ∈ ps, x.complaint? = none) (p : Place) :
    diagnosticsFrom p ps = [] := by
  induction ps generalizing p with
  | nil => rfl
  | cons x ps ih =>
    obtain ⟨hx, hps⟩ := List.forall_mem_cons.1 h
    rw [diagnosticsFrom, hx, ih hps]

/-- The kinds of the tokens of pieces, whatever their places. -/
theorem map_kind_tokensFrom (ps : List Piece) (p : Place) :
    (tokensFrom p ps).map Token.kind = ps.filterMap Piece.kind? ++ [.eof] := by
  induction ps generalizing p with
  | nil => rfl
  | cons x ps ih =>
    rw [tokensFrom, List.filterMap_cons]
    cases hx : x.kind? with
    | none => exact ih _
    | some k => exact congrArg (k :: ·) (ih _)

/-- The kinds of a text are those that its pieces spell. -/
theorem writable_of_mem_kinds {source : String} {k : Kind} (h : k ∈ kinds source) :
    (∃ x, k = .float x) ∨ k.Writable := by
  obtain ⟨x, hx, hk⟩ := List.mem_filterMap.1 h
  cases x with
  | blank c | skipped c => cases hk
  | lexeme l =>
    cases hk
    obtain ⟨c, cs, rest, hscan⟩ := exists_scanLexeme_of_mem_pieces hx
    exact writable_of_spells (spells_of_scanLexeme hscan)

/-- **Writing kinds and scanning them are inverse.**  Writable kinds, one to a
    line, are read back without a diagnostic.  All kinds that a text is scanned
    into are writable, floats and the end of the input aside, so the kinds of a
    text without floats are those of its rendering. -/
theorem kinds_render :
    (∀ ks : List Kind, (∀ k ∈ ks, k.Writable) →
      kinds (render ks) = ks ∧ (lex (render ks)).tokens.map Token.kind = ks ++ [.eof] ∧
        (lex (render ks)).diagnostics = []) ∧
    (∀ source : String, (lex source).tokens.map Token.kind = kinds source ++ [.eof] ∧
      ∀ k ∈ kinds source, (∃ x, k = .float x) ∨ k.Writable) ∧
    ∀ source : String, (∀ k ∈ kinds source, ¬ ∃ x, k = .float x) →
      kinds (render (kinds source)) = kinds source := by
  refine ⟨?_, fun source => ⟨map_kind_tokensFrom _ _, fun k => writable_of_mem_kinds⟩, ?_⟩
  · intro ks hks
    obtain ⟨hkinds, hquiet⟩ := ReadsAs.render hks
    refine ⟨hkinds, ?_, diagnosticsFrom_eq_nil hquiet _⟩
    rw [lex, lexFrom, map_kind_tokensFrom, hkinds]
  · intro source hfloat
    exact (ReadsAs.render fun k hk => (writable_of_mem_kinds hk).resolve_left (hfloat k hk)).1

/-- A string with quotes inside is read back up to its last quote. -/
theorem kinds_render_quotes :
    let ks : List Kind := [.ident "x", .mark .equal, .str "a\" + \"b", .int 9223372036854775807]
    (∀ k ∈ ks, k.Writable) ∧ kinds (render ks) = ks ∧
      (lex (render ks)).tokens.map Token.kind = ks ++ [.eof] ∧
      (lex (render ks)).diagnostics = [] := by
  intro ks
  have h : ∀ k ∈ ks, k.Writable := by
    simp only [ks, List.forall_mem_cons, Kind.Writable, IsWord]
    exact ⟨⟨⟨by decide, by simp⟩, by decide⟩, trivial, by decide, by decide, by simp⟩
  exact ⟨h, kinds_render.1 ks h⟩

end Flowline
