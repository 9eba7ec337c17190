/-
  A scan accounts for every character of its text.

  * `Place.ending`: the place that follows some characters, by counting;
  * `Segmented cs ps`: the pieces `ps` make up the text `cs`, each lexeme is the
    longest start of what is left that spells a token, and a character is
    skipped only where nothing spells a token;
  * `segmented_pieces`: so for the pieces of a scan;
  * `lex_segmentation`: the tokens of a scan are those of its lexemes, closed by
    the end of the input, and its diagnostics are those of the skipped
    characters and of the digits that are too large, all at their true places.
-/
import Flowline.Proofs.Spelling

namespace Flowline

/-! ## Places -/

/-- The place that follows the characters at the start of a text: their number,
    the lines that they open, and how many of them stand on the last one. -/
def Place.ending (before : List Char) : Place :=
  { offset := before.length
    line := 1 + before.count '\n'
    col := 1 + (before.reverse.takeWhile (· ≠ '\n')).length }

theorem Place.next_ending (before : List Char) (c : Char) :
    (Place.ending before).next c = Place.ending (before ++ [c]) := by
  by_cases hc : c = '\n'
  · subst hc
    simp [Place.ending, Place.next, Nat.add_assoc]
  · simp [Place.ending, Place.next, hc, Nat.add_assoc]

theorem Place.after_ending (before cs : List Char) :
    (Place.ending before).after cs = Place.ending (before ++ cs) := by
  induction cs generalizing before with
  | nil => rw [List.append_nil, Place.after, List.foldl_nil]
  | cons c cs ih =>
    have hstep : (Place.ending before).after (c :: cs) = ((Place.ending before).next c).after cs :=
      rfl
    rw [hstep, Place.next_ending, ih, List.append_assoc, List.singleton_append]

/-! ## Segmentations -/

/-- No start of the text `cs` spells a token. -/
def SpellsNothing (cs : List Char) : Prop :=
  ∀ u v k, u ++ v = cs → ¬ Spells u k

/-- No start of the text `u ++ rest` that is longer than `u` spells a token. -/
def Longest (u rest : List Char) : Prop :=
  ∀ u' v k, u' ++ v = u ++ rest → Spells u' k → u'.length ≤ u.length

/-- The pieces make up the text, and each of them is as long as it can be. -/
inductive Segmented : List Char → List Piece → Prop where
  | nil : Segmented [] []
  | blank {c : Char} {cs : List Char} {ps : List Piece} (gap : c ∈ [' ', '\t', '\n'])
      (rest : Segmented cs ps) : Segmented (c :: cs) (.blank c :: ps)
  | lexeme {l : Lexeme} {cs : List Char} {ps : List Piece} (spells : Spells l.chars l.kind)
      (longest : Longest l.chars cs) (rest : Segmented cs ps) :
      Segmented (l.chars ++ cs) (.lexeme l :: ps)
  | skipped {c : Char} {cs : List Char} {ps : List Piece} (gap : c ∉ [' ', '\t', '\n'])
      (nothing : SpellsNothing (c :: cs)) (rest : Segmented cs ps) :
      Segmented (c :: cs) (.skipped c :: ps)

theorem isGap_iff {c : Char} : isGap c ↔ c ∈ [' ', '\t', '\n'] := by
  simp [isGap, or_assoc]

theorem longest_of_scanLexeme {c : Char} {cs rest : List Char} {l : Lexeme}
    (h : scanLexeme c cs = some (l, rest)) : Longest l.chars rest := by
  intro u v k hu hs
  obtain ⟨c', cs', l', rest', htext, hscan, hlen⟩ := takes_of_spells hs v
  rw [hu, chars_scanLexeme h] at htext
  cases htext
  rw [h] at hscan
  cases hscan
  exact hlen

theorem spellsNothing_of_scanLexeme {c : Char} {cs : List Char} (h : scanLexeme c cs = none) :
    SpellsNothing (c :: cs) := by
  intro u v k hu hs
  obtain ⟨c', cs', l', rest', htext, hscan, -⟩ := takes_of_spells hs v
  rw [hu] at htext
  cases htext
  rw [h] at hscan
  cases hscan

/-- **The pieces of a text are as long as they can be.** -/
theorem segmented_pieces (cs : List Char) : Segmented cs (pieces cs) := by
  fun_induction pieces cs with
  | case1 => exact .nil
  | case2 c cs ih =>
    rw [scan] at ih ⊢
    split at ih
    next hgap =>
      rw [if_pos hgap]
      exact .blank (isGap_iff.1 hgap) ih
    next hgap =>
      rw [if_neg hgap]
      cases hl : scanLexeme c cs with
      | some p =>
        obtain ⟨l, rest⟩ := p
        rw [hl] at ih
        rw [← chars_scanLexeme hl]
        exact .lexeme (spells_of_scanLexeme hl) (longest_of_scanLexeme hl) ih
      | none =>
        rw [hl] at ih
        exact .skipped (fun hc => hgap (isGap_iff.2 hc)) (spellsNothing_of_scanLexeme hl) ih

/-! ## Tokens and diagnostics -/

/-- Consecutive pieces, each with the characters before it; `before` are the
    characters before the first. -/
def located (before : List Char) : List Piece → List (List Char × Piece)
  | [] => []
  | x :: xs => (before, x) :: located (before ++ x.chars) xs

/-- The token of a piece that follows some characters. -/
def tokenAt : List Char × Piece → Option Token
  | (before, .lexeme l) => some { kind := l.kind, place := .ending before }
  | (_, .blank _) | (_, .skipped _) => none

/-- A report on what follows some characters. -/
def lexicalError (before : List Char) (message : String) : Error :=
  { kind := .lexical
    message
    line := some (Place.ending before).line
    col := some (Place.ending before).col }

/-- The report on a piece that follows some characters: on a skipped character,
    and on digits whose number exceeds the greatest integer. -/
def reportAt : List Char × Piece → Option Error
  | (_, .blank _) => none
  | (before, .lexeme l) =>
    if l.chars.all Char.isDigit ∧ Whole.limit ≤ Decimal.ofDigits l.chars then
      some (lexicalError before
        ("Integer literal '" ++ String.ofList l.chars ++ "' out of range, read as a float"))
    else none
  | (before, .skipped c) =>
    some (lexicalError before ("Unexpected character '" ++ String.singleton c ++ "'"))

theorem tokensFrom_ending (before : List Char) (ps : List Piece) :
    tokensFrom (.ending before) ps =
      (located before ps).filterMap tokenAt ++
        [{ kind := .eof, place := .ending (before ++ ps.flatMap Piece.chars) }] := by
  induction ps generalizing before with
  | nil => simp [tokensFrom, located]
  | cons x ps ih =>
    rw [tokensFrom, Place.after_ending, ih, located, List.flatMap_cons, List.append_assoc]
    cases x with
    | lexeme l => rfl
    | blank c | skipped c => rfl

/-- Only digits are too large. -/
theorem not_tooLarge_of_scanLexeme {c : Char} {cs rest : List Char} {l : Lexeme}
    (h : scanLexeme c cs = some (l, rest)) (hc : ¬ c.isDigit) : l.tooLarge = false := by
  rw [scanLexeme, if_neg hc] at h
  split at h
  next =>
    cases h
    rfl
  next =>
    split at h
    next =>
      obtain ⟨_, -, he⟩ := Option.map_eq_some_iff.1 h
      cases he
      rfl
    next =>
      have hsign : ∀ l ∈ signs, l.tooLarge = false := by decide
      exact hsign l (chars_scanSign h).1

/-- A lexeme is too large just if it is digits whose number exceeds the
    greatest integer. -/
theorem tooLarge_iff_of_scanLexeme {c : Char} {cs rest : List Char} {l : Lexeme}
    (h : scanLexeme c cs = some (l, rest)) :
    l.tooLarge ↔ l.chars.all Char.isDigit ∧ Whole.limit ≤ Decimal.ofDigits l.chars := by
  rw [List.all_eq_true]
  by_cases hc : c.isDigit
  · have hds := (isDigits_takeWhile hc cs).2
    rw [scanLexeme_digit hc, scanNumber] at h
    split at h
    next fraction _ =>
      cases h
      constructor
      · intro hlarge
        cases hlarge
      · intro hall
        exact absurd (hall.1 '.' (by simp [Lexeme.chars])) (by decide)
    next =>
      cases h
      rw [Lexeme.tooLarge, Option.isNone_iff_eq_none, Whole.ofInt?_ofDigits_eq_none_iff]
      exact ⟨fun hlarge => ⟨hds, hlarge⟩, fun hlarge => hlarge.2⟩
  · rw [not_tooLarge_of_scanLexeme h hc]
    refine ⟨fun hfalse => absurd hfalse Bool.false_ne_true, fun hall => absurd (hall.1 c ?_) hc⟩
    obtain ⟨d, ds, hd⟩ := List.exists_cons_of_ne_nil (chars_ne_nil_of_scanLexeme h)
    have htext := chars_scanLexeme h
    rw [hd] at htext ⊢
    cases htext
    exact List.mem_cons_self

theorem diagnosticsFrom_ending (before : List Char) {ps : List Piece}
    (h : ∀ l, .lexeme l ∈ ps →
      (l.tooLarge ↔ l.chars.all Char.isDigit ∧ Whole.limit ≤ Decimal.ofDigits l.chars)) :
    diagnosticsFrom (.ending before) ps = (located before ps).filterMap reportAt := by
  induction ps generalizing before with
  | nil => rfl
  | cons x ps ih =>
    have hrest := ih (before ++ x.chars) fun l hl => h l (List.mem_cons_of_mem _ hl)
    rw [diagnosticsFrom, Place.after_ending, hrest, located, List.filterMap_cons]
    cases x with
    | blank c | skipped c => rfl
    | lexeme l =>
      have hl := h l List.mem_cons_self
      by_cases hlarge : l.tooLarge
      · rw [Piece.complaint?, reportAt, if_pos hlarge, if_pos (hl.1 hlarge)]
        rfl
      · rw [Piece.complaint?, reportAt, if_neg hlarge, if_neg (fun hr => hlarge (hl.2 hr))]

/-- No lexeme spells the end of the input. -/
theorem Lexeme.kind_ne_eof (l : Lexeme) : l.kind ≠ .eof := by
  intro h
  rcases l with ⟨ds, _ | fraction⟩ | cs | body | m | o
  · cases hn : Whole.ofInt? (Decimal.ofDigits ds) with
    | some n =>
      rw [Lexeme.kind_digits_of_some hn] at h
      cases h
    | none =>
      rw [Lexeme.kind_digits_of_none hn] at h
      cases h
  · cases h
  · rw [Lexeme.kind, wordKind] at h
    split at h
    next => cases h
    next => split at h <;> cases h
  all_goals cases h

/-- **A scan accounts for every character of a text, at its true place.**  The
    text is made up of blanks, of lexemes that are as long as they can be, and of
    characters at which no token starts.  The tokens are those of the lexemes,
    each at the start of its lexeme, and one end of the input after them, at
    the end of the text.  The diagnostics are one for every skipped character
    and one for every lexeme of digits whose number exceeds the greatest
    integer, each at the start of its piece. -/
theorem lex_segmentation (source : String) :
    ∃ ps : List Piece, ps.flatMap Piece.chars = source.toList ∧ Segmented source.toList ps ∧
      (∃ ts : List Token, ts = (located [] ps).filterMap tokenAt ∧ (∀ t ∈ ts, t.kind ≠ .eof) ∧
        (lex source).tokens = ts ++ [{ kind := .eof, place := .ending source.toList }]) ∧
      (lex source).diagnostics = (located [] ps).filterMap reportAt := by
  have hstart : Place.start = .ending [] := rfl
  refine ⟨pieces source.toList, chars_pieces _, segmented_pieces _, ⟨_, rfl, ?_, ?_⟩, ?_⟩
  · intro t ht
    obtain ⟨⟨before, x⟩, -, hx⟩ := List.mem_filterMap.1 ht
    cases x with
    | blank c | skipped c => cases hx
    | lexeme l =>
      cases hx
      exact l.kind_ne_eof
  · rw [lex, lexFrom, hstart, tokensFrom_ending, List.nil_append, chars_pieces]
  · rw [lex, lexFrom, hstart]
    refine diagnosticsFrom_ending [] fun l hl => ?_
    obtain ⟨c, cs, rest, hscan⟩ := exists_scanLexeme_of_mem_pieces hl
    exact tooLarge_iff_of_scanLexeme hscan

end Flowline
