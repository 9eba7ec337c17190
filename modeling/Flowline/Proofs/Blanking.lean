/-
  Skipping a character is reading a space in its place.

  * `Spaced cs cs'`: the second text is the first with spaces in place of some
    characters;
  * `scanLexeme_spaced`: what follows a lexeme does not turn it into another one
    when some of its characters become spaces;
  * `pieces_blanked`: with a space for each skipped character a text has the same
    pieces, but for a blank in place of each skipped character;
  * `blankFrom_reported`: the characters at the reported places are the skipped
    ones;
  * `lex_blankUnexpected`: a text whose unexpected characters are replaced by
    spaces has the same tokens, and the same reports but for those on them.
-/
import Flowline.Proofs.Segmentation
import Mathlib

namespace Flowline

/-! ## Spaced texts -/

/-- The second text is the first with spaces in place of some characters, none of
    them a line feed. -/
inductive Spaced : List Char → List Char → Prop where
  | nil : Spaced [] []
  | keep (c : Char) {cs cs' : List Char} (rest : Spaced cs cs') : Spaced (c :: cs) (c :: cs')
  | space {c : Char} {cs cs' : List Char} (hc : c ≠ '\n') (rest : Spaced cs cs') :
      Spaced (c :: cs) (' ' :: cs')

namespace Spaced

theorem append_left (u : List Char) {cs cs' : List Char} (h : Spaced cs cs') :
    Spaced (u ++ cs) (u ++ cs') := by
  induction u with
  | nil => exact h
  | cons c u ih => exact .keep c ih

variable {cs cs' : List Char}

/-- What holds of a space and of the first character of a text holds of the first
    character with spaces in place of some. -/
theorem forall_head? {P : Char → Prop} (hspace : P ' ') (h : Spaced cs cs')
    (hcs : ∀ c ∈ cs.head?, P c) : ∀ c ∈ cs'.head?, P c := by
  cases h with
  | nil => exact hcs
  | keep c _ => exact hcs
  | space _ _ =>
    rintro _ ⟨⟩
    exact hspace

/-- A run of characters that no space goes on with ends where it did. -/
theorem takeWhile_append {p : Char → Bool} (hp : ¬ p ' ') {u : List Char} (hu : ∀ c ∈ u, p c)
    (h : Spaced (cs.dropWhile p) cs') :
    (u ++ cs').takeWhile p = u ∧ (u ++ cs').dropWhile p = cs' := by
  have hhead : ∀ c ∈ cs'.head?, ¬ p c := by
    refine h.forall_head? hp fun c hc => ?_
    have hnot := List.head?_dropWhile_not p cs
    rw [Option.mem_def.1 hc] at hnot
    simpa using hnot
  rw [List.takeWhile_append_of_pos hu, List.dropWhile_append_of_pos hu]
  cases cs' with
  | nil => simp
  | cons c cs' =>
    have hc := hhead c rfl
    rw [List.takeWhile_cons_of_neg hc, List.dropWhile_cons_of_neg hc, List.append_nil]
    exact ⟨rfl, rfl⟩

/-- Characters without a space stood at the start before. -/
theorem after? {start rest' : List Char} (hstart : ' ' ∉ start) (h : Spaced cs cs')
    (hafter : Text.after? start cs' = some rest') : ∃ rest, Text.after? start cs = some rest := by
  induction start generalizing cs cs' with
  | nil => exact ⟨cs, rfl⟩
  | cons x xs ih =>
    obtain ⟨hx, hxs⟩ := List.ne_and_not_mem_of_not_mem_cons hstart
    cases h with
    | nil => cases hafter
    | keep c h =>
      rw [Text.after?] at hafter ⊢
      split at hafter
      next hc =>
        rw [if_pos hc]
        exact ih hxs h hafter
      next => cases hafter
    | space _ h =>
      rw [Text.after?, if_neg (Ne.symm hx)] at hafter
      cases hafter

/-- A line without a quote is left without one. -/
theorem splitAtLastQuote_eq_none (h : Spaced cs cs') (hcs : splitAtLastQuote cs = none) :
    splitAtLastQuote cs' = none := by
  induction h with
  | nil => rfl
  | keep c h ih =>
    rw [splitAtLastQuote] at hcs ⊢
    split
    next => rfl
    next hc =>
      rw [if_neg hc] at hcs
      split at hcs
      next => cases hcs
      next hnone =>
        split at hcs
        next => cases hcs
        next hquote => rw [ih hnone, if_neg hquote]
  | space hc h ih =>
    rw [splitAtLastQuote, if_neg hc] at hcs
    rw [splitAtLastQuote, if_neg (by decide)]
    split at hcs
    next => cases hcs
    next hnone =>
      rw [ih hnone]
      rfl

end Spaced

/-! ## Lexemes -/

theorem splitAtLastQuote_append {body rest : List Char} (hbody : '\n' ∉ body)
    (hrest : splitAtLastQuote rest = none) :
    splitAtLastQuote (body ++ '"' :: rest) = some (body, rest) := by
  induction body with
  | nil => rw [List.nil_append, splitAtLastQuote, if_neg (by decide), hrest, if_pos rfl]
  | cons c body ih =>
    obtain ⟨hc, hbody⟩ := List.ne_and_not_mem_of_not_mem_cons hbody
    rw [List.cons_append, splitAtLastQuote, if_neg (Ne.symm hc), ih hbody]

/-- No quote is left on the line after the last one. -/
theorem splitAtLastQuote_rest {cs body rest : List Char}
    (h : splitAtLastQuote cs = some (body, rest)) : splitAtLastQuote rest = none := by
  induction cs generalizing body with
  | nil => cases h
  | cons c cs ih =>
    rw [splitAtLastQuote] at h
    split at h
    next => cases h
    next =>
      split at h
      next hcs =>
        cases h
        exact ih hcs
      next hnone =>
        split at h
        next =>
          cases h
          exact hnone
        next => cases h

section
variable {cs rest rest' : List Char} {l : Lexeme}

theorem scanNumber_spaced {c : Char} (hc : c.isDigit) (hscan : scanNumber (c :: cs) = (l, rest))
    (h : Spaced rest rest') : scanNumber (l.chars ++ rest') = (l, rest') := by
  have hds := isDigits_takeWhile hc cs
  rw [scanNumber] at hscan
  split at hscan
  next after _ =>
    cases hscan
    obtain ⟨htake, hdrop⟩ := h.takeWhile_append (by decide)
      (u := after.takeWhile Char.isDigit) fun d hd => List.mem_takeWhile_imp hd
    rw [Lexeme.chars, List.append_assoc, List.cons_append, scanNumber_point hds, htake, hdrop]
  next hpoint =>
    cases hscan
    refine scanNumber_digits hds (h.forall_head? (by decide) fun d hd => ⟨?_, ?_⟩)
    · have hnot := List.head?_dropWhile_not Char.isDigit (c :: cs)
      rw [Option.mem_def.1 hd] at hnot
      simpa using hnot
    · rintro rfl
      obtain ⟨after, hafter⟩ := List.head?_eq_some_iff.1 hd
      exact hpoint after hafter

theorem scanWord_spaced {c : Char} (hscan : scanWord (c :: cs) = (l, rest))
    (h : Spaced rest rest') : scanWord (l.chars ++ rest') = (l, rest') := by
  cases hscan
  obtain ⟨htake, hdrop⟩ := h.takeWhile_append (by decide)
    (u := (c :: cs).takeWhile isWordChar) fun d hd => List.mem_takeWhile_imp hd
  rw [Lexeme.chars, scanWord, htake, hdrop]

theorem space_notMem_of_mem_signs (h : l ∈ signs) : ' ' ∉ l.chars := by
  revert l
  decide

/-- A longer sign does not come about where a sign was found. -/
theorem scanSign_spaced (hscan : scanSign cs = some (l, rest)) (h : Spaced rest rest') :
    scanSign (l.chars ++ rest') = some (l, rest') := by
  obtain ⟨before, m, after, hsigns, hm, hbefore⟩ := List.findSome?_eq_some_iff.1 hscan
  obtain ⟨_, hrest, heq⟩ := Option.map_eq_some_iff.1 hm
  cases heq
  refine List.findSome?_eq_some_iff.2 ⟨before, l, after, hsigns, ?_, fun m hmem => ?_⟩
  · rw [Text.after?_eq_some_iff.2 rfl]
    rfl
  · have hm : m ∈ signs := by
      rw [hsigns]
      exact List.mem_append_left _ hmem
    have hnone := Option.map_eq_none_iff.1 (hbefore m hmem)
    rw [Option.map_eq_none_iff, Option.eq_none_iff_forall_ne_some]
    intro r hr
    obtain ⟨r', hr'⟩ := (h.append_left l.chars).after? (space_notMem_of_mem_signs hm) hr
    rw [Text.after?_eq_some_iff.1 hrest, hnone] at hr'
    cases hr'

/-- **Spaces after a lexeme leave it as it is.** -/
theorem scanLexeme_spaced {c : Char} (hscan : scanLexeme c cs = some (l, rest))
    (h : Spaced rest rest') :
    ∃ cs', l.chars ++ rest' = c :: cs' ∧ scanLexeme c cs' = some (l, rest') := by
  obtain ⟨u, hu⟩ : ∃ u, l.chars = c :: u := by
    have hchars := chars_scanLexeme hscan
    obtain ⟨d, u, hdu⟩ := List.exists_cons_of_ne_nil (chars_ne_nil_of_scanLexeme hscan)
    rw [hdu, List.cons_append] at hchars
    cases hchars
    exact ⟨u, hdu⟩
  refine ⟨u ++ rest', by rw [hu, List.cons_append], ?_⟩
  have hcons : c :: (u ++ rest') = l.chars ++ rest' := by rw [hu, List.cons_append]
  rw [scanLexeme] at hscan ⊢
  split at hscan
  next hc =>
    rw [if_pos hc, hcons, scanNumber_spaced hc (Option.some.inj hscan) h]
  next hdigit =>
    rw [if_neg hdigit]
    split at hscan
    next hc =>
      rw [if_pos hc, hcons, scanWord_spaced (Option.some.inj hscan) h]
    next halpha =>
      rw [if_neg halpha]
      split at hscan
      next hc =>
        obtain ⟨⟨body, _⟩, hsplit, heq⟩ := Option.map_eq_some_iff.1 hscan
        cases heq
        obtain rfl : u = body ++ ['"'] := (List.cons.inj hu).2.symm
        have hline := newline_notMem_of_splitAtLastQuote hsplit
        have hrest := h.splitAtLastQuote_eq_none (splitAtLastQuote_rest hsplit)
        rw [if_pos hc, List.append_assoc, List.singleton_append,
          splitAtLastQuote_append hline hrest]
        rfl
      next hquote =>
        rw [if_neg hquote, hcons, scanSign_spaced hscan h]

end

/-! ## Pieces -/

/-- A space for a skipped character; any other piece as it is. -/
def Piece.blanked : Piece → Piece
  | skipped _ => blank ' '
  | x => x

theorem Piece.blanked_eq_self_or (x : Piece) : x.blanked = x ∨ ∃ c, x = .skipped c := by
  cases x with
  | blank c | lexeme l => exact .inl rfl
  | skipped c => exact .inr ⟨c, rfl⟩

theorem Segmented.spaced {cs : List Char} {ps : List Piece} (h : Segmented cs ps) :
    Spaced cs (ps.flatMap fun x => x.blanked.chars) := by
  induction h with
  | nil => exact .nil
  | @blank c _ _ _ _ ih => exact .keep c ih
  | @lexeme l _ _ _ _ _ ih => exact ih.append_left l.chars
  | @skipped c _ _ hgap _ _ ih =>
    refine .space ?_ ih
    rintro rfl
    simp at hgap

/-- **A text with a space for each skipped character falls into the same pieces**, but
    for those spaces. -/
theorem pieces_blanked (cs : List Char) :
    pieces ((pieces cs).flatMap fun x => x.blanked.chars) = (pieces cs).map Piece.blanked := by
  fun_induction pieces cs with
  | case1 => rw [List.flatMap_nil, pieces, List.map_nil]
  | case2 c cs ih =>
    rw [List.flatMap_cons, List.map_cons]
    rw [scan] at ih ⊢
    split at ih
    next hgap =>
      rw [if_pos hgap, ← ih]
      show pieces (c :: _) = _
      rw [pieces, scan, if_pos hgap]
      rfl
    next hgap =>
      rw [if_neg hgap]
      cases hscan : scanLexeme c cs with
      | some found =>
        obtain ⟨l, rest⟩ := found
        rw [hscan] at ih
        obtain ⟨cs', htext, hscan'⟩ := scanLexeme_spaced hscan (segmented_pieces rest).spaced
        show pieces (l.chars ++ _) = _
        rw [htext, pieces, scan_of_scanLexeme hscan', ← ih]
        rfl
      | none =>
        rw [hscan] at ih
        rw [← ih]
        show pieces (' ' :: _) = _
        rw [pieces]
        rfl

/-! ## Tokens and reports -/

/-- The report is on a character that starts no token. -/
def Error.isUnexpectedCharacter (e : Error) : Bool :=
  Text.startsWith e.message "Unexpected character"

theorem Place.after_space {c : Char} (hc : c ∉ [' ', '\t', '\n']) (p : Place) :
    p.after [' '] = p.after [c] := by
  have hne : c ≠ '\n' := by
    rintro rfl
    simp at hc
  show p.next ' ' = p.next c
  rw [Place.next, Place.next, if_neg (by decide), if_neg hne]

theorem Segmented.tokensFrom_blanked {cs : List Char} {ps : List Piece} (h : Segmented cs ps)
    (p : Place) : tokensFrom p (ps.map Piece.blanked) = tokensFrom p ps := by
  induction h generalizing p with
  | nil => rfl
  | blank _ _ ih => exact ih _
  | @lexeme l _ _ _ _ _ ih =>
    rw [List.map_cons, tokensFrom, tokensFrom, ← ih]
    rfl
  | @skipped c _ _ hgap _ _ ih =>
    show tokensFrom (p.after [' ']) _ = tokensFrom (p.after [c]) _
    rw [Place.after_space hgap]
    exact ih _

/-- What is reported about a lexeme is not that it is unexpected. -/
theorem exists_diagnosticsFrom_lexeme (p : Place) (l : Lexeme) :
    ∃ es : List Error, (∀ e ∈ es, e.isUnexpectedCharacter = false) ∧
      ∀ ps : List Piece,
        diagnosticsFrom p (.lexeme l :: ps) = es ++ diagnosticsFrom (p.after l.chars) ps := by
  cases hl : l.tooLarge with
  | false =>
    refine ⟨[], by simp, fun ps => ?_⟩
    rw [diagnosticsFrom, Piece.complaint?, if_neg (by simp [hl])]
    rfl
  | true =>
    let message := "Integer literal '" ++ String.ofList l.chars ++ "' out of range, read as a float"
    refine ⟨[{ kind := .lexical, message, line := some p.line, col := some p.col }],
      List.forall_mem_singleton.2 ?_, fun ps => ?_⟩
    · simp [message, Error.isUnexpectedCharacter, Text.startsWith, Text.after?]
    · rw [diagnosticsFrom, Piece.complaint?, if_pos hl]
      rfl

theorem exists_diagnosticsFrom_skipped (p : Place) (c : Char) :
    ∃ e : Error, e.isUnexpectedCharacter ∧ e.line = some p.line ∧ e.col = some p.col ∧
      ∀ ps : List Piece,
        diagnosticsFrom p (.skipped c :: ps) = e :: diagnosticsFrom (p.after [c]) ps := by
  refine ⟨_, ?_, rfl, rfl, fun ps => rfl⟩
  simp [Error.isUnexpectedCharacter, Text.startsWith, Text.after?]

theorem Segmented.diagnosticsFrom_blanked {cs : List Char} {ps : List Piece}
    (h : Segmented cs ps) (p : Place) :
    diagnosticsFrom p (ps.map Piece.blanked) =
      (diagnosticsFrom p ps).filter fun e => !e.isUnexpectedCharacter := by
  induction h generalizing p with
  | nil => rfl
  | blank _ _ ih => exact ih _
  | @lexeme l _ _ _ _ _ ih =>
    obtain ⟨es, hes, hl⟩ := exists_diagnosticsFrom_lexeme p l
    have hkept : es.filter (fun e => !e.isUnexpectedCharacter) = es :=
      List.filter_eq_self.2 fun e he => by rw [hes e he, Bool.not_false]
    rw [List.map_cons, hl, List.filter_append, hkept, ← ih]
    exact hl _
  | @skipped c _ _ hgap _ _ ih =>
    obtain ⟨e, he, -, -, hc⟩ := exists_diagnosticsFrom_skipped p c
    rw [hc, List.filter_cons_of_neg (by simp [he]), ← Place.after_space hgap, ← ih]
    rfl

/-! ## Reported places -/

/-- One of the reports is on an unexpected character at the place. -/
def reported (es : List Error) (p : Place) : Bool :=
  es.any fun e => e.isUnexpectedCharacter && e.line == some p.line && e.col == some p.col

/-- The characters from a place on, with a space for each character at a marked place. -/
def blankFrom (marked : Place → Bool) (p : Place) : List Char → List Char
  | [] => []
  | c :: cs => (if marked p then ' ' else c) :: blankFrom marked (p.next c) cs

/-- The text with a space for each character that its scan reports as unexpected. -/
def blankUnexpected (source : String) : String :=
  String.ofList (blankFrom (reported (lex source).diagnostics) .start source.toList)

/-- Where a place stands among the places of a text. -/
def Place.key (p : Place) : ℕ ×ₗ ℕ :=
  toLex (p.line, p.col)

theorem Place.key_lt_next (p : Place) (c : Char) : p.key < (p.next c).key := by
  rw [key, key, Prod.Lex.toLex_lt_toLex, next]
  split
  next => exact .inl (Nat.lt_succ_self _)
  next => exact .inr ⟨rfl, Nat.lt_succ_self _⟩

theorem Place.key_le_after (p : Place) (cs : List Char) : p.key ≤ (p.after cs).key := by
  induction cs generalizing p with
  | nil => exact le_rfl
  | cons c cs ih => exact (p.key_lt_next c).le.trans (ih _)

section
variable {marked : Place → Bool} {p q : Place}

theorem blankFrom_append (cs ds : List Char) :
    blankFrom marked p (cs ++ ds) = blankFrom marked p cs ++ blankFrom marked (p.after cs) ds := by
  induction cs generalizing p with
  | nil => rfl
  | cons c cs ih =>
    rw [List.cons_append, blankFrom, ih]
    rfl

theorem blankFrom_eq_self {cs : List Char}
    (h : ∀ q, p.key ≤ q.key → q.key < (p.after cs).key → marked q = false) :
    blankFrom marked p cs = cs := by
  induction cs generalizing p with
  | nil => rfl
  | cons c cs ih =>
    have hp : p.key < (p.after (c :: cs)).key := (p.key_lt_next c).trans_le (Place.key_le_after _ cs)
    have hrest : blankFrom marked (p.next c) cs = cs :=
      ih fun q hq => h q ((p.key_lt_next c).le.trans hq)
    rw [blankFrom, hrest, h p le_rfl hp, if_neg Bool.false_ne_true]

theorem reported_kept {x : Piece} (hx : x.blanked = x) (ps : List Piece) :
    reported (diagnosticsFrom p (x :: ps)) q =
      reported (diagnosticsFrom (p.after x.chars) ps) q := by
  cases x with
  | blank c => rfl
  | lexeme l =>
    obtain ⟨es, hes, hl⟩ := exists_diagnosticsFrom_lexeme p l
    have hnone : reported es q = false :=
      List.any_eq_false.2 fun e he => by simp [hes e he]
    rw [hl, reported, List.any_append]
    show (reported es q || _) = _
    rw [hnone, Bool.false_or]
    rfl
  | skipped c => cases hx

theorem reported_skipped (c : Char) (ps : List Piece) :
    reported (diagnosticsFrom p (.skipped c :: ps)) q =
      (decide (p.key = q.key) || reported (diagnosticsFrom (p.after [c]) ps) q) := by
  obtain ⟨e, he, hline, hcol, hc⟩ := exists_diagnosticsFrom_skipped p c
  rw [hc, reported, List.any_cons]
  congr 1
  simp [he, hline, hcol, Place.key, Bool.decide_and, Bool.beq_eq_decide_eq]

/-- Nothing is reported before the place of the first piece. -/
theorem reported_of_lt {ps : List Piece} (h : q.key < p.key) :
    reported (diagnosticsFrom p ps) q = false := by
  induction ps generalizing p with
  | nil => rfl
  | cons x ps ih =>
    have hrest := ih (h.trans_le (p.key_le_after x.chars))
    rcases x.blanked_eq_self_or with hx | ⟨c, rfl⟩
    · exact (reported_kept hx ps).trans hrest
    · rw [reported_skipped, decide_eq_false h.ne', Bool.false_or]
      exact hrest

/-- **The reports tell the skipped characters**: with a space at each place that is
    reported, the characters of pieces are those of the pieces with a space for each
    skipped character. -/
theorem blankFrom_reported {es : List Error} {ps : List Piece}
    (h : ∀ q, p.key ≤ q.key → reported es q = reported (diagnosticsFrom p ps) q) :
    blankFrom (reported es) p (ps.flatMap Piece.chars) =
      ps.flatMap fun x => x.blanked.chars := by
  -- the reports before `p` say nothing about the characters after it
  induction ps generalizing p with
  | nil => rfl
  | cons x ps ih =>
    rw [List.flatMap_cons, List.flatMap_cons, blankFrom_append]
    rcases x.blanked_eq_self_or with hx | ⟨c, rfl⟩
    · have hle := p.key_le_after x.chars
      have hreported {q : Place} (hq : p.key ≤ q.key) :
          reported es q = reported (diagnosticsFrom (p.after x.chars) ps) q :=
        (h q hq).trans (reported_kept hx ps)
      have hhead : blankFrom (reported es) p x.chars = x.chars :=
        blankFrom_eq_self fun q hq hlt => (hreported hq).trans (reported_of_lt hlt)
      rw [hhead, ih fun q hq => hreported (hle.trans hq), hx]
    · have hlt : p.key < (p.after [c]).key := p.key_lt_next c
      have hp : reported es p = true := by
        rw [h p le_rfl, reported_skipped, decide_eq_true rfl, Bool.true_or]
      have hhead : blankFrom (reported es) p [c] = [' '] := by
        rw [blankFrom, if_pos hp, blankFrom]
      have hrest := ih (p := p.after [c]) fun q hq => by
        rw [h q (hlt.le.trans hq), reported_skipped, decide_eq_false (hlt.trans_le hq).ne,
          Bool.false_or]
      exact congrArg₂ _ hhead hrest

end

/-! ## Texts -/

/-- **Skipping a character is reading a space in its place.**  A text with a space for
    each character that is reported as unexpected has the same tokens, each at the same
    place, and the same reports in the same order but for those on unexpected
    characters. -/
theorem lex_blankUnexpected (source : String) :
    (lex (blankUnexpected source)).tokens = (lex source).tokens ∧
      (lex (blankUnexpected source)).diagnostics =
        (lex source).diagnostics.filter fun e => !e.isUnexpectedCharacter := by
  have hseg := segmented_pieces source.toList
  have htext : (blankUnexpected source).toList =
      (pieces source.toList).flatMap fun x => x.blanked.chars := by
    have hblank : blankFrom (reported (lex source).diagnostics) .start _ = _ :=
      blankFrom_reported fun q _ => rfl
    rw [chars_pieces] at hblank
    rw [blankUnexpected, String.toList_ofList, hblank]
  have hpieces : pieces (blankUnexpected source).toList =
      (pieces source.toList).map Piece.blanked := by
    rw [htext, pieces_blanked]
  constructor
  · show tokensFrom .start (pieces _) = _
    rw [hpieces, hseg.tokensFrom_blanked]
    rfl
  · show diagnosticsFrom .start (pieces _) = _
    rw [hpieces, hseg.diagnosticsFrom_blanked]
    rfl

end Flowline
