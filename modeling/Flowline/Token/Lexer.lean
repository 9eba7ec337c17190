/-
  From a text to its tokens.

  A text falls into pieces: single blanks, lexemes, and characters that belong
  to nothing and are skipped.  Scanning never fails.  Tokens and diagnostics
  are two views of the pieces, and the place of each is the place after the
  characters before it.

  * `scan`: the first piece of a text and what follows it;
  * `pieces`: all pieces; `chars_pieces`: together they are the text;
  * `lex`: the tokens, closed by the end of the input, and the diagnostics.
-/
import Flowline.Token.Lexeme
import Flowline.Error
import Flowline.Text.Search

namespace Flowline

/-! ## Pieces -/

/-- A piece of a text. -/
inductive Piece where
  /-- A space, a tabulation or a line feed. -/
  | blank (c : Char)
  /-- The spelling of a token. -/
  | lexeme (l : Lexeme)
  /-- A character that starts no token. -/
  | skipped (c : Char)

/-- The characters of a piece. -/
def Piece.chars : Piece → List Char
  | blank c | skipped c => [c]
  | lexeme l => l.chars

/-- The blanks between tokens. -/
def isGap (c : Char) : Bool :=
  c == ' ' || c == '\t' || c == '\n'

/-- The characters of a word after its first letter. -/
def isWordChar (c : Char) : Bool :=
  c.isAlphanum || c == '_'

/-- Digits, an optional point, and the digits after it. -/
def scanNumber (cs : List Char) : Lexeme × List Char :=
  let whole := cs.takeWhile Char.isDigit
  match cs.dropWhile Char.isDigit with
  | '.' :: rest =>
    (.number whole (some (rest.takeWhile Char.isDigit)), rest.dropWhile Char.isDigit)
  | rest => (.number whole none, rest)

/-- The longest run of word characters. -/
def scanWord (cs : List Char) : Lexeme × List Char :=
  (.word (cs.takeWhile isWordChar), cs.dropWhile isWordChar)

/-- Cut at the last quote of the current line: what stands before it, and what
    follows it. -/
def splitAtLastQuote : List Char → Option (List Char × List Char)
  | [] => none
  | c :: cs =>
    if c = '\n' then none
    else
      match splitAtLastQuote cs with
      | some (body, rest) => some (c :: body, rest)
      | none => if c = '"' then some ([], cs) else none

/-- The longest sign that starts the text. -/
def scanSign (cs : List Char) : Option (Lexeme × List Char) :=
  signs.findSome? fun l => (Text.after? l.chars cs).map (l, ·)

/-- The lexeme that starts with the character `c` before `cs`.  A string runs
    to the last quote of its line, so a quote without a partner on its line
    starts nothing. -/
def scanLexeme (c : Char) (cs : List Char) : Option (Lexeme × List Char) :=
  if c.isDigit then some (scanNumber (c :: cs))
  else if c.isAlpha then some (scanWord (c :: cs))
  else if c = '"' then
    (splitAtLastQuote cs).map fun (body, rest) => (.quoted body, rest)
  else scanSign (c :: cs)

/-- The first piece of a text, and what follows it. -/
def scan (c : Char) (cs : List Char) : Piece × List Char :=
  if isGap c then (.blank c, cs)
  else
    match scanLexeme c cs with
    | some (l, rest) => (.lexeme l, rest)
    | none => (.skipped c, cs)

/-! ## A piece is a part of the text -/

theorem chars_scanNumber (cs : List Char) :
    (scanNumber cs).1.chars ++ (scanNumber cs).2 = cs := by
  unfold scanNumber
  have h := List.takeWhile_append_dropWhile (p := Char.isDigit) (l := cs)
  split
  next rest hrest =>
    have hr := List.takeWhile_append_dropWhile (p := Char.isDigit) (l := rest)
    simp only [Lexeme.chars, List.append_assoc, List.cons_append, hr]
    rw [← hrest, h]
  next => simpa only [Lexeme.chars] using h

theorem chars_scanWord (cs : List Char) :
    (scanWord cs).1.chars ++ (scanWord cs).2 = cs := by
  simp only [scanWord, Lexeme.chars, List.takeWhile_append_dropWhile]

theorem eq_of_splitAtLastQuote {cs body rest : List Char}
    (h : splitAtLastQuote cs = some (body, rest)) : body ++ '"' :: rest = cs := by
  induction cs generalizing body with
  | nil => simp [splitAtLastQuote] at h
  | cons c cs ih =>
    rw [splitAtLastQuote] at h
    split at h
    · simp at h
    · split at h
      next body' rest' h' =>
        simp only [Option.some.injEq, Prod.mk.injEq] at h
        obtain ⟨rfl, rfl⟩ := h
        simp [ih h']
      next =>
        split at h
        next hc =>
          simp only [Option.some.injEq, Prod.mk.injEq] at h
          obtain ⟨rfl, rfl⟩ := h
          simp [hc]
        next => simp at h

theorem chars_scanSign {cs : List Char} {l : Lexeme} {rest : List Char}
    (h : scanSign cs = some (l, rest)) : l ∈ signs ∧ l.chars ++ rest = cs := by
  obtain ⟨m, hm, hl⟩ := List.exists_of_findSome?_eq_some h
  obtain ⟨r, hr, he⟩ := Option.map_eq_some_iff.1 hl
  simp only [Prod.mk.injEq] at he
  obtain ⟨rfl, rfl⟩ := he
  exact ⟨hm, Text.after?_eq_some_iff.1 hr⟩

theorem chars_scanLexeme {c : Char} {cs rest : List Char} {l : Lexeme}
    (h : scanLexeme c cs = some (l, rest)) : l.chars ++ rest = c :: cs := by
  unfold scanLexeme at h
  split at h
  · simp only [Option.some.injEq] at h
    simpa only [h] using chars_scanNumber (c :: cs)
  · split at h
    · simp only [Option.some.injEq] at h
      simpa only [h] using chars_scanWord (c :: cs)
    · split at h
      next hc =>
        obtain ⟨⟨body, rest'⟩, hq, he⟩ := Option.map_eq_some_iff.1 h
        simp only [Prod.mk.injEq] at he
        obtain ⟨rfl, rfl⟩ := he
        simp [Lexeme.chars, hc, eq_of_splitAtLastQuote hq]
      next => exact (chars_scanSign h).2

/-- A piece and what follows it make up the text. -/
theorem chars_scan (c : Char) (cs : List Char) :
    (scan c cs).1.chars ++ (scan c cs).2 = c :: cs := by
  unfold scan
  split
  · rfl
  · split
    next l rest h => exact chars_scanLexeme h
    next => rfl

theorem chars_ne_nil_of_mem_signs {l : Lexeme} (h : l ∈ signs) : l.chars ≠ [] := by
  simp only [signs, List.mem_cons, List.not_mem_nil, or_false] at h
  rcases h with rfl | rfl | rfl | rfl | rfl | rfl | rfl | rfl | rfl | rfl | rfl | rfl | rfl | rfl |
    rfl | rfl | rfl | rfl | rfl | rfl <;> decide

theorem chars_ne_nil_of_scanLexeme {c : Char} {cs rest : List Char} {l : Lexeme}
    (h : scanLexeme c cs = some (l, rest)) : l.chars ≠ [] := by
  unfold scanLexeme at h
  split at h
  next hc =>
    simp only [Option.some.injEq, scanNumber] at h
    split at h <;> (obtain ⟨rfl, rfl⟩ := h; simp [Lexeme.chars, hc])
  next =>
    split at h
    next hc =>
      simp only [Option.some.injEq, scanWord, Prod.mk.injEq] at h
      obtain ⟨rfl, rfl⟩ := h
      simp [Lexeme.chars, isWordChar, Char.isAlphanum, hc]
    next =>
      split at h
      next =>
        obtain ⟨⟨body, rest'⟩, _, he⟩ := Option.map_eq_some_iff.1 h
        simp only [Prod.mk.injEq] at he
        obtain ⟨rfl, rfl⟩ := he
        simp [Lexeme.chars]
      next => exact chars_ne_nil_of_mem_signs (chars_scanSign h).1

/-- No piece is empty. -/
theorem chars_scan_ne_nil (c : Char) (cs : List Char) : (scan c cs).1.chars ≠ [] := by
  unfold scan
  split
  · simp [Piece.chars]
  · split
    next l rest h => exact chars_ne_nil_of_scanLexeme h
    next => simp [Piece.chars]

/-- What follows a piece is shorter than the text. -/
theorem length_scan_le (c : Char) (cs : List Char) : (scan c cs).2.length ≤ cs.length := by
  have h := congrArg List.length (chars_scan c cs)
  have hp := List.length_pos_iff.2 (chars_scan_ne_nil c cs)
  simp only [List.length_append, List.length_cons] at h
  omega

/-! ## All pieces -/

/-- The pieces of a text, in order. -/
def pieces : List Char → List Piece
  | [] => []
  | c :: cs => (scan c cs).1 :: pieces (scan c cs).2
termination_by cs => cs.length
decreasing_by exact Nat.lt_succ_of_le (length_scan_le c cs)

/-- **The pieces of a text make up the text.** -/
theorem chars_pieces (cs : List Char) : (pieces cs).flatMap Piece.chars = cs := by
  fun_induction pieces cs with
  | case1 => rfl
  | case2 c cs ih => rw [List.flatMap_cons, ih, chars_scan]

/-! ## Tokens and diagnostics -/

/-- The kind of token that a piece spells. -/
def Piece.kind? : Piece → Option Kind
  | lexeme l => some l.kind
  | blank _ | skipped _ => none

/-- What is reported about a piece. -/
def Piece.complaint? : Piece → Option String
  | blank _ => none
  | lexeme l =>
    if l.tooLarge then
      some ("Integer literal '" ++ String.ofList l.chars ++ "' out of range, read as a float")
    else none
  | skipped c => some ("Unexpected character '" ++ String.singleton c ++ "'")

/-- The tokens of consecutive pieces, the first of them at the given place,
    closed by the end of the input. -/
def tokensFrom (p : Place) : List Piece → List Token
  | [] => [{ kind := .eof, place := p }]
  | x :: xs =>
    let rest := tokensFrom (p.after x.chars) xs
    match x.kind? with
    | some k => { kind := k, place := p } :: rest
    | none => rest

/-- The reports on consecutive pieces, the first of them at the given place. -/
def diagnosticsFrom (p : Place) : List Piece → List Error
  | [] => []
  | x :: xs =>
    let rest := diagnosticsFrom (p.after x.chars) xs
    match x.complaint? with
    | some message =>
      { kind := .lexical, message, line := some p.line, col := some p.col } :: rest
    | none => rest

/-- The outcome of scanning a text. -/
structure Scan where
  /-- The tokens, the last of them the end of the input. -/
  tokens : List Token
  /-- The reports on skipped characters and on integers too large. -/
  diagnostics : List Error
  /-- The place at which the scan ended. -/
  finish : Place

/-- Scan a text that starts at the given place. -/
def lexFrom (p : Place) (cs : List Char) : Scan :=
  let ps := pieces cs
  { tokens := tokensFrom p ps
    diagnostics := diagnosticsFrom p ps
    finish := p.after cs }

/-- Scan a text from its start. -/
def lex (source : String) : Scan :=
  lexFrom .start source.toList

/-- Scan on from where a scan ended: nothing is left but the end of the input. -/
def Scan.resume (s : Scan) : Scan :=
  lexFrom s.finish []

/-- The kinds of the tokens of a text, without the end of the input. -/
def kinds (source : String) : List Kind :=
  (pieces source.toList).filterMap Piece.kind?

end Flowline
