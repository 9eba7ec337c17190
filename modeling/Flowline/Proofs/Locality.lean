/-
  No piece of a text crosses a line feed.

  * `scanLexeme_append_newline`: a lexeme is scanned alike before the end of the
    text and before a line feed;
  * `pieces_append_newline`: the pieces of two texts with a line feed between
    them are the pieces of the one and of the other, with a blank between them.
-/
import Flowline.Token.Lexer

namespace Flowline

/-! ## Runs of characters -/

theorem takeWhile_append_newline {p : Char → Bool} (hp : ¬ p '\n') (cs t : List Char) :
    (cs ++ '\n' :: t).takeWhile p = cs.takeWhile p := by
  rw [List.takeWhile_append, List.takeWhile_cons_of_neg hp, List.append_nil]
  split
  next h => exact ((List.takeWhile_prefix p).eq_of_length h).symm
  next => rfl

theorem dropWhile_append_newline {p : Char → Bool} (hp : ¬ p '\n') (cs t : List Char) :
    (cs ++ '\n' :: t).dropWhile p = cs.dropWhile p ++ '\n' :: t := by
  rw [List.dropWhile_append, List.dropWhile_cons_of_neg hp]
  split
  next h => rw [List.isEmpty_iff.1 h, List.nil_append]
  next => rfl

/-! ## Lexemes -/

theorem scanNumber_append_newline (cs t : List Char) :
    scanNumber (cs ++ '\n' :: t) = ((scanNumber cs).1, (scanNumber cs).2 ++ '\n' :: t) := by
  have hp : ¬ Char.isDigit '\n' := by decide
  rw [scanNumber, scanNumber, takeWhile_append_newline hp, dropWhile_append_newline hp]
  cases hrest : cs.dropWhile Char.isDigit with
  | nil => rfl
  | cons c rest =>
    by_cases hc : c = '.'
    · subst hc
      simp only [List.cons_append, takeWhile_append_newline hp, dropWhile_append_newline hp]
    · simp [hc]

theorem scanWord_append_newline (cs t : List Char) :
    scanWord (cs ++ '\n' :: t) = ((scanWord cs).1, (scanWord cs).2 ++ '\n' :: t) := by
  have hp : ¬ isWordChar '\n' := by decide
  rw [scanWord, scanWord, takeWhile_append_newline hp, dropWhile_append_newline hp]

theorem splitAtLastQuote_append_newline (cs t : List Char) :
    splitAtLastQuote (cs ++ '\n' :: t) =
      (splitAtLastQuote cs).map fun (body, rest) => (body, rest ++ '\n' :: t) := by
  induction cs with
  | nil => simp [splitAtLastQuote]
  | cons c cs ih =>
    rw [List.cons_append, splitAtLastQuote, splitAtLastQuote, ih]
    split
    next => rfl
    next =>
      cases splitAtLastQuote cs with
      | some p => rfl
      | none =>
        by_cases hc : c = '"'
        · simp [hc]
        · simp [hc]

theorem after?_append_newline {start : List Char} (h : '\n' ∉ start) (cs t : List Char) :
    Text.after? start (cs ++ '\n' :: t) = (Text.after? start cs).map (· ++ '\n' :: t) := by
  induction start generalizing cs with
  | nil => rfl
  | cons x xs ih =>
    obtain ⟨hx, hxs⟩ := List.ne_and_not_mem_of_not_mem_cons h
    cases cs with
    | nil => simp [Text.after?, Ne.symm hx]
    | cons c cs =>
      rw [List.cons_append, Text.after?, Text.after?, ih hxs]
      split <;> rfl

theorem newline_notMem_of_mem_signs : ∀ l ∈ signs, '\n' ∉ l.chars := by
  decide

theorem scanSign_append_newline (cs t : List Char) :
    scanSign (cs ++ '\n' :: t) = (scanSign cs).map fun (l, rest) => (l, rest ++ '\n' :: t) := by
  have h := newline_notMem_of_mem_signs
  rw [scanSign, scanSign]
  generalize signs = ls at h
  induction ls with
  | nil => rfl
  | cons l ls ih =>
    obtain ⟨hl, hls⟩ := List.forall_mem_cons.1 h
    rw [List.findSome?_cons, List.findSome?_cons, after?_append_newline hl, ih hls]
    cases Text.after? l.chars cs <;> rfl

/-- A lexeme is scanned alike before the end of the text and before a line
    feed. -/
theorem scanLexeme_append_newline (c : Char) (cs t : List Char) :
    scanLexeme c (cs ++ '\n' :: t) =
      (scanLexeme c cs).map fun (l, rest) => (l, rest ++ '\n' :: t) := by
  rw [scanLexeme, scanLexeme]
  split
  next => exact congrArg some (scanNumber_append_newline (c :: cs) t)
  next =>
    split
    next => exact congrArg some (scanWord_append_newline (c :: cs) t)
    next =>
      split
      next =>
        rw [splitAtLastQuote_append_newline, Option.map_map, Option.map_map]
        rfl
      next => exact scanSign_append_newline (c :: cs) t

/-! ## Texts -/

theorem scan_append_newline (c : Char) (cs t : List Char) :
    scan c (cs ++ '\n' :: t) = ((scan c cs).1, (scan c cs).2 ++ '\n' :: t) := by
  rw [scan, scan, scanLexeme_append_newline]
  split
  next => rfl
  next => cases scanLexeme c cs <;> rfl

/-- **No piece crosses a line feed.** -/
theorem pieces_append_newline (cs t : List Char) :
    pieces (cs ++ '\n' :: t) = pieces cs ++ .blank '\n' :: pieces t := by
  fun_induction pieces cs with
  | case1 =>
    rw [List.nil_append, pieces]
    rfl
  | case2 c cs ih => rw [List.cons_append, pieces, scan_append_newline, ih, List.cons_append]

end Flowline
