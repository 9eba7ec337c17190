/-
  Scanning goes line by line.

  * `Place.shift`: a place after more characters on more lines before it;
  * `tokensFrom_shift`, `diagnosticsFrom_shift`: a scan that starts at a shifted
    place gives shifted tokens and reports;
  * `exists_tokensFrom_append`, `diagnosticsFrom_append`: the tokens and reports of
    pieces one after another;
  * `lex_append_newline`: two texts with a line feed between them are scanned as
    the one and then the other.
-/
import Flowline.Proofs.Locality
import Flowline.Proofs.Segmentation

namespace Flowline

/-! ## Shifted places -/

/-- The place with more characters and more lines before it, in the same
    column. -/
def Place.shift (chars lines : Nat) (p : Place) : Place :=
  { p with offset := p.offset + chars, line := p.line + lines }

/-- The token at the shifted place. -/
def Token.shift (chars lines : Nat) (t : Token) : Token :=
  { t with place := t.place.shift chars lines }

/-- The report with more lines before its place. -/
def Error.shift (lines : Nat) (e : Error) : Error :=
  { e with line := e.line.map (· + lines) }

section
variable (chars lines : Nat)

theorem Place.next_shift (p : Place) (c : Char) :
    (p.shift chars lines).next c = (p.next c).shift chars lines := by
  rw [Place.next, Place.next]
  split <;> simp only [Place.shift, Nat.add_right_comm]

theorem Place.after_shift (p : Place) (cs : List Char) :
    (p.shift chars lines).after cs = (p.after cs).shift chars lines := by
  induction cs generalizing p with
  | nil => rfl
  | cons c cs ih =>
    show ((p.shift chars lines).next c).after cs = _
    rw [Place.next_shift, ih]
    rfl

theorem tokensFrom_shift (p : Place) (ps : List Piece) :
    tokensFrom (p.shift chars lines) ps = (tokensFrom p ps).map (Token.shift chars lines) := by
  induction ps generalizing p with
  | nil => rfl
  | cons x ps ih =>
    rw [tokensFrom, tokensFrom, Place.after_shift, ih]
    cases x.kind? <;> rfl

theorem diagnosticsFrom_shift (p : Place) (ps : List Piece) :
    diagnosticsFrom (p.shift chars lines) ps =
      (diagnosticsFrom p ps).map (Error.shift lines) := by
  induction ps generalizing p with
  | nil => rfl
  | cons x ps ih =>
    rw [diagnosticsFrom, diagnosticsFrom, Place.after_shift, ih]
    cases x.complaint? <;> rfl

end

/-! ## Pieces one after another -/

theorem Place.after_append (p : Place) (cs ds : List Char) :
    p.after (cs ++ ds) = (p.after cs).after ds :=
  List.foldl_append

/-- The tokens of pieces in a row are those of the first ones, but for their end of
    the input, and then those of the others. -/
theorem exists_tokensFrom_append (p : Place) (ps : List Piece) :
    ∃ ts : List Token, ∀ qs : List Piece,
      tokensFrom p (ps ++ qs) = ts ++ tokensFrom (p.after (ps.flatMap Piece.chars)) qs := by
  induction ps generalizing p with
  | nil => exact ⟨[], fun _ => rfl⟩
  | cons x ps ih =>
    obtain ⟨ts, hts⟩ := ih (p.after x.chars)
    cases hk : x.kind? with
    | none =>
      refine ⟨ts, fun qs => ?_⟩
      rw [List.cons_append, tokensFrom, hk, List.flatMap_cons, Place.after_append]
      exact hts qs
    | some k =>
      refine ⟨{ kind := k, place := p } :: ts, fun qs => ?_⟩
      rw [List.cons_append, tokensFrom, hk, List.flatMap_cons, Place.after_append]
      exact congrArg _ (hts qs)

theorem diagnosticsFrom_append (p : Place) (ps qs : List Piece) :
    diagnosticsFrom p (ps ++ qs) =
      diagnosticsFrom p ps ++ diagnosticsFrom (p.after (ps.flatMap Piece.chars)) qs := by
  induction ps generalizing p with
  | nil => rfl
  | cons x ps ih =>
    rw [List.cons_append, diagnosticsFrom, diagnosticsFrom, ih, List.flatMap_cons,
      Place.after_append]
    cases x.complaint? <;> rfl

/-! ## Texts -/

/-- A text and a line feed move the start of what follows by their characters and
    lines. -/
theorem Place.next_after_start (cs : List Char) :
    (Place.start.after cs).next '\n' = Place.start.shift (cs.length + 1) (cs.count '\n' + 1) := by
  have hend : Place.start.after cs = .ending cs := Place.after_ending [] cs
  rw [hend, Place.next, if_pos rfl]
  simp only [Place.ending, Place.shift, Place.start, Nat.zero_add, Nat.add_assoc]

/-- **Scanning goes line by line.**  The tokens of two texts with a line feed between
    them are those of the first text without its end of the input, and then those of
    the second; the reports are those of the first text, and then those of the second.
    What comes from the second text stands in the same column, after the characters of
    the first text and one more, and after its line feeds and one more. -/
theorem lex_append_newline (s t : String) :
    (∃ (ts : List Token) (finish : Place),
      (lex s).tokens = ts ++ [{ kind := .eof, place := finish }] ∧
        (lex (s ++ "\n" ++ t)).tokens =
          ts ++ (lex t).tokens.map (Token.shift (s.length + 1) (s.toList.count '\n' + 1))) ∧
      (lex (s ++ "\n" ++ t)).diagnostics =
        (lex s).diagnostics ++
          (lex t).diagnostics.map (Error.shift (s.toList.count '\n' + 1)) := by
  have htext : (s ++ "\n" ++ t).toList = s.toList ++ '\n' :: t.toList := by simp
  have hpieces := pieces_append_newline s.toList t.toList
  have hstart := Place.next_after_start s.toList
  constructor
  · obtain ⟨ts, hts⟩ := exists_tokensFrom_append .start (pieces s.toList)
    refine ⟨ts, _, (congrArg _ (List.append_nil _).symm).trans (hts []), ?_⟩
    simp only [lex, lexFrom, htext, hpieces, hts, chars_pieces]
    rw [← String.length_toList, ← tokensFrom_shift, ← hstart]
    rfl
  · simp only [lex, lexFrom, htext, hpieces, diagnosticsFrom_append, chars_pieces]
    rw [← diagnosticsFrom_shift, ← hstart]
    rfl

end Flowline
