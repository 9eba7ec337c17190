/-
  How tokens are spelled.

  * `Spells cs k`: the characters `cs` spell a token of the kind `k`;
  * `spells_of_scanLexeme`: what is scanned as a lexeme spells a token;
  * `takes_of_spells`: where characters spell a token, the scanner takes these
    characters and perhaps more;
  * `exists_scanLexeme_of_spells`: characters that spell a token are scanned as
    that token.
-/
import Flowline.Token.Lexer
import Mathlib.Data.List.TakeWhile

namespace Flowline

/-! ## Spellings -/

/-- A run of digits. -/
def IsDigits (cs : List Char) : Prop :=
  cs ≠ [] ∧ ∀ c ∈ cs, c.isDigit

/-- A letter, and the letters, digits and underscores after it. -/
def IsWord : List Char → Prop
  | [] => False
  | c :: cs => c.isAlpha ∧ ∀ d ∈ cs, isWordChar d

/-- The words that are not names. -/
def keywords : List String :=
  [Mark.ifWord.spelling, Mark.elseWord.spelling]

/-- The characters spell a token of the kind. -/
inductive Spells : List Char → Kind → Prop where
  /-- Digits whose number fits into 64 bits. -/
  | int {ds : List Char} {n : Int64} (digits : IsDigits ds)
      (value : n.toInt = Decimal.ofDigits ds) : Spells ds (.int n)
  /-- Digits whose number does not. -/
  | large {ds : List Char} (digits : IsDigits ds) (value : Whole.limit ≤ Decimal.ofDigits ds) :
      Spells ds (.float (Decimal.ofFraction ds []))
  /-- Digits, a point, and perhaps more digits. -/
  | decimal {ds es : List Char} (whole : IsDigits ds) (fraction : ∀ c ∈ es, c.isDigit) :
      Spells (ds ++ '.' :: es) (.float (Decimal.ofFraction ds es))
  | ident {cs : List Char} (word : IsWord cs) (name : String.ofList cs ∉ keywords) :
      Spells cs (.ident (String.ofList cs))
  /-- A quote, a body on one line, and a quote. -/
  | str {body : List Char} (line : '\n' ∉ body) :
      Spells ('"' :: (body ++ ['"'])) (.str (String.ofList body))
  | mark (m : Mark) : Spells m.spelling.toList (.mark m)
  | op (o : Operator) : Spells o.spelling.toList (.op o)

/-! ## Lexemes spell tokens -/

theorem Whole.ofInt?_ofDigits_eq_none_iff {ds : List Char} :
    Whole.ofInt? (Decimal.ofDigits ds) = none ↔ Whole.limit ≤ Decimal.ofDigits ds := by
  rw [Whole.ofInt?_eq_none_iff, Whole.limit]
  omega

theorem Lexeme.kind_digits_of_some {ds : List Char} {n : Int64}
    (h : Whole.ofInt? (Decimal.ofDigits ds) = some n) : (Lexeme.number ds none).kind = .int n := by
  rw [Lexeme.kind, h]

theorem Lexeme.kind_digits_of_none {ds : List Char}
    (h : Whole.ofInt? (Decimal.ofDigits ds) = none) :
    (Lexeme.number ds none).kind = .float (Decimal.ofFraction ds []) := by
  rw [Lexeme.kind, h]

theorem spells_digits {ds : List Char} (h : IsDigits ds) :
    Spells ds (Lexeme.number ds none).kind := by
  cases hn : Whole.ofInt? (Decimal.ofDigits ds) with
  | some n =>
    rw [Lexeme.kind_digits_of_some hn]
    exact .int h (Whole.ofInt?_eq_some_iff.1 hn)
  | none =>
    rw [Lexeme.kind_digits_of_none hn]
    exact .large h (Whole.ofInt?_ofDigits_eq_none_iff.1 hn)

theorem isDigits_takeWhile {c : Char} (h : c.isDigit) (cs : List Char) :
    IsDigits ((c :: cs).takeWhile Char.isDigit) := by
  refine ⟨?_, fun d hd => List.mem_takeWhile_imp hd⟩
  rw [List.takeWhile_cons_of_pos h]
  exact List.cons_ne_nil _ _

theorem spells_scanNumber {c : Char} (h : c.isDigit) (cs : List Char) :
    Spells (scanNumber (c :: cs)).1.chars (scanNumber (c :: cs)).1.kind := by
  have hds := isDigits_takeWhile h cs
  rw [scanNumber]
  split
  next rest _ => exact .decimal hds fun d hd => List.mem_takeWhile_imp hd
  next => exact spells_digits hds

theorem spells_word {cs : List Char} (h : IsWord cs) : Spells cs (wordKind (String.ofList cs)) := by
  have hspell {m : Mark} (hm : String.ofList cs = m.spelling) : cs = m.spelling.toList := by
    rw [← hm, String.toList_ofList]
  rw [wordKind]
  split
  next hif =>
    rw [hspell hif]
    exact .mark .ifWord
  next hif =>
    split
    next helse =>
      rw [hspell helse]
      exact .mark .elseWord
    next helse => exact .ident h (by simp [keywords, hif, helse])

theorem isWordChar_of_isAlpha {c : Char} (h : c.isAlpha) : isWordChar c := by
  simp [isWordChar, Char.isAlphanum, h]

theorem IsWord.forall_isWordChar {cs : List Char} (h : IsWord cs) : ∀ c ∈ cs, isWordChar c := by
  cases cs with
  | nil => cases h
  | cons c cs => exact List.forall_mem_cons.2 ⟨isWordChar_of_isAlpha h.1, h.2⟩

theorem isWord_takeWhile {c : Char} (h : c.isAlpha) (cs : List Char) :
    IsWord ((c :: cs).takeWhile isWordChar) := by
  rw [List.takeWhile_cons_of_pos (isWordChar_of_isAlpha h)]
  exact ⟨h, fun d hd => List.mem_takeWhile_imp hd⟩

/-- What stands before the last quote of a line is on that line. -/
theorem newline_notMem_of_splitAtLastQuote {cs body rest : List Char}
    (h : splitAtLastQuote cs = some (body, rest)) : '\n' ∉ body := by
  induction cs generalizing body with
  | nil => cases h
  | cons c cs ih =>
    rw [splitAtLastQuote] at h
    split at h
    next => cases h
    next hc =>
      split at h
      next body' rest' h' =>
        cases h
        exact List.not_mem_cons_of_ne_of_not_mem (Ne.symm hc) (ih h')
      next =>
        split at h
        next =>
          cases h
          exact List.not_mem_nil
        next => cases h

theorem spells_of_mem_signs {l : Lexeme} (h : l ∈ signs) : Spells l.chars l.kind := by
  have hsign : (∃ m, l = .mark m) ∨ ∃ o, l = .op o := by
    revert l
    simp [signs]
  rcases hsign with ⟨m, rfl⟩ | ⟨o, rfl⟩
  · exact .mark m
  · exact .op o

/-- What is scanned as a lexeme spells a token. -/
theorem spells_of_scanLexeme {c : Char} {cs rest : List Char} {l : Lexeme}
    (h : scanLexeme c cs = some (l, rest)) : Spells l.chars l.kind := by
  rw [scanLexeme] at h
  split at h
  next hc =>
    have hs := spells_scanNumber hc cs
    rw [Option.some.inj h] at hs
    exact hs
  next =>
    split at h
    next hc =>
      cases h
      exact spells_word (isWord_takeWhile hc cs)
    next =>
      split at h
      next =>
        obtain ⟨⟨body, rest'⟩, hq, he⟩ := Option.map_eq_some_iff.1 h
        cases he
        exact .str (newline_notMem_of_splitAtLastQuote hq)
      next => exact spells_of_mem_signs (chars_scanSign h).1

/-- No lexeme starts with a blank. -/
theorem scanLexeme_of_isGap {c : Char} (h : isGap c) (cs : List Char) : scanLexeme c cs = none := by
  simp only [isGap, Bool.or_eq_true, beq_iff_eq] at h
  rcases h with (rfl | rfl) | rfl <;> rfl

theorem scan_of_scanLexeme {c : Char} {cs rest : List Char} {l : Lexeme}
    (h : scanLexeme c cs = some (l, rest)) : scan c cs = (.lexeme l, rest) := by
  have hgap : ¬ isGap c := by
    intro hgap
    rw [scanLexeme_of_isGap hgap] at h
    cases h
  rw [scan, if_neg hgap, h]

/-- A lexeme among the pieces of a text is scanned somewhere. -/
theorem exists_scanLexeme_of_mem_pieces {l : Lexeme} {cs : List Char}
    (h : .lexeme l ∈ pieces cs) : ∃ c cs' rest, scanLexeme c cs' = some (l, rest) := by
  fun_induction pieces cs with
  | case1 => cases h
  | case2 c cs ih =>
    rcases List.mem_cons.1 h with hl | hl
    · rw [scan] at hl
      split at hl
      next => cases hl
      next =>
        split at hl
        next l' rest hscan =>
          cases hl
          exact ⟨c, cs, rest, hscan⟩
        next => cases hl
    · exact ih hl

/-! ## Numbers, words, strings and signs -/

theorem scanLexeme_digit {c : Char} (h : c.isDigit) (cs : List Char) :
    scanLexeme c cs = some (scanNumber (c :: cs)) := by
  rw [scanLexeme, if_pos h]

theorem not_isDigit_of_isAlpha {c : Char} (h : c.isAlpha) : c.isDigit = false := by
  change (decide ('A'.val ≤ c.val ∧ c.val ≤ 'Z'.val) || 'a'.val ≤ c.val && c.val ≤ 'z'.val) at h
  simp only [Bool.or_eq_true, Bool.and_eq_true, decide_eq_true_eq, UInt32.le_iff_toNat_le] at h
  simp only [Char.isDigit, Bool.and_eq_false_iff, decide_eq_false_iff_not,
    UInt32.le_iff_toNat_le, ge_iff_le]
  have hA : 'A'.val.toNat = 65 := rfl
  have ha : 'a'.val.toNat = 97 := rfl
  have h9 : '9'.val.toNat = 57 := rfl
  omega

theorem scanLexeme_letter {c : Char} (h : c.isAlpha) (cs : List Char) :
    scanLexeme c cs = some (scanWord (c :: cs)) := by
  rw [scanLexeme, if_neg (by simp [not_isDigit_of_isAlpha h]), if_pos h]

/-- Digits that neither a digit nor a point follows are a number by
    themselves. -/
theorem scanNumber_digits {ds v : List Char} (h : IsDigits ds)
    (hv : ∀ c ∈ v.head?, c.isDigit = false ∧ c ≠ '.') :
    scanNumber (ds ++ v) = (.number ds none, v) := by
  rw [scanNumber, List.takeWhile_append_of_pos h.2, List.dropWhile_append_of_pos h.2]
  cases v with
  | nil => simp
  | cons c v =>
    obtain ⟨hc, hpoint⟩ := hv c rfl
    rw [List.takeWhile_cons_of_neg (by simp [hc]), List.dropWhile_cons_of_neg (by simp [hc])]
    split
    next rest heq =>
      cases heq
      exact absurd rfl hpoint
    next => rw [List.append_nil]

/-- A point after digits is taken, and so are the digits after it. -/
theorem scanNumber_point {ds : List Char} (h : IsDigits ds) (v : List Char) :
    scanNumber (ds ++ '.' :: v) =
      (.number ds (some (v.takeWhile Char.isDigit)), v.dropWhile Char.isDigit) := by
  have hpoint : ¬ Char.isDigit '.' := by decide
  rw [scanNumber, List.takeWhile_append_of_pos h.2, List.dropWhile_append_of_pos h.2,
    List.takeWhile_cons_of_neg hpoint, List.dropWhile_cons_of_neg hpoint, List.append_nil]
  rfl

/-- A body up to a quote on its line is cut there or further on. -/
theorem exists_splitAtLastQuote {body : List Char} (h : '\n' ∉ body) (v : List Char) :
    ∃ b r, splitAtLastQuote (body ++ '"' :: v) = some (b, r) ∧ body.length ≤ b.length := by
  induction body with
  | nil =>
    rw [List.nil_append, splitAtLastQuote, if_neg (by decide)]
    cases hv : splitAtLastQuote v with
    | none => exact ⟨[], v, rfl, Nat.zero_le _⟩
    | some p => exact ⟨'"' :: p.1, p.2, rfl, Nat.zero_le _⟩
  | cons c body ih =>
    obtain ⟨hc, hbody⟩ := List.ne_and_not_mem_of_not_mem_cons h
    obtain ⟨b, r, hsplit, hlen⟩ := ih hbody
    refine ⟨c :: b, r, ?_, Nat.succ_le_succ hlen⟩
    rw [List.cons_append, splitAtLastQuote, if_neg (Ne.symm hc), hsplit]

/-- A quote at the end of the text is the last one. -/
theorem splitAtLastQuote_end {body : List Char} (h : '\n' ∉ body) :
    splitAtLastQuote (body ++ ['"']) = some (body, []) := by
  obtain ⟨b, r, hsplit, hlen⟩ := exists_splitAtLastQuote h []
  have hparts := eq_of_splitAtLastQuote hsplit
  have htotal := congrArg List.length hparts
  simp only [List.length_append, List.length_cons, List.length_nil] at htotal
  obtain rfl : r = [] := List.length_eq_zero_iff.1 (by omega)
  rw [hsplit, List.append_cancel_right hparts]

theorem scanLexeme_quote (cs : List Char) :
    scanLexeme '"' cs = (splitAtLastQuote cs).map fun (body, rest) => (.quoted body, rest) := by
  rw [scanLexeme, if_neg (by decide), if_neg (by decide), if_pos rfl]

/-- The longer signs come first. -/
theorem pairwise_signs : signs.Pairwise fun l l' => l'.chars.length ≤ l.chars.length := by
  decide

theorem head_of_mem_signs {l : Lexeme} (h : l ∈ signs) :
    ∀ c ∈ l.chars.head?, c.isDigit = false ∧ c.isAlpha = false ∧ c ≠ '"' := by
  have hall : ∀ l ∈ signs,
      l.chars.head?.all fun c => !c.isDigit && !c.isAlpha && c != '"' := by decide
  intro c hc
  have hl := hall l h
  rw [Option.mem_def.1 hc] at hl
  simpa [and_assoc] using hl

/-- Where a sign stands, it or a longer one is taken. -/
theorem exists_scanSign {l : Lexeme} (h : l ∈ signs) (v : List Char) :
    ∃ l' rest, scanSign (l.chars ++ v) = some (l', rest) ∧ l.chars.length ≤ l'.chars.length := by
  have hl : (Text.after? l.chars (l.chars ++ v)).map (l, ·) = some (l, v) := by
    rw [Text.after?_eq_some_iff.2 rfl]
    rfl
  cases hs : scanSign (l.chars ++ v) with
  | none =>
    rw [scanSign, List.findSome?_eq_none_iff] at hs
    rw [hs l h] at hl
    cases hl
  | some p =>
    obtain ⟨before, l', after, hsigns, hl', hbefore⟩ := List.findSome?_eq_some_iff.1 hs
    obtain ⟨rest, -, rfl⟩ := Option.map_eq_some_iff.1 hl'
    refine ⟨l', rest, rfl, ?_⟩
    -- the sign is not passed over, so it is the one found or comes after it
    have hpair := pairwise_signs
    rw [hsigns] at h hpair
    rcases List.mem_append.1 h with hmem | hmem
    · rw [hbefore l hmem] at hl
      cases hl
    rcases List.mem_cons.1 hmem with rfl | hmem
    · exact Nat.le_refl _
    · exact (List.pairwise_cons.1 (List.pairwise_append.1 hpair).2.1).1 l hmem

/-! ## The longest lexeme -/

/-- The lexeme that starts a text has at least the given characters. -/
def Takes (u v : List Char) : Prop :=
  ∃ c cs l rest, u ++ v = c :: cs ∧ scanLexeme c cs = some (l, rest) ∧ u.length ≤ l.chars.length

theorem takes_digits {ds : List Char} (h : IsDigits ds) (v : List Char) : Takes ds v := by
  obtain ⟨hne, hds⟩ := h
  obtain ⟨c, cs, rfl⟩ := List.exists_cons_of_ne_nil hne
  refine ⟨c, cs ++ v, (scanNumber (c :: cs ++ v)).1, (scanNumber (c :: cs ++ v)).2, rfl,
    scanLexeme_digit (hds c List.mem_cons_self) _, ?_⟩
  rw [scanNumber, List.takeWhile_append_of_pos hds]
  split <;> simp [Lexeme.chars]

theorem takes_decimal {ds es : List Char} (hds : IsDigits ds) (hes : ∀ c ∈ es, c.isDigit)
    (v : List Char) : Takes (ds ++ '.' :: es) v := by
  have hscan := scanNumber_point hds (es ++ v)
  obtain ⟨c, cs, rfl⟩ := List.exists_cons_of_ne_nil hds.1
  refine ⟨c, cs ++ '.' :: (es ++ v), .number (c :: cs) (some ((es ++ v).takeWhile Char.isDigit)),
    (es ++ v).dropWhile Char.isDigit, by simp, ?_, ?_⟩
  · rw [scanLexeme_digit (hds.2 c List.mem_cons_self), ← hscan]
    rfl
  · rw [List.takeWhile_append_of_pos hes]
    simp [Lexeme.chars]

theorem takes_word {cs : List Char} (h : IsWord cs) (v : List Char) : Takes cs v := by
  have hall := h.forall_isWordChar
  cases cs with
  | nil => cases h
  | cons c cs =>
    refine ⟨c, cs ++ v, _, _, rfl, scanLexeme_letter h.1 _, ?_⟩
    rw [← List.cons_append]
    simp only [Lexeme.chars, List.takeWhile_append_of_pos hall, List.length_append]
    exact Nat.le_add_right _ _

theorem takes_quoted {body : List Char} (h : '\n' ∉ body) (v : List Char) :
    Takes ('"' :: (body ++ ['"'])) v := by
  obtain ⟨b, r, hsplit, hlen⟩ := exists_splitAtLastQuote h v
  refine ⟨'"', body ++ '"' :: v, .quoted b, r, by simp, ?_, ?_⟩
  · rw [scanLexeme_quote, hsplit]
    rfl
  · simpa [Lexeme.chars] using hlen

theorem takes_sign {l : Lexeme} (h : l ∈ signs) (v : List Char) : Takes l.chars v := by
  obtain ⟨l', rest, hs, hlen⟩ := exists_scanSign h v
  obtain ⟨c, cs, hchars⟩ := List.exists_cons_of_ne_nil (chars_ne_nil_of_mem_signs h)
  obtain ⟨hdigit, halpha, hquote⟩ := head_of_mem_signs h c (by rw [hchars]; rfl)
  refine ⟨c, cs ++ v, l', rest, by rw [hchars]; rfl, ?_, hlen⟩
  rw [scanLexeme, if_neg (by simp [hdigit]), if_neg (by simp [halpha]), if_neg hquote, ← hs, hchars]
  rfl

/-- **Where characters spell a token, they are taken, and perhaps more.** -/
theorem takes_of_spells {u : List Char} {k : Kind} (h : Spells u k) (v : List Char) :
    Takes u v := by
  cases h with
  | int hds _ | large hds _ => exact takes_digits hds v
  | decimal hds hes => exact takes_decimal hds hes v
  | ident hw _ => exact takes_word hw v
  | str hbody => exact takes_quoted hbody v
  | mark m =>
    cases m with
    | ifWord => exact takes_word (show IsWord ['i', 'f'] by simp [IsWord, isWordChar]) v
    | elseWord =>
      exact takes_word (show IsWord ['e', 'l', 's', 'e'] by simp [IsWord, isWordChar]) v
    | _ => exact takes_sign (l := .mark _) (by simp [signs]) v
  | op o =>
    refine takes_sign (l := .op o) ?_ v
    rcases o with o | o | o <;> cases o <;> simp [signs]

/-- Digits by themselves are scanned as digits. -/
theorem exists_scanLexeme_digits {ds : List Char} (h : IsDigits ds) :
    ∃ c cs, ds = c :: cs ∧ scanLexeme c cs = some (.number ds none, []) := by
  have hscan := scanNumber_digits (v := []) h (by simp)
  rw [List.append_nil] at hscan
  obtain ⟨c, cs, rfl⟩ := List.exists_cons_of_ne_nil h.1
  exact ⟨c, cs, rfl, by rw [scanLexeme_digit (h.2 c List.mem_cons_self), hscan]⟩

/-- **Characters that spell a token are scanned as that token.** -/
theorem exists_scanLexeme_of_spells {u : List Char} {k : Kind} (h : Spells u k) :
    ∃ c cs l, u = c :: cs ∧ scanLexeme c cs = some (l, []) ∧ l.kind = k := by
  cases h with
  | int hds hn =>
    obtain ⟨c, cs, hcs, hscan⟩ := exists_scanLexeme_digits hds
    exact ⟨c, cs, _, hcs, hscan, Lexeme.kind_digits_of_some (Whole.ofInt?_eq_some_iff.2 hn)⟩
  | large hds hn =>
    obtain ⟨c, cs, hcs, hscan⟩ := exists_scanLexeme_digits hds
    exact ⟨c, cs, _, hcs, hscan,
      Lexeme.kind_digits_of_none (Whole.ofInt?_ofDigits_eq_none_iff.2 hn)⟩
  | @decimal ds es hds hes =>
    have hscan := scanNumber_point hds es
    rw [List.takeWhile_eq_self_iff.2 hes, List.dropWhile_eq_nil_iff.2 hes] at hscan
    obtain ⟨c, cs, rfl⟩ := List.exists_cons_of_ne_nil hds.1
    refine ⟨c, cs ++ '.' :: es, .number (c :: cs) (some es), rfl, ?_, rfl⟩
    rw [scanLexeme_digit (hds.2 c List.mem_cons_self), ← hscan]
    rfl
  | ident hword hname =>
    have hall := hword.forall_isWordChar
    cases u with
    | nil => cases hword
    | cons c cs =>
      refine ⟨c, cs, .word (c :: cs), rfl, ?_, ?_⟩
      · rw [scanLexeme_letter hword.1, scanWord, List.takeWhile_eq_self_iff.2 hall,
          List.dropWhile_eq_nil_iff.2 hall]
      · simp only [keywords, List.mem_cons, List.not_mem_nil, or_false, not_or] at hname
        rw [Lexeme.kind, wordKind, if_neg hname.1, if_neg hname.2]
  | @str body hbody =>
    refine ⟨'"', body ++ ['"'], .quoted body, rfl, ?_, rfl⟩
    rw [scanLexeme_quote, splitAtLastQuote_end hbody]
    rfl
  | mark m => cases m <;> exact ⟨_, _, _, rfl, rfl, rfl⟩
  | op o => rcases o with o | o | o <;> cases o <;> exact ⟨_, _, _, rfl, rfl, rfl⟩

end Flowline
