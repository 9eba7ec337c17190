/-
  The parser accepts just the sentences of the grammar, and lays out the tree
  of their only derivation.

  * `parseTokens_eq_ok_iff`, `parseTokens_eq_error_iff`: what a list of tokens is
    laid out as, and when it is not laid out;
  * `parseTokens_iff_derivable`: the parser and the grammar agree.
-/
import Flowline.Proofs.Completeness
import Flowline.Proofs.Layout
import Mathlib.Logic.ExistsUnique

namespace Flowline

/-- Tokens are laid out as the line of a derivation of their sentence. -/
theorem parseTokens_eq_ok_iff {ts : List Token} {a : Ast} :
    parseTokens ts = .ok a ↔
      ∃ d : Derivation .line, d.Nearest ∧ d.yield = sentence ts ∧ a = d.meaning.store := by
  constructor
  · intro h
    rw [parseTokens] at h
    cases hr : read ts with
    | whole l =>
      rw [hr, Reading.tree_whole] at h
      cases h
      obtain ⟨d, hd, hyield, rfl⟩ := read_eq_whole_iff.1 hr
      exact ⟨d, hd, hyield, rfl⟩
    | trailing l rest =>
      rw [hr] at h
      cases h
    | broken f =>
      rw [hr] at h
      cases h
  · rintro ⟨d, hd, hyield, rfl⟩
    rw [parseTokens, read_eq_whole_iff.2 ⟨d, hd, hyield, rfl⟩]
    exact Reading.tree_whole ts d.meaning

/-- Laying out fails just with the report on the reading. -/
theorem parseTokens_eq_error_iff {ts : List Token} {e : Error} :
    parseTokens ts = .error e ↔ (read ts).error? ts = some e := by
  rw [parseTokens]
  cases read ts with
  | whole l =>
    rw [Reading.tree_whole]
    exact ⟨nofun, nofun⟩
  | trailing l rest => simp [Reading.tree, Reading.error?]
  | broken f => simp [Reading.tree, Reading.error?]

/-- Tokens that form no line are an error of the grammar. -/
theorem kind_of_parseTokens_eq_error {ts : List Token} {e : Error}
    (h : parseTokens ts = .error e) : e.kind = .grammar := by
  rw [parseTokens] at h
  cases hr : read ts with
  | whole l =>
    rw [hr, Reading.tree_whole] at h
    cases h
  | trailing l rest =>
    rw [hr] at h
    cases h
    rfl
  | broken f =>
    rw [hr] at h
    cases h
    rfl

/-- **Tokens are accepted just if their kinds before the first end of the
    input can be derived from the grammar.  The derivation is unique once every
    `else` belongs to the nearest conditional that lacks one, and what is laid
    out is the tree of that derivation.  All other tokens are an error of the
    grammar.** -/
theorem parseTokens_iff_derivable (ts : List Token) :
    ((∃ a, parseTokens ts = .ok a) ↔ Derivable .line (sentence ts)) ∧
      (Derivable .line (sentence ts) →
        ∃! d : Derivation .line, d.Nearest ∧ d.yield = sentence ts) ∧
      (∀ a, parseTokens ts = .ok a → ∀ d : Derivation .line, d.Nearest → d.yield = sentence ts →
        a.line? = some (d.meaning.tree 1)) ∧
      (∀ e, parseTokens ts = .error e → e.kind = .grammar) := by
  refine ⟨⟨?_, ?_⟩, ?_, ?_, fun e => kind_of_parseTokens_eq_error⟩
  · rintro ⟨a, ha⟩
    obtain ⟨d, -, hyield, -⟩ := parseTokens_eq_ok_iff.1 ha
    exact ⟨d, hyield⟩
  · rintro ⟨d, hyield⟩
    obtain ⟨d', hd', hyield'⟩ := d.exists_nearest
    exact ⟨_, parseTokens_eq_ok_iff.2 ⟨d', hd', hyield'.trans hyield, rfl⟩⟩
  · rintro ⟨d, hyield⟩
    obtain ⟨d', hd', hyield'⟩ := d.exists_nearest
    refine ⟨d', ⟨hd', hyield'.trans hyield⟩, ?_⟩
    rintro d'' ⟨hd'', hyield''⟩
    exact Derivation.eq_of_yield hd'' hd' (hyield''.trans (hyield'.trans hyield).symm)
  · intro a ha d hd hyield
    obtain ⟨d', hd', hyield', rfl⟩ := parseTokens_eq_ok_iff.1 ha
    obtain rfl := Derivation.eq_of_yield hd hd' (hyield.trans hyield'.symm)
    exact d.meaning.line?_store

end Flowline
