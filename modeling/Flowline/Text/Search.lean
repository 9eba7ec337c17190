/-
  Texts within texts.

  * `after? start cs`: what follows `start` at the start of `cs`;
  * `contains s needle`: the text `needle` occurs in `s`;
  * `startsWith s needle`: the text `s` begins with `needle`.
-/

namespace Flowline.Text

/-- What follows some characters at the start of others. -/
def after? : List Char → List Char → Option (List Char)
  | [], cs => some cs
  | _ :: _, [] => none
  | x :: xs, c :: cs => if x = c then after? xs cs else none

theorem after?_eq_some_iff {start cs rest : List Char} :
    after? start cs = some rest ↔ start ++ rest = cs := by
  induction start generalizing cs with
  | nil => simp only [after?, Option.some.injEq, List.nil_append, eq_comm]
  | cons x xs ih =>
    cases cs with
    | nil => simp [after?]
    | cons c cs =>
      rw [after?, List.cons_append, List.cons.injEq]
      split
      next h => simp only [ih, h, true_and]
      next h => simp only [h, false_and, reduceCtorEq]

/-- Whether some characters occur in others without a break. -/
def occursIn (needle : List Char) : List Char → Bool
  | [] => needle.isEmpty
  | c :: cs => (after? needle (c :: cs)).isSome || occursIn needle cs

/-- Whether a text occurs in another. -/
def contains (s needle : String) : Bool :=
  occursIn needle.toList s.toList

/-- Whether a text begins with another. -/
def startsWith (s needle : String) : Bool :=
  (after? needle.toList s.toList).isSome

end Flowline.Text
