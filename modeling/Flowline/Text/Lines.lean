/-
  Lines of a text.

  A line ends at a line feed, together with one carriage return right before
  it.  What follows the last line feed is a line only if it is not empty, and
  a carriage return at its end belongs to it.

  * `lines s`: the lines of `s` in order, without their ends;
  * `chunks bs`: the same cut on raw bytes, each chunk with its line feed.
-/

namespace Flowline.Text

/-- The lines of a text given by its characters. -/
def lineChars : List Char → List (List Char)
  | [] => []
  | '\n' :: cs => [] :: lineChars cs
  | '\r' :: '\n' :: cs => [] :: lineChars cs
  | c :: cs =>
    match lineChars cs with
    | [] => [[c]]
    | l :: ls => (c :: l) :: ls

/-- The lines of a text. -/
def lines (s : String) : List String :=
  (lineChars s.toList).map String.ofList

/-- Cut bytes after every line feed; the last chunk may lack it. -/
def chunks : List UInt8 → List (List UInt8)
  | [] => []
  | b :: bs =>
    if b = 10 then [b] :: chunks bs
    else
      match chunks bs with
      | [] => [[b]]
      | l :: ls => (b :: l) :: ls

end Flowline.Text
