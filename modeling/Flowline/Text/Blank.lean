/-
  Blank characters and the trimming of texts.

  A character is blank when it has the Unicode property `White_Space`.  Texts
  are trimmed of blank characters before they are read as a number, as a
  setting or as a command; the scanner of source lines has a narrower notion
  of its own.

  * `isBlank c`: `c` is one of the 25 blank characters;
  * `trim s`: the text `s` without the blank characters at its two ends;
  * `isBlankLine s`: nothing but blank characters in `s`.
-/

namespace Flowline.Text

/-- The blank characters: the control characters from tabulation to carriage
    return, the space, next line, the no-break spaces, the typographic spaces
    and the line and paragraph separators. -/
def isBlank (c : Char) : Bool :=
  let n := c.toNat
  (0x09 ≤ n && n ≤ 0x0D) || n == 0x20 || n == 0x85 || n == 0xA0 || n == 0x1680 ||
    (0x2000 ≤ n && n ≤ 0x200A) || n == 0x2028 || n == 0x2029 || n == 0x202F ||
    n == 0x205F || n == 0x3000

/-- The characters of a text without the blank ones at its two ends. -/
def trimChars (cs : List Char) : List Char :=
  ((cs.dropWhile isBlank).reverse.dropWhile isBlank).reverse

/-- The text without the blank characters at its two ends. -/
def trim (s : String) : String :=
  String.ofList (trimChars s.toList)

/-- A text that holds nothing but blank characters. -/
def isBlankLine (s : String) : Bool :=
  s.toList.all isBlank

end Flowline.Text
