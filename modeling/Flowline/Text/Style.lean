/-
  Terminal styles: colours and weights as control sequences around a text.

  * `Style.paint st s`: the text `s` in the style `st`.  Painting a painted
    text puts the new style outermost.
-/

namespace Flowline.Text

/-- The styles in use. -/
inductive Style where
  | bold
  | dimmed
  | red
  | green
  | yellow
  | cyan
  | brightBlack
  | brightBlue
  deriving DecidableEq

/-- The number that switches a style on. -/
def Style.on : Style → String
  | bold => "1"
  | dimmed => "2"
  | red => "31"
  | green => "32"
  | yellow => "33"
  | cyan => "36"
  | brightBlack => "90"
  | brightBlue => "94"

/-- The number that switches a style off: weights fall back to plain text,
    colours to the default colour. -/
def Style.off : Style → String
  | bold | dimmed => "0"
  | red | green | yellow | cyan | brightBlack | brightBlue => "39"

/-- A control sequence with the given number. -/
def control (code : String) : String :=
  "\x1b[" ++ code ++ "m"

/-- The text in the given style. -/
def Style.paint (st : Style) (s : String) : String :=
  control st.on ++ s ++ control st.off

end Flowline.Text
