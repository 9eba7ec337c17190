/-
  Texts between quotes.

  Inside the quotes, a double quote, a backslash and the common control
  characters are written with a backslash, other characters that cannot be
  seen by their number, and all else as it is.

  * `quote s`: the text `s` between double quotes.
-/
import Flowline.Text.Unseen

namespace Flowline.Text

/-- A character by its number in hexadecimal digits. -/
def numbered (c : Char) : List Char :=
  "\\u\x7b".toList ++ Nat.toDigits 16 c.toNat ++ "\x7d".toList

/-- A character as it is written between quotes. -/
def quoteChar (c : Char) : List Char :=
  match c with
  | '"' => ['\\', '"']
  | '\\' => ['\\', '\\']
  | '\n' => ['\\', 'n']
  | '\r' => ['\\', 'r']
  | '\t' => ['\\', 't']
  | '\x00' => ['\\', '0']
  | c => if isUnseen c then numbered c else [c]

/-- The text between double quotes. -/
def quote (s : String) : String :=
  "\"" ++ String.ofList (s.toList.flatMap quoteChar) ++ "\""

end Flowline.Text
