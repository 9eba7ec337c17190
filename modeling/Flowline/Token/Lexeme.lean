/-
  Lexemes: tokens as they are spelled.

  A lexeme keeps the characters of its token, so that a text can be put
  together again from its pieces; what the token means is computed from it.

  * `Lexeme.chars`: the characters of a lexeme;
  * `Lexeme.kind`: the kind of token that it spells;
  * `Lexeme.tooLarge`: digits whose number does not fit into 64 bits;
  * `signs`: the lexemes that are neither words nor literals, those of two
    characters first.
-/
import Flowline.Token
import Flowline.Decimal.Reader
import Flowline.Number.Whole

namespace Flowline

/-- The spelling of one token. -/
inductive Lexeme where
  /-- Digits, and the digits after a point if there is one. -/
  | number (whole : List Char) (fraction : Option (List Char))
  /-- A letter and the letters, digits and underscores after it. -/
  | word (cs : List Char)
  /-- The characters between two quotes. -/
  | quoted (body : List Char)
  /-- A mark that is not a keyword. -/
  | mark (m : Mark)
  | op (o : Operator)

/-- The characters of a lexeme. -/
def Lexeme.chars : Lexeme → List Char
  | number whole none => whole
  | number whole (some fraction) => whole ++ '.' :: fraction
  | word cs => cs
  | quoted body => '"' :: (body ++ ['"'])
  | mark m => m.spelling.toList
  | op o => o.spelling.toList

/-- The signs of the language.  The first of them that starts a text is the
    longest one, because those of two characters come first. -/
def signs : List Lexeme :=
  [.mark .arrow, .op (.compare .eq), .op (.compare .ge), .op (.compare .le),
   .op (.compare .ne), .op (.logic .and), .op (.logic .or),
   .mark .lparen, .mark .rparen, .mark .comma, .mark .colon, .mark .question,
   .mark .equal, .op (.arith .plus), .op (.arith .minus), .op (.arith .times),
   .op (.arith .divide), .op (.arith .power), .op (.compare .gt), .op (.compare .lt)]

/-- Digits without a point whose number exceeds the 64-bit range. -/
def Lexeme.tooLarge : Lexeme → Bool
  | number whole none => (Whole.ofInt? (Decimal.ofDigits whole)).isNone
  | _ => false

/-- The kind of token that a word spells. -/
def wordKind (s : String) : Kind :=
  if s = Mark.ifWord.spelling then .mark .ifWord
  else if s = Mark.elseWord.spelling then .mark .elseWord
  else .ident s

/-- The kind of token that a lexeme spells.  Digits too large for an integer
    are read as a float. -/
def Lexeme.kind : Lexeme → Kind
  | number whole none =>
    match Whole.ofInt? (Decimal.ofDigits whole) with
    | some n => .int n
    | none => .float (Decimal.ofFraction whole [])
  | number whole (some fraction) => .float (Decimal.ofFraction whole fraction)
  | word cs => wordKind (String.ofList cs)
  | quoted body => .str (String.ofList body)
  | mark m => .mark m
  | op o => .op o

end Flowline
