/-
  Tokens: the words of a line.

  * `Kind`: numbers, names, strings, marks, operators and the end of the input;
  * `Kind.text`: how a kind is written, `Kind.category` the name of its class;
  * `Token`: a kind with the place of its first character.
-/
import Flowline.Operator
import Flowline.Decimal.Notation

namespace Flowline

/-! ## Places -/

/-- A place in a source text. -/
structure Place where
  /-- The number of characters before it. -/
  offset : Nat
  /-- The line, from one. -/
  line : Nat
  /-- The column, from one. -/
  col : Nat
  deriving DecidableEq

/-- The first place of a text. -/
def Place.start : Place :=
  { offset := 0, line := 1, col := 1 }

/-- The place after one more character: a line feed opens a new line. -/
def Place.next (p : Place) (c : Char) : Place :=
  if c = '\n' then { offset := p.offset + 1, line := p.line + 1, col := 1 }
  else { p with offset := p.offset + 1, col := p.col + 1 }

/-- The place after a run of characters. -/
def Place.after (p : Place) (cs : List Char) : Place :=
  cs.foldl Place.next p

/-! ## Kinds -/

/-- Keywords, punctuation and the two connecting signs. -/
inductive Mark where
  /-- The keyword `if`. -/
  | ifWord
  /-- The keyword `else`. -/
  | elseWord
  | lparen
  | rparen
  | comma
  | colon
  /-- The question mark of the short conditional. -/
  | question
  /-- The assignment sign `=`. -/
  | equal
  /-- The flow arrow `->`. -/
  | arrow
  deriving DecidableEq

/-- How a mark is written. -/
def Mark.spelling : Mark → String
  | ifWord => "if"
  | elseWord => "else"
  | lparen => "("
  | rparen => ")"
  | comma => ","
  | colon => ":"
  | question => "?"
  | equal => "="
  | arrow => "->"

/-- What a token is. -/
inductive Kind where
  /-- A number written without a point. -/
  | int (n : Int64)
  /-- A number written with a point. -/
  | float (x : Float)
  /-- The name of a variable or of a function. -/
  | ident (name : String)
  /-- A string, without its quotes. -/
  | str (body : String)
  | mark (m : Mark)
  | op (o : Operator)
  /-- The end of the input. -/
  | eof

/-- How a kind is written in messages. -/
def Kind.text : Kind → String
  | int n => toString n.toInt
  | float x => Decimal.text x
  | ident name => name
  | str body => "\"" ++ body ++ "\""
  | mark m => m.spelling
  | op o => o.spelling
  | eof => "end of input"

/-- The name of the class of a mark. -/
def Mark.category : Mark → String
  | ifWord => "IF"
  | elseWord => "ELSE"
  | lparen => "LPAREN"
  | rparen => "RPAREN"
  | comma => "COMMA"
  | colon => "COLON"
  | question => "QUESTION"
  | equal => "SETTO"
  | arrow => "CONNECT"

/-- The name of the class of a kind; each operator is a class of its own. -/
def Kind.category : Kind → String
  | int _ | float _ => "NUMBER"
  | ident _ => "VARIABLE"
  | str _ => "STRING"
  | mark m => m.category
  | op (.arith .plus) => "PLUS"
  | op (.arith .minus) => "MINUS"
  | op (.arith .times) => "TIMES"
  | op (.arith .divide) => "DIVIDE"
  | op (.arith .power) => "EXP"
  | op (.compare .gt) => "GT"
  | op (.compare .lt) => "LT"
  | op (.compare .ge) => "GE"
  | op (.compare .le) => "LE"
  | op (.compare .eq) => "EQ"
  | op (.compare .ne) => "NE"
  | op (.logic .and) => "AND"
  | op (.logic .or) => "OR"
  | eof => "EOF"

/-! ## Tokens -/

/-- A kind with the place of its first character. -/
structure Token where
  kind : Kind
  place : Place

end Flowline
