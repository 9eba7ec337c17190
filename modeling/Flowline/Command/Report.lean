/-
  Reports on a terminal.

  * `Output`: what the program writes, in order, to its two streams;
  * `report`, `warn`: an error that ends a line, and a problem that does not,
    each with the place it points at;
  * `advice`: what to do about an error.
-/
import Flowline.Log
import Flowline.Text.Lines
import Flowline.Text.Search

namespace Flowline.Command

open Text (Style)

/-! ## Output -/

/-- A piece of output. -/
inductive Output where
  /-- To the standard output. -/
  | out (text : String)
  /-- To the standard error stream. -/
  | err (text : String)
  /-- A log record, to the standard error stream if its level is wanted. -/
  | log (r : Record)

/-- A line on the standard output. -/
def Output.outLine (text : String) : Output :=
  .out (text ++ "\n")

/-- A line on the standard error stream. -/
def Output.errLine (text : String) : Output :=
  .err (text ++ "\n")

/-- What goes to the standard output. -/
def Output.toOut : Output → String
  | out text => text
  | err _ | log _ => ""

/-- What goes to the standard error stream under a log level. -/
def Output.toErr (level : Level) : Output → String
  | out _ => ""
  | err text => text
  | log r => if r.level.rank ≤ level.rank then r.text ++ "\n" else ""

/-! ## Places -/

/-- A text filled up with spaces on the left. -/
def padLeft (width : Nat) (s : String) : String :=
  String.ofList (List.replicate (width - s.length) ' ') ++ s

/-- Point at the place of an error in a source that stands at line `lineno` of
    its input. -/
def pointAt (e : Error) (source : String) (lineno : Nat) : List Output :=
  match e.line, e.col with
  | some line, some col =>
    let shown := lineno + line - 1
    .errLine s!"  --> line {shown}, column {col}" ::
      match (Text.lines source)[line - 1]? with
      | some text =>
        let gutter := padLeft 3 (toString shown) ++ " | "
        let indent := String.ofList (List.replicate (gutter.length + (col - 1)) ' ')
        [.errLine (Style.brightBlack.paint gutter ++ text),
         .errLine (Style.red.paint (indent ++ "^"))]
      | none => []
  | _, _ => []

/-! ## Advice -/

/-- What to do about an error, and examples of it. -/
def advice (e : Error) : Option (String × List String) :=
  let mentions := Text.contains e.message
  match e.kind with
  | .undefinedVariable =>
    some ("assign a value before reading it.", ["Example: width = 640"])
  | .unknownFunction =>
    some ("check the function name for typos.",
      ["Built-ins: max, min, abs, round, len, str, int, float, gen_vector, gen_matrix, print",
       "Math: sqrt, sin, cos, tan, exp, log, floor, ceil, hypot, pow"])
  | .notCallable => some ("this name holds a value, not a function.", [])
  | .callFailure =>
    some ("the function rejected its arguments.",
      ["Run with --sentinel-errors to keep going with an Error value"])
  | .type =>
    if mentions "error" then
      some ("an earlier call failed and left an Error value behind.", [])
    else if Text.startsWith e.message "Cannot add" then
      some ("'+' works on two numbers, two strings or two lists.", [])
    else none
  | .divisionByZero => some ("check the divisor before dividing.", [])
  | .grammar =>
    if mentions "'('" || mentions "')'" then some ("check that parentheses are balanced.", [])
    else if mentions "'='" then some ("use '==' for comparison, '=' for assignment.", [])
    else if mentions "'->'" then
      some ("a flow must be assigned: out = src -> f() -> g()", [])
    else none
  | .lexical | .overflow | .internal => none

/-- Advice as it is written. -/
def adviceLines (e : Error) : List Output :=
  match advice e with
  | none => []
  | some (help, examples) =>
    .errLine (Style.yellow.paint ("Help: " ++ help)) ::
      examples.map fun x => .errLine ("    " ++ Style.brightBlack.paint x)

/-! ## Reports -/

/-- The first line of a report: what kind of problem, and which. -/
def headline (colour : Style) (e : Error) : Output :=
  .errLine (Style.bold.paint (colour.paint e.kind.describe) ++ ": " ++ colour.paint e.message)

/-- A problem that a line recovers from. -/
def warn (source : String) (lineno : Nat) (e : Error) : List Output :=
  headline .yellow e :: pointAt e source lineno

/-- An error that ends a line. -/
def report (source : String) (lineno : Nat) (e : Error) : List Output :=
  headline .red e :: pointAt e source lineno ++ adviceLines e

end Flowline.Command
