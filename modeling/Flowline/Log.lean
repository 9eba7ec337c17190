/-
  The log: what the parts of the program tell about their work.

  * `Level`: how important a record is, and which records are wanted;
  * `Record`: a level, the part of the program that speaks, and a message;
  * `Event.record?`, `Reading.records`, `Scan.records`: the records of an
    evaluation, of a reading and of a scan.
-/
import Flowline.Session
import Flowline.Text.Style

namespace Flowline

/-! ## Levels and records -/

/-- Levels, from nothing at all to everything. -/
inductive Level where
  | off
  | error
  | warn
  | info
  | debug
  | trace
  deriving DecidableEq

namespace Level

/-- Higher levels let more records through. -/
def rank : Level → Nat
  | off => 0
  | error => 1
  | warn => 2
  | info => 3
  | debug => 4
  | trace => 5

/-- The name of a level. -/
def name : Level → String
  | off => "off"
  | error => "error"
  | warn => "warn"
  | info => "info"
  | debug => "debug"
  | trace => "trace"

/-- All levels. -/
def all : List Level :=
  [off, error, warn, info, debug, trace]

/-- The level with the given name, in any case. -/
def ofName? (s : String) : Option Level :=
  all.find? (·.name == s.toLower)

/-- The name of a level as records show it. -/
def tag (l : Level) : String :=
  let text := l.name.toUpper
  match l with
  | off => text
  | error => Text.Style.bold.paint (Text.Style.red.paint text)
  | warn => Text.Style.bold.paint (Text.Style.yellow.paint text)
  | info => Text.Style.green.paint text
  | debug => Text.Style.cyan.paint text
  | trace => Text.Style.brightBlack.paint text

end Level

/-- The parts of the program that speak. -/
inductive Speaker where
  | lexer
  | parser
  | store
  | evaluator
  | symbols
  | config
  | command
  | prompt
  deriving DecidableEq

/-- The name under which a part speaks. -/
def Speaker.name : Speaker → String
  | lexer => "lumen_lexer"
  | parser => "lumen_parser::parser"
  | store => "lumen_syntax::ast"
  | evaluator => "lumen_interpreter::interpreter"
  | symbols => "lumen_interpreter::env"
  | config => "lumen_interpreter::config"
  | command => "lumen"
  | prompt => "lumen::repl"

/-- A record of the log. -/
structure Record where
  level : Level
  speaker : Speaker
  message : String

/-- A record as it is written. -/
def Record.text (r : Record) : String :=
  s!"[{r.level.tag}][{Text.Style.dimmed.paint r.speaker.name}] {r.message}"

/-! ## Evaluation -/

/-- The record of a binding. -/
def Record.bind (name : String) (v : Value) : Record :=
  { level := .debug, speaker := .symbols, message := s!"bind {name} = {v.text}" }

/-- The records of a fresh symbol table. -/
def constantRecords : List Record :=
  constants.map fun (name, v) => Record.bind name v

/-- The record of an event.  A call is told of once its function is found. -/
def Event.record? : Event → Option Record
  | visit id kind =>
    some { level := .trace, speaker := .evaluator, message := s!"eval #{id} {kind.name}" }
  | call _ _ args (some found) =>
    some
      { level := .debug
        speaker := .evaluator
        message := s!"call {found} with {args.length} argument(s)" }
  | call _ _ _ none => none
  | print _ => none
  | recover e =>
    some { level := .debug, speaker := .evaluator, message := s!"recovered: {e.text}" }
  | bind name v => some (Record.bind name v)

/-! ## Scanning and reading -/

/-- The records of a scan: what it reports. -/
def Scan.records (s : Scan) : List Record :=
  s.diagnostics.map fun e => { level := .debug, speaker := .lexer, message := e.text }

/-- How a role is told. -/
def Role.title : Role → String
  | operand => "Operand"
  | condition => "Condition"
  | expression => "Expression"
  | alternate => "Alternate"

/-- The records of operations on a store that holds `next` nodes. -/
def stepRecords (next : Nat) : List Step → List Record
  | [] => []
  | .allocate kind label _ :: steps =>
    { level := .trace
      speaker := .store
      message := s!"allocate #{next} {kind.name} {label}" } :: stepRecords (next + 1) steps
  | .connect parent child role :: steps =>
    { level := .trace
      speaker := .store
      message := s!"connect #{parent} -> #{child} ({role.title})" } :: stepRecords next steps

/-- The records of a reading of the tokens `ts`: the operations on the store,
    and the report if reading stopped within the line. -/
def Reading.records (ts : List Token) (r : Reading) : List Record :=
  stepRecords 0 r.steps ++
    match r with
    | broken f =>
      [{ level := .debug
         speaker := .parser
         message := s!"parse failed: {(f.cause.toError ts f.rest).text}" }]
    | whole _ | trailing _ _ => []

/-- The records of parsing a text. -/
def parseRecords (source : String) : List Record :=
  let s := lex source
  s.records ++ (read s.tokens).records s.tokens

end Flowline
