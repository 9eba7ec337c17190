/-
  The command as a function of its surroundings.

  * `Surroundings`: arguments, environment, files and standard input;
  * `Ending`: exit code and the two output streams;
  * `execute`: from the one to the other.
-/
import Flowline.Command.Prompt

namespace Flowline.Command

/-- What a run of the command depends on. -/
structure Surroundings where
  args : List String
  env : String → Option String
  file : String → Entry
  stdin : ByteArray

/-- What a run of the command ends with. -/
structure Ending where
  code : UInt32
  stdout : String
  stderr : String

/-- The exit code of success and of failure. -/
def exitCode (succeeded : Bool) : UInt32 :=
  if succeeded then 0 else 1

/-- The exit code of a refused command line. -/
def usageCode : UInt32 := 2

/-- How the program is called. -/
def usageText : String := "Usage: lumen [OPTIONS] [FILE]"

/-- What the program does, and what its arguments mean. -/
def helpText : String :=
  "Evaluate Lumen expressions\n\n" ++ usageText ++ "\n\n" ++
  "Arguments:\n" ++
  "  [FILE]  Source file, evaluated one line at a time. Starts the REPL when omitted\n\n" ++
  "Options:\n" ++
  "  -e, --eval <LINE>        Evaluate a single line and exit\n" ++
  "      --lazy               " ++
    "Evaluate only the taken branch of conditionals; short-circuit && and ||\n" ++
  "      --sentinel-errors    " ++
    "Turn failed calls into Error values instead of aborting the line\n" ++
  "      --dump-ast           Print each parsed tree before evaluating it\n" ++
  "      --log-level <LEVEL>  " ++
    "off, error, warn, info, debug or trace (default: $LUMEN_LOG, else warn)\n" ++
  "  -h, --help               Print help\n" ++
  "  -V, --version            Print version"

/-- The name and version of the program. -/
def versionText : String := "lumen 0.1.0"

/-- The outputs and the exit code of a run with options. -/
def runOptions (w : Surroundings) (o : Options) (l : Launch) : List Output × UInt32 :=
  match o.line, o.file with
  | some line, _ =>
    let r := runLine o.showTrees l.session line 1
    (r.outputs, exitCode r.succeeded)
  | none, some path =>
    let (outputs, succeeded) := runFile o.showTrees l.session path (w.file path)
    (outputs, exitCode succeeded)
  | none, none =>
    let inputs := (Text.chunks w.stdin.toList).map fun bs => ByteArray.mk bs.toArray
    (Prompt.banner :: Prompt.converse o.showTrees l.session inputs, 0)

/-- Run the command.  A command line that is refused is answered by the usage
    alone, whatever is wrong with it. -/
def execute (w : Surroundings) : Ending :=
  match Request.ofArgs w.args with
  | .usage => { code := usageCode, stdout := "", stderr := usageText ++ "\n" }
  | .help => { code := 0, stdout := helpText ++ "\n", stderr := "" }
  | .version => { code := 0, stdout := versionText ++ "\n", stderr := "" }
  | .run o =>
    let l := launch o w.env
    let (outputs, code) := runOptions w o l
    let all := l.outputs ++ outputs
    { code
      stdout := String.join (all.map Output.toOut)
      stderr := String.join (all.map (Output.toErr l.level)) }

end Flowline.Command
