/-
  The prompt: lines read and run one at a time.

  * `step`: what one line of input does, and the session after it unless it
    was the last;
  * `converse`: a whole conversation.
-/
import Flowline.Command.Run

namespace Flowline.Command.Prompt

open Text (Style)

/-- The first line of a conversation. -/
def banner : Output :=
  .outLine (Style.green.paint (Style.bold.paint "Lumen REPL. Type :help for help, exit to quit."))

/-- What asks for a line. -/
def prompt : Output :=
  .out (Style.cyan.paint "lumen> ")

/-- The list of commands. -/
def help : List Output :=
  let entry (name text : String) : Output :=
    .outLine ("  " ++ Style.yellow.paint name ++ "  " ++ text)
  [.outLine (Style.bold.paint "Commands:"),
   entry "exit" "Leave the REPL (also :quit)",
   entry "symbols" "List the symbol table (also :vars)",
   entry ":reset" "Forget every binding except e and pi",
   entry ":help" "Show this help",
   .outLine "Anything else is evaluated as one line, e.g. 'x = 2 ^ 8' or 'if (x > 100): 1 else: 0'."]

/-- The symbol table, a line for each name. -/
def table (s : Shell) : List Output :=
  match s.symbols.listing with
  | [] => [.outLine (Style.dimmed.paint "<no symbols>")]
  | rows =>
    rows.map fun (name, shown) =>
      .outLine (Style.yellow.paint name ++ " = " ++ Style.brightBlue.paint shown)

/-- What a line of input asks for. -/
inductive Wish where
  | nothing
  | leave
  | symbols
  | help
  | reset
  | unknownCommand
  | evaluate (source : String)

/-- What a line of input asks for, blanks at its ends aside. -/
def Wish.ofInput (input : String) : Wish :=
  let s := Text.trim input
  match s with
  | "" => nothing
  | "exit" | ":quit" | ":q" => leave
  | "symbols" | ":vars" => symbols
  | ":help" | ":h" => help
  | ":reset" => reset
  | _ => if Text.startsWith s ":" then unknownCommand else evaluate s

/-- Do what a line of input asks for.  There is no session after the last
    line. -/
def fulfil (showTrees : Bool) (s : Shell) : Wish → List Output × Option Shell
  | .nothing => ([], some s)
  | .leave => ([.outLine "Goodbye."], none)
  | .symbols => (table s, some s)
  | .help => (help, some s)
  | .reset =>
    (constantRecords.map Output.log ++ [.outLine (Style.yellow.paint "State reset.")],
      some s.reset)
  | .unknownCommand => ([.outLine (Style.red.paint "Unknown command. Type :help.")], some s)
  | .evaluate source =>
    let r := runLine showTrees s source 1
    (r.outputs, some r.session)

/-- A line of input, if there is one; a line that is no text ends the
    conversation. -/
def step (showTrees : Bool) (s : Shell) : Option ByteArray → List Output × Option Shell
  | none => ([.outLine "\nGoodbye."], none)
  | some bytes =>
    match String.fromUTF8? bytes with
    | some input => fulfil showTrees s (Wish.ofInput input)
    | none =>
      ([.log
        { level := .error
          speaker := .prompt
          message := "failed to read input: stream did not contain valid UTF-8" }], none)

/-- A conversation over the given lines of input, after its banner. -/
def converse (showTrees : Bool) (s : Shell) : List ByteArray → List Output
  | [] => prompt :: (step showTrees s none).1
  | input :: inputs =>
    let (outputs, next) := step showTrees s (some input)
    prompt :: outputs ++
      match next with
      | some s => converse showTrees s inputs
      | none => []

end Flowline.Command.Prompt
