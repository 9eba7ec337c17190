/-
  Running lines and files.

  * `runLine`: read a line, evaluate it, and write what came of it;
  * `runLines`: the lines of a file, blank ones aside;
  * `Launch`: a session as the command line and the environment set it up;
  * `runFile`: a file by what is found under its name.
-/
import Flowline.Command.Options
import Flowline.Command.Report

namespace Flowline.Command

open Text (Style)

/-! ## Lines -/

/-- The sessions of the command line have a host without a state. -/
abbrev Shell := Session Unit

/-- What running something comes to. -/
structure Run where
  outputs : List Output
  session : Shell
  succeeded : Bool

/-- What an event shows: printed text, or a log record. -/
def eventOutput (e : Event) : List Output :=
  match e with
  | .print text => [.out text]
  | e => (e.record?.map Output.log).toList

/-- Evaluate the tree of a line and write its value. -/
def runTree (s : Shell) (t : Ast) (source : String) (lineno : Nat) : Run :=
  let o := s.evaluate t
  let events := o.events.flatMap eventOutput
  match o.result with
  | .ok v =>
    let recovered := o.session.diagnostics.filter (·.kind.isCallFault)
    { outputs := events ++ recovered.flatMap (warn source lineno) ++ [.outLine v.text]
      session := o.session
      succeeded := true }
  | .error e =>
    { outputs := events ++ report source lineno e
      session := o.session
      succeeded := false }

/-- Run the line `source`, which stands at line `lineno` of its input. -/
def runLine (showTrees : Bool) (s : Shell) (source : String) (lineno : Nat) : Run :=
  let (parsed, s) := s.parse source
  let opening :=
    (parseRecords source).map Output.log ++ s.diagnostics.flatMap (warn source lineno)
  match parsed with
  | .error e =>
    { outputs := opening ++ report source lineno e, session := s, succeeded := false }
  | .ok t =>
    let tree := if showTrees then [.out t.outline] else []
    let r := runTree s t source lineno
    { r with outputs := opening ++ tree ++ r.outputs }

/-! ## Files -/

/-- The lines of a file with their numbers, blank ones left out. -/
def numberedLines (content : String) : List (Nat × String) :=
  ((Text.lines content).zipIdx 1).filterMap fun (line, n) =>
    if Text.isBlankLine line then none else some (n, line)

/-- Run lines in order.  A line that fails does not keep the next from
    running; how many failed is counted. -/
def runLines (showTrees : Bool) (s : Shell) : List (Nat × String) → List Output × Nat
  | [] => ([], 0)
  | (n, line) :: lines =>
    let r := runLine showTrees s line n
    let (outputs, failed) := runLines showTrees r.session lines
    (r.outputs ++ outputs, failed + if r.succeeded then 0 else 1)

/-- What is found under the name of a file. -/
inductive Entry where
  | missing
  /-- Something that is no readable file, for the given reason. -/
  | unreadable (reason : String)
  | bytes (content : ByteArray)

/-- A directory under the name of a file. -/
def Entry.directory : Entry :=
  .unreadable "Is a directory (os error 21)"

/-- The text of a file, or why it cannot be had. -/
def Entry.text (path : String) : Entry → Except String String
  | missing => .error s!"File not found: {path}"
  | unreadable reason => .error s!"Failed to read {path}: {reason}"
  | bytes content =>
    match String.fromUTF8? content with
    | some text => .ok text
    | none => .error s!"Failed to read {path}: stream did not contain valid UTF-8"

/-- A log record of the command itself. -/
def note (level : Level) (message : String) : Output :=
  .log { level, speaker := .command, message }

/-- Run a file; `true` if all its lines succeeded. -/
def runFile (showTrees : Bool) (s : Shell) (path : String) (entry : Entry) :
    List Output × Bool :=
  match entry.text path with
  | .error message =>
    ([.errLine (Style.bold.paint (Style.red.paint "error") ++ ": " ++
      Style.red.paint message)], false)
  | .ok content =>
    let (outputs, failed) := runLines showTrees s (numberedLines content)
    let closing := if failed = 0 then [] else [note .info s!"{failed} line(s) failed"]
    (note .info s!"running {path}" :: outputs ++ closing, failed = 0)

/-! ## Setting up -/

/-- The environment variable that sets the log level. -/
def levelVariable : String := "LUMEN_LOG"

/-- The log level: the one asked for, else the one in the environment, else
    warnings.  A level in the environment that cannot be read is pointed out. -/
def chooseLevel (o : Options) (env : String → Option String) : Level × List Output :=
  match o.level, env levelVariable with
  | some l, _ => (l, [])
  | none, none => (.warn, [])
  | none, some raw =>
    match Level.ofName? raw with
    | some l => (l, [])
    | none =>
      (.warn, [.errLine (Style.bold.paint (Style.yellow.paint "warning") ++
        s!": ignoring {levelVariable}={raw}")])

/-- The settings: those of the environment, overruled by switches. -/
def chooseConfig (o : Options) (c : Config) : Config :=
  { conditionals := if o.isLazy then .lazy else c.conditionals
    callFaults := if o.sentinelErrors then .sentinel else c.callFaults }

/-- The settings as the log tells them. -/
def configText (c : Config) : String :=
  let conditionals := match c.conditionals with
    | .eager => "Eager"
    | .lazy => "Lazy"
  let callFaults := match c.callFaults with
    | .propagate => "Propagate"
    | .sentinel => "Sentinel"
  "config: Config \x7b conditionals: " ++ conditionals ++ ", call_faults: " ++ callFaults ++
    " \x7d"

/-- A session that is set up. -/
structure Launch where
  level : Level
  session : Shell
  outputs : List Output

/-- Set up a session. -/
def launch (o : Options) (env : String → Option String) : Launch :=
  let (level, levelOutputs) := chooseLevel o env
  let (found, warnings) := Config.ofEnv env
  let config := chooseConfig o found
  { level
    session := .start .standard config ()
    outputs :=
      levelOutputs ++ constantRecords.map Output.log ++
        warnings.map (fun m => .log { level := .warn, speaker := .config, message := m }) ++
        [note .debug (configText config)] }

end Flowline.Command
