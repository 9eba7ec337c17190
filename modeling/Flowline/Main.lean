/-
  The program: the command in its real surroundings.

  Everything that is decided is decided by the command's own functions; here
  files and input are read, and output is written as it comes.
-/
import Flowline.Command.Execute

namespace Flowline.Command

/-- Write outputs in order. -/
def write (level : Level) (outputs : List Output) : IO Unit := do
  let out ← IO.getStdout
  let err ← IO.getStderr
  for o in outputs do
    match o with
    | .out text => out.putStr text
    | o => err.putStr (o.toErr level)
  out.flush

/-- What is found under the name of a file.  System error 21 tells of a
    directory; a name below something that is none names nothing. -/
def openEntry (path : String) : IO Entry := do
  try
    return .bytes (← IO.FS.readBinFile path)
  catch
    | .noFileOrDirectory .. => return .missing
    | .inappropriateType _ code _ => return if code = 21 then .directory else .missing
    | e => return .unreadable (toString e)

/-- The next line of input, up to and with its line feed; absent at the end. -/
partial def readLine (input : IO.FS.Stream) (before : ByteArray) : IO (Option ByteArray) := do
  let next ← input.read 1
  if next.isEmpty then
    return if before.isEmpty then none else some before
  let bytes := before ++ next
  if next.toList = [10] then return some bytes
  readLine input bytes

/-- Ask for lines and run them until one is the last. -/
partial def converse (showTrees : Bool) (level : Level) (s : Shell) : IO Unit := do
  write level [Prompt.prompt]
  let (outputs, next) := Prompt.step showTrees s (← readLine (← IO.getStdin) .empty)
  write level outputs
  match next with
  | some s => converse showTrees level s
  | none => return

/-- The environment variables that the command reads. -/
def readEnv : IO (String → Option String) := do
  let names := [levelVariable, Conditionals.variableName, CallFaults.variableName]
  let found ← names.mapM fun name => return (name, ← IO.getEnv name)
  return fun name => (found.lookup name).join

/-- Run the command. -/
def run (args : List String) : IO UInt32 := do
  match Request.ofArgs args with
  | .usage =>
    write .off [.errLine usageText]
    return usageCode
  | .help =>
    write .off [.outLine helpText]
    return 0
  | .version =>
    write .off [.outLine versionText]
    return 0
  | .run o =>
    let l := launch o (← readEnv)
    write l.level l.outputs
    match o.line, o.file with
    | some line, _ =>
      let r := runLine o.showTrees l.session line 1
      write l.level r.outputs
      return exitCode r.succeeded
    | none, some path =>
      let (outputs, succeeded) := runFile o.showTrees l.session path (← openEntry path)
      write l.level outputs
      return exitCode succeeded
    | none, none =>
      write l.level [Prompt.banner]
      converse o.showTrees l.level l.session
      return 0

end Flowline.Command

/-- The entry point of the program. -/
def main (args : List String) : IO UInt32 :=
  Flowline.Command.run args
