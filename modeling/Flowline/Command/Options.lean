/-
  The command line.

  Options stand anywhere and at most once each.  An option that takes a value
  takes it after an equals sign, as the next argument, or, in its short form,
  glued on; a value of its own must not look like an option.  After two dashes
  everything is a file name.  There is at most one file, and none next to a
  line to evaluate.  Arguments are read from left to right, until one asks for
  help or for the version, or cannot be accepted.

  * `Options`: what the command line asks for;
  * `Request`: run with options, show the help or the version, or refuse the usage;
  * `Request.ofArgs`: from arguments to a request.
-/
import Flowline.Log

namespace Flowline.Command

/-- What the command line asks for. -/
structure Options where
  /-- A line to evaluate. -/
  line : Option String := none
  /-- A file to evaluate, line by line. -/
  file : Option String := none
  /-- Evaluate operands as they are needed. -/
  isLazy : Bool := false
  /-- Go on with an error value after a failed call. -/
  sentinelErrors : Bool := false
  /-- Show the tree of every line. -/
  showTrees : Bool := false
  /-- Which log records to show. -/
  level : Option Level := none

/-- What to do. -/
inductive Request where
  | run (o : Options)
  | help
  | version
  | usage

/-- Why the arguments are read no further. -/
inductive Stop where
  | help
  | version
  | usage

/-! ## Single options -/

/-- The switches. -/
inductive Switch where
  | isLazy
  | sentinelErrors
  | showTrees
  deriving DecidableEq

/-- The options with a value. -/
inductive Setting where
  | line
  | level
  deriving DecidableEq

/-- What an argument that looks like an option is. -/
inductive Flag where
  | switch (s : Switch)
  /-- An option with the value that is part of the argument, if it is. -/
  | setting (s : Setting) (value : Option String)
  | help
  | version

/-- Turn a switch on, once. -/
def Options.turnOn (o : Options) : Switch → Except Stop Options
  | .isLazy => if o.isLazy then .error .usage else .ok { o with isLazy := true }
  | .sentinelErrors =>
    if o.sentinelErrors then .error .usage else .ok { o with sentinelErrors := true }
  | .showTrees => if o.showTrees then .error .usage else .ok { o with showTrees := true }

/-- Give an option its value, once. -/
def Options.set (o : Options) (value : String) : Setting → Except Stop Options
  | .line => if o.line.isSome then .error .usage else .ok { o with line := some value }
  | .level =>
    match o.level, Level.ofName? value with
    | none, some l => .ok { o with level := some l }
    | _, _ => .error .usage

/-- Take a file name: the only one, and not an empty one. -/
def Options.addFile (o : Options) (name : String) : Except Stop Options :=
  if o.file.isSome || name = "" then .error .usage else .ok { o with file := some name }

/-! ## Arguments -/

/-- Cut a text at its first equals sign. -/
def cutAtEquals (cs : List Char) : List Char × Option String :=
  match cs.dropWhile (· ≠ '=') with
  | [] => (cs, none)
  | _ :: value => (cs.takeWhile (· ≠ '='), some (String.ofList value))

/-- An option in its long form, without its dashes. -/
def longFlag (cs : List Char) : Option Flag :=
  let (name, value) := cutAtEquals cs
  match String.ofList name, value with
  | "eval", v => some (.setting .line v)
  | "log-level", v => some (.setting .level v)
  | "lazy", none => some (.switch .isLazy)
  | "sentinel-errors", none => some (.switch .sentinelErrors)
  | "dump-ast", none => some (.switch .showTrees)
  | "help", none => some .help
  | "version", none => some .version
  | _, _ => none

/-- An option in its short form, without its dash.  What is glued on to a
    request for help or for the version is not looked at. -/
def shortFlag : List Char → Option Flag
  | ['e'] => some (.setting .line none)
  | 'e' :: '=' :: cs => some (.setting .line (some (String.ofList cs)))
  | 'e' :: cs => some (.setting .line (some (String.ofList cs)))
  | 'h' :: _ => some .help
  | 'V' :: _ => some .version
  | _ => none

/-- What an argument looks like. -/
inductive Shape where
  /-- Not an option. -/
  | plain
  /-- Two dashes, after which there are no options. -/
  | divider
  /-- An option, if there is one of that name. -/
  | flag (f : Option Flag)

/-- What an argument looks like.  A dash by itself is not an option. -/
def shapeOf (arg : String) : Shape :=
  match arg.toList with
  | ['-', '-'] => .divider
  | '-' :: '-' :: cs => .flag (longFlag cs)
  | ['-'] => .plain
  | '-' :: cs => .flag (shortFlag cs)
  | _ => .plain

/-- Read arguments from left to right. -/
def readArgs (o : Options) : List String → Except Stop Options
  | [] => .ok o
  | arg :: args =>
    match shapeOf arg with
    | .plain => do readArgs (← o.addFile arg) args
    | .divider => args.foldlM Options.addFile o
    | .flag none => .error .usage
    | .flag (some .help) => .error .help
    | .flag (some .version) => .error .version
    | .flag (some (.switch s)) => do readArgs (← o.turnOn s) args
    | .flag (some (.setting s (some value))) => do readArgs (← o.set value s) args
    | .flag (some (.setting s none)) =>
      match args with
      | [] => .error .usage
      | value :: args =>
        match shapeOf value with
        | .plain => do readArgs (← o.set value s) args
        | .divider | .flag _ => .error .usage

/-- The request of a command line. -/
def Request.ofArgs (args : List String) : Request :=
  match readArgs {} args with
  | .ok o => if o.line.isSome && o.file.isSome then .usage else .run o
  | .error .help => .help
  | .error .version => .version
  | .error .usage => .usage

end Flowline.Command
