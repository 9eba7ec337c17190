/-
  Settings of a session.

  * `Conditionals`: whether operands that turn out not to be needed are
    evaluated;
  * `CallFaults`: what a failed call does to its line;
  * `Conditionals.read`, `CallFaults.read`: settings by name, blanks around
    them and case aside;
  * `Config.ofEnv`: settings from environment variables.
-/
import Flowline.Text.Blank

namespace Flowline

/-- How conditionals and logical operators treat operands that they turn out
    not to need. -/
inductive Conditionals where
  /-- All operands are evaluated first. -/
  | eager
  /-- Operands are evaluated as they are needed. -/
  | lazy
  deriving DecidableEq

/-- What a failed call does. -/
inductive CallFaults where
  /-- It ends the line. -/
  | propagate
  /-- It is recorded, and an error value stands for its result. -/
  | sentinel
  deriving DecidableEq

/-- The settings of a session. -/
structure Config where
  conditionals : Conditionals := .eager
  callFaults : CallFaults := .propagate
  deriving DecidableEq

/-- Whether operands are evaluated as they are needed. -/
def Config.isLazy (c : Config) : Bool :=
  c.conditionals = .lazy

/-! ## Names -/

/-- The form in which names of settings are compared. -/
def settingKey (s : String) : String :=
  (Text.trim s).toLower

/-- The setting with the given name, or a message. -/
def Conditionals.read (s : String) : Except String Conditionals :=
  match settingKey s with
  | "eager" => .ok .eager
  | "lazy" => .ok .lazy
  | other => .error s!"unknown conditional mode '{other}' (expected eager or lazy)"

/-- The setting with the given name, or a message. -/
def CallFaults.read (s : String) : Except String CallFaults :=
  match settingKey s with
  | "propagate" => .ok .propagate
  | "sentinel" => .ok .sentinel
  | other => .error s!"unknown call fault mode '{other}' (expected propagate or sentinel)"

/-! ## Environment -/

/-- The environment variable of the first setting. -/
def Conditionals.variableName : String := "LUMEN_CONDITIONALS"

/-- The environment variable of the second setting. -/
def CallFaults.variableName : String := "LUMEN_CALL_FAULTS"

/-- A setting from the text of a variable, if the variable is set, and a
    warning in place of one that cannot be read. -/
def readSetting {α : Type} (read : String → Except String α) (name : String)
    (default : α) : Option String → α × List String
  | none => (default, [])
  | some raw =>
    match read raw with
    | .ok a => (a, [])
    | .error message => (default, [s!"{name}: {message}"])

/-- The settings in an environment, and the warnings about those that cannot
    be read, which are left at their defaults. -/
def Config.ofEnv (env : String → Option String) : Config × List String :=
  let (conditionals, first) :=
    readSetting Conditionals.read Conditionals.variableName .eager
      (env Conditionals.variableName)
  let (callFaults, second) :=
    readSetting CallFaults.read CallFaults.variableName .propagate
      (env CallFaults.variableName)
  ({ conditionals, callFaults }, first ++ second)

end Flowline
