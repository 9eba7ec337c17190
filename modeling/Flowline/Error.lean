/-
  What can go wrong with a line, and how it is told.

  Every stage reports through one record: a kind, a message, and the place in
  the source if the stage knows it.

  * `ErrorKind`: the categories, with the words that introduce a report
    (`describe`) and the ones that a call may leave behind as a value
    (`isCallFault`);
  * `Error.text`: the message followed by the place;
  * `bind_eq_ok`: when one computation after another succeeds.
-/

namespace Flowline

/-- The category of an error. -/
inductive ErrorKind where
  /-- An unrecognised character; the scanner skips it and goes on. -/
  | lexical
  /-- The tokens do not form a line. -/
  | grammar
  /-- A variable is read before anything is bound to it. -/
  | undefinedVariable
  /-- A call names nothing that is bound or built in. -/
  | unknownFunction
  /-- A call names a plain value. -/
  | notCallable
  /-- A function was found and failed. -/
  | callFailure
  /-- The operands do not support the operation. -/
  | type
  | divisionByZero
  /-- Integer arithmetic left the 64-bit range. -/
  | overflow
  /-- A tree is not of the shape that reading a line gives. -/
  | internal
  deriving DecidableEq

/-- The words that introduce a report. -/
def ErrorKind.describe : ErrorKind → String
  | lexical => "Lex error"
  | grammar => "Syntax error"
  | undefinedVariable => "Undefined variable"
  | unknownFunction => "Unknown function"
  | notCallable => "Not callable"
  | callFailure => "Call failed"
  | type => "Type error"
  | divisionByZero => "Division by zero"
  | overflow => "Overflow"
  | internal => "Internal error"

/-- The kinds that a call may turn into an error value. -/
def ErrorKind.isCallFault : ErrorKind → Bool
  | unknownFunction | notCallable | callFailure => true
  | _ => false

/-- A reported error. -/
structure Error where
  kind : ErrorKind
  message : String
  /-- The line in the source, from one. -/
  line : Option Nat := none
  /-- The column in the source, from one. -/
  col : Option Nat := none
  deriving DecidableEq

/-- The message, with the place if it is fully known. -/
def Error.text (e : Error) : String :=
  match e.line, e.col with
  | some l, some c => s!"{e.message} at {l}:{c}"
  | _, _ => e.message

/-! ## Computations that can fail -/

/-- One computation after another succeeds if both do. -/
theorem bind_eq_ok {ε α β : Type} {x : Except ε α} {f : α → Except ε β} {b : β} :
    x >>= f = .ok b ↔ ∃ a, x = .ok a ∧ f a = .ok b := by
  cases x <;> simp [bind, Except.bind]

end Flowline
