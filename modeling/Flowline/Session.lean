/-
  Sessions: lines evaluated one after another against one symbol table.

  * `Session`: the table, the registry, the settings, the state of the host
    and the diagnostics of the last line;
  * `Session.parse`, `Session.evaluate`, `Session.evalLine`: reading a line,
    evaluating a tree, and both;
  * `Outcome`: the result, the session after it, and the events on the way.
-/
import Flowline.Eval.Basic
import Flowline.Tree.Layout
import Flowline.Builtin.Registry

namespace Flowline

/-- A session. -/
structure Session (σ : Type) where
  /-- Names bound so far. -/
  symbols : Symbols σ
  /-- Where functions are looked up that no name is bound to. -/
  registry : Registry σ
  config : Config
  /-- What the scanner reported on the last line, and the failed calls that
      were recorded since. -/
  diagnostics : List Error
  /-- The state of the host. -/
  host : σ

/-- What a step of a session comes to. -/
structure Outcome (σ α : Type) where
  result : Except Error α
  session : Session σ
  /-- The events of the evaluation, the earliest first. -/
  events : List Event

namespace Session

variable {σ : Type}

/-- A fresh session. -/
def start (registry : Registry σ) (config : Config) (host : σ) : Session σ :=
  { symbols := .constants, registry, config, diagnostics := [], host }

/-- Forget all names but the constants, and the diagnostics. -/
def reset (s : Session σ) : Session σ :=
  { s with symbols := .constants, diagnostics := [] }

/-- Change the settings. -/
def withConfig (s : Session σ) (config : Config) : Session σ :=
  { s with config }

/-- Bind a name to a value. -/
def assign (s : Session σ) (name : String) (v : Value) : Session σ :=
  { s with symbols := s.symbols.assign name v }

/-- Bind a name to a function, which hides a function of the registry with the
    same name. -/
def define (s : Session σ) (name : String) (f : Callable σ) : Session σ :=
  { s with symbols := s.symbols.define name f }

/-- Unbind a name. -/
def remove (s : Session σ) (name : String) : Session σ :=
  { s with symbols := s.symbols.erase name }

/-- Read a line.  The diagnostics become those of the scanner. -/
def parse (s : Session σ) (source : String) : Except Error Ast × Session σ :=
  (Flowline.parse source, { s with diagnostics := (lex source).diagnostics })

/-- What an evaluation takes as given. -/
def env (s : Session σ) : Env σ :=
  { registry := s.registry, config := s.config }

/-- The state in which an evaluation starts. -/
def state (s : Session σ) : State σ :=
  { symbols := s.symbols, host := s.host, diagnostics := s.diagnostics, events := #[] }

/-- The session that an evaluation leaves. -/
def withState (s : Session σ) (st : State σ) : Session σ :=
  { s with symbols := st.symbols, host := st.host, diagnostics := st.diagnostics }

/-- Evaluate a tree. -/
def evaluate (s : Session σ) (t : Ast) : Outcome σ Value :=
  let (result, st) := (t.evaluate s.env).run s.state
  { result := result.mapError EvalFault.toError
    session := s.withState st
    events := st.events.toList }

/-- Read a line and evaluate it. -/
def evalLine (s : Session σ) (source : String) : Outcome σ Value :=
  match s.parse source with
  | (.ok t, s) => s.evaluate t
  | (.error e, s) => { result := .error e, session := s, events := [] }

end Session

/-- What is printed by an event. -/
def Event.printed : Event → String
  | print text => text
  | _ => ""

/-- What is printed on the way. -/
def Outcome.printed {σ α : Type} (o : Outcome σ α) : String :=
  String.join (o.events.map Event.printed)

end Flowline
