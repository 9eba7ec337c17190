/-
  Functions that a line can call.

  A function sees its arguments and the state of its host, and nothing else;
  it may print, and it may leave a new state of the host.

  * `Callable`: a function with its name;
  * `Registry`: where functions are looked up that no name is bound to;
  * `Registry.find?`: its own functions first, then a wider search.
-/
import Flowline.Value
import Flowline.Error

namespace Flowline

/-- What a call gives back. -/
structure Reply (σ : Type) where
  result : Except Error Value
  /-- What the call printed. -/
  printed : String
  /-- The state of the host after the call. -/
  host : σ

/-- A function of the host. -/
structure Callable (σ : Type) where
  name : String
  run : List Value → σ → Reply σ

/-- A function that has nothing to do with the state of the host. -/
def Callable.pure {σ : Type} (name : String) (f : List Value → Except Error Value) :
    Callable σ where
  name
  run args host := { result := f args, printed := "", host }

/-- How a function is shown. -/
def Callable.text {σ : Type} (f : Callable σ) : String :=
  "<function " ++ f.name ++ ">"

/-- Where functions are looked up by name. -/
structure Registry (σ : Type) where
  /-- The registry's own functions. -/
  resolve : String → Option (Callable σ)
  /-- A wider search, made when there is no function of its own. -/
  search : String → Option (Callable σ)

/-- The registry without functions. -/
def Registry.none {σ : Type} : Registry σ where
  resolve _ := Option.none
  search _ := Option.none

/-- The function of the given name. -/
def Registry.find? {σ : Type} (r : Registry σ) (name : String) : Option (Callable σ) :=
  (r.resolve name).or (r.search name)

end Flowline
