/-
  The registry of the built-in functions.

  * `Registry.standard`: the core functions are its own, and its wider search
    covers the mathematical ones.
-/
import Flowline.Builtin.Apply
import Flowline.Callable

namespace Flowline

/-- A built-in function as a function of any host. -/
def Builtin.callable {σ : Type} (f : Builtin) : Callable σ where
  name := f.name
  run args host :=
    { result := (f.apply args).mapError CallFault.toError
      printed := f.prints args
      host }

/-- The function of the given name among some. -/
def Builtin.lookup {σ : Type} (fs : List Builtin) (name : String) : Option (Callable σ) :=
  (fs.find? (·.name == name)).map Builtin.callable

/-- The built-in functions. -/
def Registry.standard {σ : Type} : Registry σ where
  resolve := Builtin.lookup Builtin.core
  search := Builtin.lookup Builtin.math

end Flowline
