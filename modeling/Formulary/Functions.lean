import Formulary.Registry
import Formulary.Strategy.Basic

/-!
# Functions

A function takes a list of values and the strategy in force and has a value or an error.
-/

namespace Formulary

abbrev FunctionBody := List Value → Strategy → Except EvalError Value

/-- Functions in the order of their first registration. -/
abbrev Functions := Registry FunctionBody

namespace Functions

/-- The functions with one more, which takes the place of one of the same name. -/
def add (functions : Functions) (name : String) (body : FunctionBody) : Functions :=
  functions.put ⟨name, body⟩

end Functions

end Formulary
