import Formulary.Registry
import Formulary.Value.Basic

/-!
# Variables

A variable is a name that has a value or is merely declared.
-/

namespace Formulary

/-- Variables in the order of their declaration. -/
abbrev Variables := Registry (Option Value)

namespace Variables

/-- The value of a name, if it has one. -/
def get? (vars : Variables) (name : String) : Option Value :=
  (vars.find? name).bind (·.content)

def set (vars : Variables) (name : String) (value : Value) : Variables :=
  vars.assign name (some value)

/-- The variables in which a name is declared. -/
def locate (vars : Variables) (name : String) : Variables := vars.declare name none

def locateAll (vars : Variables) (names : List String) : Variables := names.foldl locate vars

/-- Names, each once and as it is first spelled. -/
def spellings (names : List String) : List String :=
  (locateAll .empty names).toList.map (·.name)

def clearValues (vars : Variables) : Variables := vars.map fun _ => none

end Variables

end Formulary
