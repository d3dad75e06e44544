import Formulary.Functions
import Formulary.Variables

/-!
# Environments

What an expression is evaluated in: the values of its variables, the functions that it can call and
the strategy that its operations follow.
-/

namespace Formulary

structure Environment where
  vars : Variables
  functions : Functions
  strategy : Strategy

namespace Environment

/-- The value of a variable that is used at a place. -/
def value (env : Environment) (name : String) (position : Position) : Except EvalError Value :=
  match env.vars.get? name with
  | some v => .ok v
  | none => .error (.unresolvedVariable name position)

/-- The function of a name that is used at a place. -/
def body (env : Environment) (name : String) (position : Position) :
    Except EvalError FunctionBody :=
  match env.functions.find? name with
  | some entry => .ok entry.content
  | none => .error (.unknownFunction name position)

end Environment

end Formulary
