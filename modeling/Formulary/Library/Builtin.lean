import Formulary.Functions

/-!
# Functions of the library

A function of the library has a name and says how many arguments it takes. The number of arguments
is checked before anything else, so what the function does with its arguments is only asked for
numbers of them that it takes.
-/

namespace Formulary.Library

/-- A function with its name and the numbers of arguments that it takes. -/
structure Builtin where
  name : String
  arity : Arity
  apply : FunctionBody

/-- The argument at a position; no value where there is no argument. -/
def argument (args : List Value) (i : Nat) : Value := args.getD i .null

namespace Builtin

def body (f : Builtin) : FunctionBody := fun args s =>
  if f.arity.admits args.length then f.apply args s
  else .error (.wrongArgumentCount f.name f.arity args.length)

def value (name : String) (v : Value) : Builtin := ⟨name, .exactly 0, fun _ _ => .ok v⟩

def unary (name : String) (apply : Strategy → Value → Except EvalError Value) : Builtin :=
  ⟨name, .exactly 1, fun args s => apply s (argument args 0)⟩

/-- A function of one argument under several names. Each name is the one that its errors give. -/
def unaries (names : List String)
    (apply : String → Strategy → Value → Except EvalError Value) : List Builtin :=
  names.map fun name => unary name (apply name)

end Builtin

def refuse (function : String) (fault : ArgumentFault) : EvalError :=
  .invalidArgument function fault

/-- The argument as a double; nothing for no value. -/
def number? (s : Strategy) (v : Value) : Except EvalError (Option Float) :=
  if v.isNull then .ok none else (s.convert v .double).map Value.double?

/-- The argument at a position as a whole number of 64 bits, or another number where there is no
argument or no value. -/
def whole (s : Strategy) (args : List Value) (i : Nat) (other : Int) : Except EvalError Int :=
  match args[i]? with
  | some v => (s.convert v .long).map fun n => n.int?.getD other
  | none => .ok other

end Formulary.Library
