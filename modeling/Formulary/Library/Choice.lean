import Formulary.Library.Builtin

/-!
# Functions that choose among their arguments
-/

namespace Formulary.Library

def isTrue (v : Value) : Bool := v.bool?.getD false

/-- The value that stays when each of the others takes its place if it is better. -/
def best (better : Value → Value → Except EvalError Value) (first : Value) :
    List Value → Except EvalError Value
  | [] => .ok first
  | v :: rest => (better v first).bind fun answer =>
      best better (if isTrue answer then v else first) rest

/-- A function of at least two arguments that takes the first and goes through the others. -/
def fold (name : String)
    (apply : Strategy → Value → List Value → Except EvalError Value) : Builtin :=
  ⟨name, .atLeast 2, fun args s => apply s (argument args 0) args.tail⟩

/-- The least argument, the first of those that are equal. -/
def min : Builtin := fold "Min" fun s first rest => best s.less first rest

def max : Builtin := fold "Max" fun s first rest => best s.more first rest

def sum : Builtin := fold "Sum" fun s first rest => rest.foldlM s.add first

def ifElse : Builtin where
  name := "If"
  arity := .exactly 3
  apply args s := (s.convert (argument args 0) .boolean).map fun condition =>
    argument args (if isTrue condition then 1 else 2)

/-- The argument that the first one counts, from one. -/
def choose : Builtin where
  name := "Choose"
  arity := .atLeast 3
  apply args s := (whole s args 0 0).bind fun index =>
    let choice := if index ≥ 1 then args[index.toNat]? else none
    match choice with
    | some v => .ok v
    | none => .error (refuse "Choose" (.noChoice index (args.length - 1)))

end Formulary.Library
