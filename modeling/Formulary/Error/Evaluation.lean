import Formulary.Text.Position
import Formulary.Value.Basic
import Formulary.Value.Operation

/-!
# What can go wrong with values

`EvalError` names every cause for which an operation, a conversion, a call or a rendering has no
result, and `EvalError.message` puts it into words.
-/

namespace Formulary

/-- How many arguments a function takes. -/
inductive Arity
  | any
  | exactly (count : Nat)
  | atLeast (count : Nat)
  | between (least most : Nat)
  | oneOf (counts : List Nat)
deriving DecidableEq, Repr

namespace Arity

def admits : Arity → Nat → Bool
  | any, _ => true
  | exactly count, n => n == count
  | atLeast count, n => count ≤ n
  | between least most, n => least ≤ n && n ≤ most
  | oneOf counts, n => counts.contains n

/-- Alternatives with commas and a final `or`. -/
def alternatives : List Nat → String
  | [] => ""
  | [n] => toString n
  | [m, n] => toString m ++ " or " ++ toString n
  | n :: rest => toString n ++ ", " ++ alternatives rest

def text : Arity → String
  | any => "any number of"
  | exactly count => toString count
  | atLeast count => "at least " ++ toString count
  | between least most => toString least ++ " to " ++ toString most
  | oneOf counts => alternatives counts

end Arity

/-- Why a value has no counterpart of another kind. -/
inductive Obstacle
  | unrelated
  | outOfRange
  | notInteger (text : String)
  | notNumber (text : String)
  | notBoolean (text : String)
  | notDate (text : String)
  | notDuration (text : String)
deriving DecidableEq, Repr

def Obstacle.message : Obstacle → String
  | unrelated => "no conversion between these kinds"
  | outOfRange => "out of range"
  | notInteger text => "'" ++ text ++ "' is not an integer"
  | notNumber text => "'" ++ text ++ "' is not a number"
  | notBoolean text => "'" ++ text ++ "' is not a boolean"
  | notDate text => "'" ++ text ++ "' is not a date"
  | notDuration text => "'" ++ text ++ "' is not a duration"

/-- Why a function has no value for an argument. -/
inductive ArgumentFault
  | notFinite (number : String)
  | outOfRange (number : String)
  | yearOutOfRange (year : Int)
  | noSuchDate
  | spanOutOfRange
  | noChoice (index : Int) (choices : Nat)
  | overflow
  | patternTooLarge (limit : Nat)
  | other (detail : String)
deriving DecidableEq, Repr

def ArgumentFault.message : ArgumentFault → String
  | notFinite number => number ++ " is not finite"
  | outOfRange number => number ++ " is out of range"
  | yearOutOfRange year => "year " ++ toString year ++ " is out of range"
  | noSuchDate => "not a valid date"
  | spanOutOfRange => "duration is out of range"
  | noChoice index choices =>
    "index " ++ toString index ++ " is out of range 1..=" ++ toString choices
  | overflow => "overflow"
  | patternTooLarge limit =>
    "Compiled regex exceeds size limit of " ++ toString limit ++ " bytes."
  | other detail => detail

/-- Why there is no value. -/
inductive EvalError
  | unresolvedVariable (name : String) (position : Position)
  | unknownFunction (name : String) (position : Position)
  | typeMismatch (operation : Operation) (left right : Kind)
  | unsupportedOperation (operation : Operation) (kind : Kind)
  | conversionFailed (source target : Kind) (obstacle : Obstacle)
  | indexOutOfRange (index : Int) (length : Nat)
  | nonIntegerIndex (kind : Kind)
  | wrongArgumentCount (function : String) (expected : Arity) (found : Nat)
  | invalidArgument (function : String) (fault : ArgumentFault)
  | divisionByZero
  | overflow (operation : Operation)
  | partialsNotSupported (name : String) (position : Position)
deriving DecidableEq, Repr

def EvalError.message : EvalError → String
  | unresolvedVariable name position =>
    "variable '" ++ name ++ "' at " ++ position.text ++ " is not set"
  | unknownFunction name position =>
    "function '" ++ name ++ "' at " ++ position.text ++ " is not defined"
  | typeMismatch operation left right =>
    "cannot apply '" ++ operation.symbol ++ "' to " ++ left.name ++ " and " ++ right.name
  | unsupportedOperation operation kind =>
    "operation '" ++ operation.symbol ++ "' is not supported for " ++ kind.name
  | conversionFailed source target obstacle =>
    "cannot convert " ++ source.name ++ " to " ++ target.name ++ ": " ++ obstacle.message
  | indexOutOfRange index length =>
    "index " ++ toString index ++ " is out of range for length " ++ toString length
  | nonIntegerIndex kind => "index must be an integer, got " ++ kind.name
  | wrongArgumentCount function expected found =>
    "function '" ++ function ++ "' expects " ++ expected.text ++ " argument(s), got "
      ++ toString found
  | invalidArgument function fault =>
    "invalid argument for '" ++ function ++ "': " ++ fault.message
  | divisionByZero => "division by zero"
  | overflow operation => "arithmetic overflow in '" ++ operation.symbol ++ "'"
  | partialsNotSupported name position =>
    "partial '" ++ name ++ "' at " ++ position.text ++ " is not supported"

end Formulary
