import Formulary.Number.Shortest
import Formulary.Time.Timestamp
import Formulary.Value.Basic

/-!
# Values in writing

The canonical text of a value. Nothing is written for no value, a duration is written in whole
milliseconds, the items of an array are joined by commas and the fields of an object are listed in
braces.
-/

namespace Formulary.Value

mutual

/-- The canonical text of a value. -/
def text : Value → String
  | null => ""
  | integer n => toString n.toInt
  | long n => toString n.toInt
  | float x => singleText x
  | double x => doubleText x
  | string s => s
  | boolean b => if b then "true" else "false"
  | dateTime t => t.text
  | duration d => d.text
  | object fields => "\x7b" ++ ",".intercalate (fieldTexts fields) ++ "\x7d"
  | array items => ",".intercalate (itemTexts items)

def itemTexts : List Value → List String
  | [] => []
  | v :: vs => v.text :: itemTexts vs

/-- The texts of fields, each with its name in front. -/
def fieldTexts : List (String × Value) → List String
  | [] => []
  | (name, v) :: fields => (name ++ ":" ++ v.text) :: fieldTexts fields

end

end Formulary.Value
