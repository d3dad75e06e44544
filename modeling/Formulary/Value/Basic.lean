import Formulary.Number.Binary
import Formulary.Number.Width
import Formulary.Text.Casing
import Formulary.Time.Instant

/-!
# Dynamic values

A formula computes with values whose kind is known only when it runs. `Value` has one constructor
for each kind. An object is a list of fields in the order of their names, an array a list of items.
Two values are the same when they have one kind and the same contents; nothing is converted, and
numbers with a fraction are the same when they have the same rank.
-/

namespace Formulary

inductive Kind
  | null
  | integer
  | long
  | float
  | double
  | string
  | boolean
  | dateTime
  | duration
  | object
  | array
deriving DecidableEq, Repr, Inhabited

namespace Kind

def name : Kind → String
  | null => "Null"
  | integer => "Integer"
  | long => "Long"
  | float => "Float"
  | double => "Double"
  | string => "String"
  | boolean => "Boolean"
  | dateTime => "DateTime"
  | duration => "Duration"
  | object => "Object"
  | array => "Array"

/-- The kinds of numbers from the narrowest to the widest. Operands of different kinds are widened
to the higher rank. -/
def numericRank : Kind → Option Nat
  | integer => some 0
  | long => some 1
  | float => some 2
  | double => some 3
  | _ => none

def isNumeric (k : Kind) : Bool := k.numericRank.isSome

end Kind

inductive Value
  | null
  | integer (n : Int32)
  | long (n : Int64)
  | float (x : Float32)
  | double (x : Float)
  | string (s : String)
  | boolean (b : Bool)
  | dateTime (t : Instant)
  | duration (d : Span)
  | object (fields : List (String × Value))
  | array (items : List Value)
deriving Inhabited

namespace Value

def kind : Value → Kind
  | null => .null
  | integer _ => .integer
  | long _ => .long
  | float _ => .float
  | double _ => .double
  | string _ => .string
  | boolean _ => .boolean
  | dateTime _ => .dateTime
  | duration _ => .duration
  | object _ => .object
  | array _ => .array

def isNull : Value → Bool
  | null => true
  | _ => false

/-- What counts as true in a template: all but nothing, zero, false and the empty. -/
def isTruthy : Value → Bool
  | null => false
  | integer n => n != 0
  | long n => n != 0
  | float x => singleRank x != 0
  | double x => doubleRank x != 0
  | string s => !s.isEmpty
  | boolean b => b
  | dateTime _ => true
  | duration d => d.nanos != 0
  | object fields => !fields.isEmpty
  | array items => !items.isEmpty

def bool? : Value → Option Bool
  | boolean b => some b
  | _ => none

def int32? : Value → Option Int32
  | integer n => some n
  | _ => none

/-- The number of an integer of either width. -/
def int? : Value → Option Int
  | integer n => some n.toInt
  | long n => some n.toInt
  | _ => none

/-- The double nearest to a number of any kind. -/
def double? : Value → Option Float
  | integer n => some (Binary.ofInt n.toInt).toDouble
  | long n => some (Binary.ofInt n.toInt).toDouble
  | float x => some (Binary.ofSingle x).toDouble
  | double x => some x
  | _ => none

def string? : Value → Option String
  | string s => some s
  | _ => none

def dateTime? : Value → Option Instant
  | dateTime t => some t
  | _ => none

def duration? : Value → Option Span
  | duration d => some d
  | _ => none

def items? : Value → Option (List Value)
  | array items => some items
  | _ => none

def fields? : Value → Option (List (String × Value))
  | object fields => some fields
  | _ => none

/-- The field of an object with exactly this name, or else the first whose name differs only in the
case of ASCII letters. -/
def field? (v : Value) (name : String) : Option Value :=
  v.fields?.bind fun fields =>
    let exact := fields.find? fun field => field.1 == name
    let similar := fields.find? fun field =>
      Text.equalIgnoringCase field.1.toList name.toList
    (exact <|> similar).map (·.2)

/-- Fields with one more, in order; a field of the same name is replaced. -/
def insertField (name : String) (v : Value) : List (String × Value) → List (String × Value)
  | [] => [(name, v)]
  | field :: rest =>
    match compare name field.1 with
    | .lt => (name, v) :: field :: rest
    | .eq => (name, v) :: rest
    | .gt => field :: insertField name v rest

/-- The object of these fields, of which the last of each name counts. -/
def ofFields (fields : List (String × Value)) : Value :=
  object (fields.foldl (fun known field => insertField field.1 field.2 known) [])

mutual

def same : Value → Value → Bool
  | null, null => true
  | integer m, integer n => m == n
  | long m, long n => m == n
  | float x, float y => singleRank x == singleRank y
  | double x, double y => doubleRank x == doubleRank y
  | string s, string t => s == t
  | boolean b, boolean c => b == c
  | dateTime t, dateTime u => t == u
  | duration d, duration e => d == e
  | object fs, object gs => sameFields fs gs
  | array vs, array ws => sameItems vs ws
  | _, _ => false

def sameItems : List Value → List Value → Bool
  | [], [] => true
  | v :: vs, w :: ws => v.same w && sameItems vs ws
  | _, _ => false

def sameFields : List (String × Value) → List (String × Value) → Bool
  | [], [] => true
  | (k, v) :: fs, (l, w) :: gs => k == l && v.same w && sameFields fs gs
  | _, _ => false

end

end Value

end Formulary
