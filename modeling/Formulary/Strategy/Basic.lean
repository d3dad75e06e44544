import Formulary.Value.Arithmetic
import Formulary.Value.Conversion

/-!
# Strategies

A coercion says how a value changes its kind and how the two operands of an operation are brought
together. The operators follow from it: no value as an operand makes every operator give no value;
only equality tells no value from the others. A strategy is a coercion with its operators, any of
which it may put another in the place of.
-/

namespace Formulary

/-- The opposite truth value; every other value stays as it is. -/
def Value.opposite : Value → Value
  | .boolean b => .boolean !b
  | v => v

/-- How kinds are changed and operands are brought together. -/
structure Coercion where
  convert : Value → Kind → Except EvalError Value
  coerce : Operation → Value → Value → Except EvalError (Value × Value)

namespace Coercion

variable (s : Coercion)

/-- Brings two operands together and applies an operation to them. -/
def binary (op : Operation) (apply : Value → Value → Except EvalError Value)
    (left right : Value) : Except EvalError Value :=
  if left.isNull || right.isNull then .ok .null
  else (s.coerce op left right).bind fun pair => apply pair.1 pair.2

/-- The sum; strings are joined. -/
def add : Value → Value → Except EvalError Value := s.binary .add Value.add

def sub : Value → Value → Except EvalError Value := s.binary .sub Value.sub

def mul : Value → Value → Except EvalError Value := s.binary .mul Value.mul

def div : Value → Value → Except EvalError Value := s.binary .div Value.div

def rem : Value → Value → Except EvalError Value := s.binary .mod Value.rem

def pow : Value → Value → Except EvalError Value := s.binary .pow Value.pow

def shiftLeft : Value → Value → Except EvalError Value :=
  s.binary .shiftLeft (Value.shift .shiftLeft)

def shiftRight : Value → Value → Except EvalError Value :=
  s.binary .shiftRight (Value.shift .shiftRight)

def and : Value → Value → Except EvalError Value := s.binary .and Value.and

def or : Value → Value → Except EvalError Value := s.binary .or Value.or

def xor : Value → Value → Except EvalError Value := s.binary .xor Value.xor

/-- The opposite; a string is taken as a truth value. -/
def not : Value → Except EvalError Value
  | .null => .ok .null
  | .string text => (s.convert (.string text) .boolean).bind Value.not
  | v => v.not

/-- The value with the other sign; a string is taken as a number of the kind that it writes. -/
def negative : Value → Except EvalError Value
  | .null => .ok .null
  | .string text =>
    let kind := (Value.readNumber? text).elim .double Value.kind
    (s.convert (.string text) kind).bind Value.negate
  | v => v.negate

/-- Whether both operands are the same once they are brought together. No value is equal to itself
alone. -/
def equal (left right : Value) : Except EvalError Value :=
  match left.isNull, right.isNull with
  | true, true => .ok (.boolean true)
  | true, false | false, true => .ok (.boolean false)
  | false, false =>
    (s.coerce .equal left right).map fun pair => .boolean (pair.1.same pair.2)

def notEqual (left right : Value) : Except EvalError Value :=
  (s.equal left right).map Value.opposite

/-- Whether the order of the two operands passes a test. -/
def ordering (op : Operation) (test : Ordering → Bool) :
    Value → Value → Except EvalError Value :=
  s.binary op fun a b => (Value.order op a b).map fun order => .boolean (test order)

def less : Value → Value → Except EvalError Value := s.ordering .less Ordering.isLT

def lessEqual : Value → Value → Except EvalError Value := s.ordering .lessEqual Ordering.isLE

def more : Value → Value → Except EvalError Value := s.ordering .more Ordering.isGT

def moreEqual : Value → Value → Except EvalError Value := s.ordering .moreEqual Ordering.isGE

/-- Whether one of the items equals the value. The search ends at the first that does and at the
first that cannot be compared. -/
def anyEqual (value : Value) : List Value → Except EvalError Bool
  | [] => .ok false
  | item :: rest =>
    (s.equal value item).bind fun answer =>
      if answer.same (.boolean true) then .ok true else anyEqual value rest

/-- Whether an array holds the value; anything else is compared with the value as a whole. -/
def contains (collection value : Value) : Except EvalError Value :=
  match collection with
  | .null => .ok .null
  | .array items => (s.anyEqual value items).map .boolean
  | other => s.equal value other

def refusal : Text.Regex.Fault → EvalError
  | .tooLarge limit => .invalidArgument Operation.like.symbol (.patternTooLarge limit)
  | .unsupported => .invalidArgument Operation.like.symbol (.other "unsupported regex")

/-- Whether a wildcard pattern describes a text. A pattern that is too large is refused. -/
def matchText (text pattern : String) : Except EvalError Bool :=
  (Text.Wildcard.like Text.Regex.library text pattern).mapError refusal

def like (value pattern : Value) : Except EvalError Value :=
  if value.isNull || pattern.isNull then .ok .null
  else
    (s.convert value .string).bind fun text =>
      (s.convert pattern .string).bind fun wildcards =>
        match text, wildcards with
        | .string t, .string p => (matchText t p).map .boolean
        | _, _ => .error (Value.mismatch .like value pattern)

def index (value : Value) : Except EvalError Int :=
  match value with
  | .integer _ | .long _ | .string _ =>
    (s.convert value .long).bind fun n =>
      n.int?.elim (.error (.nonIntegerIndex value.kind)) .ok
  | other => .error (.nonIntegerIndex other.kind)

/-- The entry of a list at an index that counts from zero. -/
def entry {α : Type} (entries : List α) (index : Int) : Except EvalError α :=
  if index < 0 then .error (.indexOutOfRange index entries.length)
  else match entries[index.toNat]? with
    | some a => .ok a
    | none => .error (.indexOutOfRange index entries.length)

/-- The item of an array or the character of a string at an index. -/
def element (value position : Value) : Except EvalError Value :=
  if value.isNull || position.isNull then .ok .null
  else
    (s.index position).bind fun i =>
      match value with
      | .array items => entry items i
      | .string text => (entry text.toList i).map fun c => .string (String.ofList [c])
      | other => .error (.unsupportedOperation .element other.kind)

end Coercion

/-- A coercion with what every operator does to its operands. -/
structure Strategy extends Coercion where
  add : Value → Value → Except EvalError Value := toCoercion.add
  sub : Value → Value → Except EvalError Value := toCoercion.sub
  mul : Value → Value → Except EvalError Value := toCoercion.mul
  div : Value → Value → Except EvalError Value := toCoercion.div
  rem : Value → Value → Except EvalError Value := toCoercion.rem
  pow : Value → Value → Except EvalError Value := toCoercion.pow
  shiftLeft : Value → Value → Except EvalError Value := toCoercion.shiftLeft
  shiftRight : Value → Value → Except EvalError Value := toCoercion.shiftRight
  and : Value → Value → Except EvalError Value := toCoercion.and
  or : Value → Value → Except EvalError Value := toCoercion.or
  xor : Value → Value → Except EvalError Value := toCoercion.xor
  not : Value → Except EvalError Value := toCoercion.not
  negative : Value → Except EvalError Value := toCoercion.negative
  equal : Value → Value → Except EvalError Value := toCoercion.equal
  notEqual : Value → Value → Except EvalError Value := toCoercion.notEqual
  less : Value → Value → Except EvalError Value := toCoercion.less
  lessEqual : Value → Value → Except EvalError Value := toCoercion.lessEqual
  more : Value → Value → Except EvalError Value := toCoercion.more
  moreEqual : Value → Value → Except EvalError Value := toCoercion.moreEqual
  contains : Value → Value → Except EvalError Value := toCoercion.contains
  like : Value → Value → Except EvalError Value := toCoercion.like
  element : Value → Value → Except EvalError Value := toCoercion.element

/-- Both numbers as numbers of the wider of their two kinds; nothing when one is no number. -/
def promote (convert : Value → Kind → Except EvalError Value) (left right : Value) :
    Option (Except EvalError (Value × Value)) :=
  match left.kind.numericRank, right.kind.numericRank with
  | some l, some r =>
    let target := if l ≥ r then left.kind else right.kind
    some ((convert left target).bind fun a => (convert right target).map fun b => (a, b))
  | _, _ => none

/-- The pairs of dates and durations with an arithmetic of their own. -/
def isTemporalPair (op : Operation) (left right : Value) : Bool :=
  match op, left.kind, right.kind with
  | .add, .dateTime, .duration | .add, .duration, .dateTime | .add, .duration, .duration
  | .sub, .dateTime, .duration | .sub, .dateTime, .dateTime | .sub, .duration, .duration => true
  | _, _, _ => false

end Formulary
