import Formulary.Error.Evaluation
import Formulary.Number.Numeral
import Formulary.Value.Printer

/-!
# Values of another kind

Two rules change the kind of a value. `Value.widen` only goes to a wider kind of number and refuses
everything else. `Value.convert` goes wherever there is a sensible counterpart: text is read, dates
and durations are counted in milliseconds, a number with a fraction is cut toward zero, and every
value has a text. Whole numbers are widened but never narrowed.
-/

namespace Formulary

namespace Text

/-- The truth value that a text names: `true`, `yes` and `1`, or `false`, `no` and `0`, whatever the
case and the blanks around. -/
def readBool? (s : String) : Option Bool :=
  let word := trim s.toList
  if isOneOf ["true", "yes", "1"] word then some true
  else if isOneOf ["false", "no", "0"] word then some false
  else none

end Text

namespace Value

/-- The number that a text writes, of the narrowest kind among 32 bits, 64 bits and a finite
double. -/
def readNumber? (s : String) : Option Value :=
  let cs := Text.trim s.toList
  match readInt32? cs with
  | some n => some (.integer n)
  | none => match readInt64? cs with
    | some n => some (.long n)
    | none => match readDouble? cs with
      | some x => if x.isFinite then some (.double x) else none
      | none => none

def refuse (v : Value) (target : Kind) (obstacle : Obstacle) : EvalError :=
  .conversionFailed v.kind target obstacle

/-- The value as a number of a wider kind. A value that is already of the kind, and no value, stay
as they are. -/
def widen (v : Value) (target : Kind) : Except EvalError Value :=
  if target = .null then .ok .null
  else if v.kind = target ∨ v.isNull then .ok v
  else match v, target with
    | .integer n, .long => .ok (.long (Formulary.widen n))
    | .integer n, .float => .ok (.float (Binary.ofInt n.toInt).toSingle)
    | .integer n, .double => .ok (.double (Binary.ofInt n.toInt).toDouble)
    | .long n, .float => .ok (.float (Binary.ofInt n.toInt).toSingle)
    | .long n, .double => .ok (.double (Binary.ofInt n.toInt).toDouble)
    | .float x, .double => .ok (.double (Binary.ofSingle x).toDouble)
    | _, _ => .error (v.refuse target .unrelated)

/-- The whole part of a finite number between the limits of 64 bits, both ends included; the upper
end is one too large for 64 bits and becomes the largest number there is. -/
def cutToLong (x : Binary) : Option Int64 :=
  x.truncate.bind fun n =>
    if -9223372036854775808 ≤ n ∧ n ≤ 9223372036854775808 then
      some (Int64.ofInt (min n 9223372036854775807))
    else none

/-- The integer of 64 bits that a value of another kind stands for, or what stands in the way. -/
def toLong : Value → Except Obstacle Int64
  | .integer n => .ok (Formulary.widen n)
  | .float x => (cutToLong (Binary.ofSingle x)).elim (.error .outOfRange) .ok
  | .double x => (cutToLong (Binary.ofDouble x)).elim (.error .outOfRange) .ok
  | .boolean b => .ok (if b then 1 else 0)
  | .string s => (readInt64? (Text.trim s.toList)).elim (.error (.notInteger s)) .ok
  | .dateTime t => .ok (Int64.ofInt t.millis)
  | .duration d => .ok (Int64.ofInt d.millis)
  | _ => .error .unrelated

def toInteger (v : Value) : Except Obstacle Int32 :=
  v.toLong.bind fun n => (Formulary.int32? n.toInt).elim (.error .outOfRange) .ok

def toDouble : Value → Except Obstacle Float
  | .boolean b => .ok (if b then 1 else 0)
  | .string s => (readDouble? (Text.trim s.toList)).elim (.error (.notNumber s)) .ok
  | v => v.double?.elim (.error .unrelated) .ok

def toBoolean : Value → Except Obstacle Bool
  | .null => .ok false
  | .boolean b => .ok b
  | .string s => (Text.readBool? s).elim (.error (.notBoolean s)) .ok
  | .integer n => .ok (n != 0)
  | .long n => .ok (n != 0)
  | .float x => .ok (singleRank x != 0)
  | .double x => .ok (doubleRank x != 0)
  | _ => .error .unrelated

def toDateTime : Value → Except Obstacle Instant
  | .dateTime t => .ok t
  | .string s => (Timestamp.read? s.toList).elim (.error (.notDate s)) .ok
  | v => match v.int? with
    | some millis => (Instant.ofMillis? millis).elim (.error .outOfRange) .ok
    | none => .error .unrelated

def toDuration : Value → Except Obstacle Span
  | .duration d => .ok d
  | .string s => match readInt64? (Text.trim s.toList) with
    | some millis => (Span.ofMillis? millis.toInt).elim (.error .outOfRange) .ok
    | none => .error (.notDuration s)
  | v => match v.int? with
    | some millis => (Span.ofMillis? millis).elim (.error .outOfRange) .ok
    | none => .error .unrelated

/-- A value of the target kind, or the refusal that names both kinds. -/
def found (v : Value) (target : Kind) (result : Except Obstacle Value) : Except EvalError Value :=
  result.mapError (v.refuse target)

/-- The value as one of another kind. No value stays no value where that is a sensible answer, is
false among truth values and is refused among numbers. -/
def convert (v : Value) (target : Kind) : Except EvalError Value :=
  if v.kind = target then .ok v
  else match target with
    | .null => .ok .null
    | .integer => v.found .integer (v.toInteger.map .integer)
    | .long => v.found .long (v.toLong.map .long)
    | .float => v.found .double (v.toDouble.map fun x => .float (Binary.ofDouble x).toSingle)
    | .double => v.found .double (v.toDouble.map .double)
    | .boolean => v.found .boolean (v.toBoolean.map .boolean)
    | .string => if v.isNull then .ok .null else .ok (.string v.text)
    | .dateTime =>
      if v.isNull then .ok .null else v.found .dateTime (v.toDateTime.map .dateTime)
    | .duration =>
      if v.isNull then .ok .null else v.found .duration (v.toDuration.map .duration)
    | .object | .array =>
      if v.isNull then .ok .null else .error (v.refuse target .unrelated)

end Value

end Formulary
