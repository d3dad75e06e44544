import Formulary.Error.Evaluation
import Formulary.Text.Wildcard

/-!
# Operations on values of matching kinds

Each operation is defined on two values that a strategy has brought to one kind, and on the pairs of
dates and durations that have an arithmetic of their own. Whole numbers are computed exactly and
then either fit their width or overflow; every other pair of kinds is a mismatch.
-/

namespace Formulary.Value

def mismatch (op : Operation) (left right : Value) : EvalError :=
  .typeMismatch op left.kind right.kind

/-- A result that may not exist, which then is an overflow. -/
def fitting (op : Operation) {α : Type} (wrap : α → Value) : Option α → Except EvalError Value
  | some a => .ok (wrap a)
  | none => .error (.overflow op)

def fitInteger (op : Operation) (n : Int) : Except EvalError Value :=
  fitting op integer (Formulary.int32? n)

def fitLong (op : Operation) (n : Int) : Except EvalError Value :=
  fitting op long (Formulary.int64? n)

/-- The sum; strings are joined. -/
def add : Value → Value → Except EvalError Value
  | integer m, integer n => fitInteger .add (m.toInt + n.toInt)
  | long m, long n => fitLong .add (m.toInt + n.toInt)
  | float x, float y => .ok (float (x + y))
  | double x, double y => .ok (double (x + y))
  | string s, string t => .ok (string (s ++ t))
  | duration d, duration e => fitting .add duration (d.add? e)
  | dateTime t, duration d => fitting .add dateTime (t.add? d)
  | duration d, dateTime t => fitting .add dateTime (t.add? d)
  | left, right => .error (mismatch .add left right)

def sub : Value → Value → Except EvalError Value
  | integer m, integer n => fitInteger .sub (m.toInt - n.toInt)
  | long m, long n => fitLong .sub (m.toInt - n.toInt)
  | float x, float y => .ok (float (x - y))
  | double x, double y => .ok (double (x - y))
  | duration d, duration e => fitting .sub duration (d.sub? e)
  | dateTime t, dateTime u => .ok (duration (t.since u))
  | dateTime t, duration d => fitting .sub dateTime (t.sub? d)
  | left, right => .error (mismatch .sub left right)

def mul : Value → Value → Except EvalError Value
  | integer m, integer n => fitInteger .mul (m.toInt * n.toInt)
  | long m, long n => fitLong .mul (m.toInt * n.toInt)
  | float x, float y => .ok (float (x * y))
  | double x, double y => .ok (double (x * y))
  | left, right => .error (mismatch .mul left right)

/-- A division of whole numbers that cuts toward zero. -/
def quotient (fit : Operation → Int → Except EvalError Value) (m n : Int) :
    Except EvalError Value :=
  if n = 0 then .error .divisionByZero else fit .div (Int.tdiv m n)

/-- What a division of whole numbers leaves, with the sign of the dividend. It overflows together
with the division. -/
def leftover (fit : Operation → Int → Except EvalError Value) (m n : Int) :
    Except EvalError Value :=
  if n = 0 then .error .divisionByZero
  else (fit .mod (Int.tdiv m n)).bind fun _ => fit .mod (Int.tmod m n)

/-- The quotient, cut toward zero for whole numbers. -/
def div : Value → Value → Except EvalError Value
  | integer m, integer n => quotient fitInteger m.toInt n.toInt
  | long m, long n => quotient fitLong m.toInt n.toInt
  | float x, float y => .ok (float (x / y))
  | double x, double y => .ok (double (x / y))
  | left, right => .error (mismatch .div left right)

/-- The remainder, with the sign of the dividend. -/
def rem : Value → Value → Except EvalError Value
  | integer m, integer n => leftover fitInteger m.toInt n.toInt
  | long m, long n => leftover fitLong m.toInt n.toInt
  | float x, float y =>
    .ok (float ((Binary.ofSingle x).remainder (Binary.ofSingle y)).toSingle)
  | double x, double y =>
    .ok (double ((Binary.ofDouble x).remainder (Binary.ofDouble y)).toDouble)
  | left, right => .error (mismatch .mod left right)

/-- The power, always computed with doubles. -/
def pow (left right : Value) : Except EvalError Value :=
  match left.double?, right.double? with
  | some x, some y => .ok (double (Float.pow x y))
  | _, _ => .error (mismatch .pow left right)

/-- A whole number moved by `amount` binary places, to the left or to the right. Moving to the right
rounds down. -/
def moved (op : Operation) (n : Int) (amount : Nat) : Int :=
  if op = .shiftLeft then n * Nat.pow 2 amount else n / Nat.pow 2 amount

/-- A shift by a number of binary places that is less than the width; bits that leave the width are
lost. -/
def shift (op : Operation) (left right : Value) : Except EvalError Value :=
  match right.int? with
  | some amount =>
    if 0 ≤ amount ∧ amount < 4294967296 then
      match left with
      | integer n =>
        if amount < 32 then .ok (integer (Int32.ofInt (moved op n.toInt amount.toNat)))
        else .error (.overflow op)
      | long n =>
        if amount < 64 then .ok (long (Int64.ofInt (moved op n.toInt amount.toNat)))
        else .error (.overflow op)
      | _ => .error (mismatch op left right)
    else .error (mismatch op left right)
  | none => .error (mismatch op left right)

/-- Both: of truth values, or bit by bit. -/
def and : Value → Value → Except EvalError Value
  | boolean b, boolean c => .ok (boolean (b && c))
  | integer m, integer n => .ok (integer (m &&& n))
  | long m, long n => .ok (long (m &&& n))
  | left, right => .error (mismatch .and left right)

def or : Value → Value → Except EvalError Value
  | boolean b, boolean c => .ok (boolean (b || c))
  | integer m, integer n => .ok (integer (m ||| n))
  | long m, long n => .ok (long (m ||| n))
  | left, right => .error (mismatch .or left right)

def xor : Value → Value → Except EvalError Value
  | boolean b, boolean c => .ok (boolean (b != c))
  | integer m, integer n => .ok (integer (m ^^^ n))
  | long m, long n => .ok (long (m ^^^ n))
  | left, right => .error (mismatch .xor left right)

/-- The opposite of a truth value, or of every bit. -/
def not : Value → Except EvalError Value
  | boolean b => .ok (boolean !b)
  | integer n => .ok (integer (~~~n))
  | long n => .ok (long (~~~n))
  | v => .error (.unsupportedOperation .not v.kind)

def negate : Value → Except EvalError Value
  | integer n => fitInteger .negate (-n.toInt)
  | long n => fitLong .negate (-n.toInt)
  | float x => .ok (float (-x))
  | double x => .ok (double (-x))
  | duration d => .ok (duration d.negate)
  | v => .error (.unsupportedOperation .negate v.kind)

/-- Which of two values of one kind comes first. -/
def order (op : Operation) : Value → Value → Except EvalError Ordering
  | integer m, integer n => .ok (compare m.toInt n.toInt)
  | long m, long n => .ok (compare m.toInt n.toInt)
  | float x, float y => .ok (compare (singleRank x) (singleRank y))
  | double x, double y => .ok (compare (doubleRank x) (doubleRank y))
  | string s, string t => .ok (compare s t)
  | boolean b, boolean c => .ok (compare b.toNat c.toNat)
  | dateTime t, dateTime u => .ok (t.order u)
  | duration d, duration e => .ok (compare d.nanos e.nanos)
  | left, right => .error (mismatch op left right)

end Formulary.Value
