import Formulary.Library.Builtin

/-!
# Functions of numbers

Every function of a number gives no value for no value. Rounding and cutting to a whole number are
exact and give the narrowest kind of whole number that fits.
-/

namespace Formulary.Library

/-- A function of a double under several names. -/
def ofDouble (names : List String) (apply : Float → Float) : List Builtin :=
  Builtin.unaries names fun _ s v =>
    (number? s v).map fun x => x.elim .null fun x => .double (apply x)

/-- The whole number made of a double, in the narrowest kind that holds it. -/
def integral (function : String) (x : Float) (whole : Option Int) : Except EvalError Value :=
  match whole with
  | none => .error (refuse function (.notFinite (doubleText x)))
  | some n =>
    match int32? n, int64? n with
    | some n, _ => .ok (.integer n)
    | none, some n => .ok (.long n)
    | none, none => .error (refuse function (.outOfRange (doubleText x)))

def absolute (s : Strategy) (v : Value) : Except EvalError Value :=
  match v with
  | .null => .ok .null
  | .integer n => narrow .integer (int32? n.toInt.natAbs)
  | .long n => narrow .long (int64? n.toInt.natAbs)
  | .float x => .ok (.float x.abs)
  | .double x => .ok (.double x.abs)
  | v => (number? s v).map fun x => x.elim .null fun x => .double x.abs
where
  /-- A whole number that may not fit its kind. -/
  narrow {α : Type} (wrap : α → Value) (n : Option α) : Except EvalError Value :=
    n.elim (.error (refuse "Abs" .overflow)) fun n => .ok (wrap n)

def abs : Builtin := .unary "Abs" absolute

def truncate : List Builtin := Builtin.unaries ["Trunc", "Truncate"] fun name s v =>
  (number? s v).bind fun x =>
    x.elim (.ok .null) fun x => integral name x (Binary.ofDouble x).truncate

/-- The power of ten with an exponent; a negative exponent gives the reciprocal of the power with
the opposite one. -/
def powerOfTen (exponent : Int) : Float :=
  let power := Float.ofScientific (Nat.pow 10 exponent.natAbs) false 0
  if exponent < 0 then 1.0 / power else power

/-- How many decimal places are rounded to at most, to either side of the point. -/
def mostPlaces : Int := 15

/-- The number rounded to decimal places, a half away from zero. -/
def roundTo (x : Float) (places : Int) : Float :=
  let scale := powerOfTen (Max.max (-mostPlaces) (Min.min places mostPlaces))
  (x * scale).round / scale

/-- The number rounded to a whole number, or to decimal places, a half away from zero. -/
def round : Builtin where
  name := "Round"
  arity := .oneOf [1, 2]
  apply args s := (number? s (argument args 0)).bind fun x =>
    match x with
    | none => .ok .null
    | some x =>
      if args.length = 1 then integral "Round" x (Binary.ofDouble x).roundHalfAway
      else (whole s args 1 0).map fun places => .double (roundTo x places)

def e : Builtin := .value "E" (.double 2.718281828459045)

def pi : Builtin := .value "Pi" (.double 3.141592653589793)

/-- Functions with the precision of doubles. -/
def transcendental : List Builtin :=
  ofDouble ["Acos"] Float.acos ++ ofDouble ["Asin"] Float.asin ++ ofDouble ["Atan"] Float.atan
    ++ ofDouble ["Exp"] Float.exp ++ ofDouble ["Log", "Ln"] Float.log
    ++ ofDouble ["Log10"] Float.log10 ++ ofDouble ["Ceil", "Ceiling"] Float.ceil
    ++ ofDouble ["Floor"] Float.floor ++ ofDouble ["Cos"] Float.cos ++ ofDouble ["Sin"] Float.sin
    ++ ofDouble ["Tan"] Float.tan ++ ofDouble ["Sqr", "Sqrt"] Float.sqrt

end Formulary.Library
