import Formulary.Number.Binary
import Formulary.Number.Width
import Formulary.Text.Casing

/-!
# Numbers written in decimal

An integer is an optional sign and digits. A decimal number is an optional sign, digits with at
most one point among them or beside them, and an optional exponent; the words `inf`, `infinity` and
`nan` in any case are read as well. A decimal number is read exactly and rounded once.
-/

namespace Formulary

def digitsValue (digits : List Char) : Nat :=
  digits.foldl (fun value c => value * 10 + (c.toNat - 48)) 0

def splitSign : List Char → Bool × List Char
  | '-' :: cs => (true, cs)
  | '+' :: cs => (false, cs)
  | cs => (false, cs)

def readInt? (cs : List Char) : Option Int :=
  let (negative, digits) := splitSign cs
  if digits.isEmpty || !digits.all Char.isDigit then none
  else some (if negative then -digitsValue digits else digitsValue digits)

def readInt32? (cs : List Char) : Option Int32 := (readInt? cs).bind int32?

def readInt64? (cs : List Char) : Option Int64 := (readInt? cs).bind int64?

/-- A number written in decimal, before any rounding: `coefficient * 10 ^ exponent` with its sign,
or one of the words. -/
inductive Numeral
  | nan
  | infinite (negative : Bool)
  | finite (negative : Bool) (coefficient : Nat) (exponent : Int)
deriving DecidableEq, Repr

namespace Numeral

/-- The decimal number that digits, an optional fraction and an optional exponent write. -/
def readUnsigned? (negative : Bool) (cs : List Char) : Option Numeral :=
  let (whole, afterWhole) := cs.span Char.isDigit
  let (fraction, afterFraction) := match afterWhole with
    | '.' :: rest => rest.span Char.isDigit
    | rest => ([], rest)
  if whole.isEmpty && fraction.isEmpty then none
  else
    let exponent : Option Int := match afterFraction with
      | [] => some 0
      | e :: digits => if e == 'e' || e == 'E' then readInt? digits else none
    exponent.map fun e => .finite negative (digitsValue (whole ++ fraction)) (e - fraction.length)

def read? (cs : List Char) : Option Numeral :=
  let (negative, body) := splitSign cs
  if Text.isOneOf ["nan"] body then some .nan
  else if Text.isOneOf ["inf", "infinity"] body then some (.infinite negative)
  else readUnsigned? negative body

def toDouble : Numeral → Float
  | nan => Binary.nan.toDouble
  | infinite negative => (Binary.infinite negative).toDouble
  | finite negative c e =>
    let magnitude := Float.ofScientific c (e < 0) e.natAbs
    if negative then -magnitude else magnitude

/-- The nearest single, rounded once and not by way of a double. -/
def toSingle : Numeral → Float32
  | nan => Binary.nan.toSingle
  | infinite negative => (Binary.infinite negative).toSingle
  | finite negative c e =>
    let magnitude := Float32.ofScientific c (e < 0) e.natAbs
    if negative then -magnitude else magnitude

end Numeral

def readDouble? (cs : List Char) : Option Float := (Numeral.read? cs).map Numeral.toDouble

def readSingle? (cs : List Char) : Option Float32 := (Numeral.read? cs).map Numeral.toSingle

end Formulary
