/-!
# Binary floating-point numbers, exactly

A double or a single is a fraction with a power of two, an infinity, or no number at all. `Binary`
holds that value exactly, so that cutting to an integer, taking a remainder and changing the format
are integer arithmetic with at most one rounding. The order that comparisons use is a whole number
read off the bits: no-number stands above every number and equals itself, and the two zeros are one.
-/

namespace Formulary

/-- The exact value of a floating-point number: `significand * 2 ^ exponent` with its sign, an
infinity, or no number. -/
inductive Binary
  | nan
  | infinite (negative : Bool)
  | finite (negative : Bool) (significand : Nat) (exponent : Int)
deriving DecidableEq, Repr

namespace Binary

/-- An interchange format: how many bits the fraction and the exponent take. -/
structure Format where
  fractionBits : Nat
  exponentBits : Nat

def Format.single : Format := ⟨23, 8⟩

def Format.double : Format := ⟨52, 11⟩

namespace Format

/-- What stored exponents are offset by. -/
def bias (f : Format) : Int := Nat.pow 2 (f.exponentBits - 1) - 1

/-- The exponent of the last place of numbers below the normal range. -/
def lowestExponent (f : Format) : Int := 1 - f.bias - f.fractionBits

def decode (f : Format) (bits : Nat) : Binary :=
  let fraction := bits % Nat.pow 2 f.fractionBits
  let exponent := bits / Nat.pow 2 f.fractionBits % Nat.pow 2 f.exponentBits
  let negative := bits / Nat.pow 2 (f.fractionBits + f.exponentBits) % 2 == 1
  if exponent = Nat.pow 2 f.exponentBits - 1 then
    if fraction = 0 then .infinite negative else .nan
  else if exponent = 0 then .finite negative fraction f.lowestExponent
  else .finite negative (Nat.pow 2 f.fractionBits + fraction) (exponent - f.bias - f.fractionBits)

end Format

def ofDouble (x : Float) : Binary := Format.double.decode x.toBits.toNat

def ofSingle (x : Float32) : Binary := Format.single.decode x.toBits.toNat

/-- A quotient rounded to the nearest whole number, a half to the even neighbour. -/
def roundQuotient (num den : Nat) : Nat :=
  let whole := num / den
  let rest := 2 * (num % den)
  if rest < den ∨ (rest = den ∧ whole % 2 = 0) then whole else whole + 1

namespace Format

/-- The exponent of the last place that is kept of `m * 2 ^ q`. -/
def lastPlace (f : Format) (m : Nat) (q : Int) : Int :=
  max (Nat.log2 m + q - f.fractionBits) f.lowestExponent

/-- How often the last place fits into `m * 2 ^ q`, rounded. -/
def units (f : Format) (m : Nat) (q : Int) : Nat :=
  let place := f.lastPlace m q
  roundQuotient (m * Nat.pow 2 (q - place).toNat) (Nat.pow 2 (place - q).toNat)

/-- The bits of an infinite magnitude, which are those behind the largest finite one. -/
def infinityBits (f : Format) : Nat := (Nat.pow 2 f.exponentBits - 1) * Nat.pow 2 f.fractionBits

/-- The bits of the magnitude nearest to `m * 2 ^ q`. The stored exponent counts places from the
lowest, and the leading bit of a number in the normal range adds one to it; so does the carry of a
number that is rounded up to a power of two. -/
def magnitudeBits (f : Format) (m : Nat) (q : Int) : Nat :=
  if m = 0 then 0
  else
    let places := (f.lastPlace m q - f.lowestExponent).toNat
    min (places * Nat.pow 2 f.fractionBits + f.units m q) f.infinityBits

def signBits (f : Format) (negative : Bool) : Nat :=
  if negative then Nat.pow 2 (f.fractionBits + f.exponentBits) else 0

/-- The bit pattern nearest to a value, ties to the even neighbour. -/
def encode (f : Format) : Binary → Nat
  | nan => f.infinityBits + Nat.pow 2 (f.fractionBits - 1)
  | infinite negative => f.signBits negative + f.infinityBits
  | finite negative m q => f.signBits negative + f.magnitudeBits m q

end Format

def toDouble (x : Binary) : Float := Float.ofBits (UInt64.ofNat (Format.double.encode x))

def toSingle (x : Binary) : Float32 := Float32.ofBits (UInt32.ofNat (Format.single.encode x))

def ofInt (n : Int) : Binary := .finite (n < 0) n.natAbs 0

/-- A number, neither infinite nor missing. -/
def isFinite : Binary → Bool
  | finite .. => true
  | _ => false

/-- The whole number left when the fraction of a finite value is cut off. -/
def truncate : Binary → Option Int
  | finite negative m q =>
    let magnitude : Nat := if q ≥ 0 then m * Nat.pow 2 q.toNat else m / Nat.pow 2 (-q).toNat
    some (if negative then -magnitude else magnitude)
  | _ => none

/-- The whole number nearest to a finite value; a half goes away from zero. -/
def roundHalfAway : Binary → Option Int
  | finite negative m q =>
    let magnitude : Nat :=
      if q ≥ 0 then m * Nat.pow 2 q.toNat
      else (2 * m + Nat.pow 2 (-q).toNat) / (2 * Nat.pow 2 (-q).toNat)
    some (if negative then -magnitude else magnitude)
  | _ => none

/-- The remainder of the division that cuts toward zero. It is exact and has the sign of the
dividend; an infinite dividend or a zero divisor leaves no number. -/
def remainder : Binary → Binary → Binary
  | finite negative m q, finite _ n r =>
    if n = 0 then .nan
    else
      let low := min q r
      .finite negative (m * Nat.pow 2 (q - low).toNat % (n * Nat.pow 2 (r - low).toNat)) low
  | finite negative m q, infinite _ => .finite negative m q
  | _, _ => .nan

end Binary

/-- The rank of a sign and a magnitude: zero for both zeros, and mirrored below. -/
def signedRank (signBit : Nat) (bits : Nat) : Int :=
  let magnitude : Int := (bits % signBit : Nat)
  if bits / signBit % 2 == 1 then -magnitude else magnitude

/-- Where a double stands among all doubles: no-number above everything, both zeros alike. -/
def doubleRank (x : Float) : Int :=
  if x.isNaN then 9223372036854775808 else signedRank 9223372036854775808 x.toBits.toNat

def singleRank (x : Float32) : Int :=
  if x.isNaN then 2147483648 else signedRank 2147483648 x.toBits.toNat

end Formulary
