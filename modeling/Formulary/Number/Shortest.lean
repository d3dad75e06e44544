import Formulary.Number.Binary

/-!
# The shortest decimal that reads back

Of all decimals that round to a given binary number, `shortest` gives one with the fewest digits,
and of those the nearest to the number; of two equally near the larger. The number is never written
with an exponent: zeros are filled in on either side, and a whole number has no decimal point.
-/

namespace Formulary.Binary

structure Decimal where
  coefficient : Nat
  exponent : Int
deriving DecidableEq, Repr

/-- The numbers that round to one binary number, as multiples of the unit `2 ^ exponent`: from `low`
to `high` around `value`, with or without the two ends. -/
structure Interval where
  low : Nat
  value : Nat
  high : Nat
  exponent : Int
  closed : Bool

/-- The numbers that round to `m * 2 ^ q`. They reach halfway to the two neighbours, and the lower
neighbour of a power of two is only half as far away. The ends belong to an even significand. -/
def Format.interval (f : Format) (m : Nat) (q : Int) : Interval :=
  let halfBelow := if m = Nat.pow 2 f.fractionBits ∧ q > f.lowestExponent then 1 else 2
  ⟨4 * m - halfBelow, 4 * m, 4 * m + 2, q - 2, m % 2 == 0⟩

/-- How many decimal digits a number has; zero has one. -/
def digitCount (n : Nat) : Nat := (Nat.toDigits 10 n).length

def leadingExponent (num den : Nat) : Int :=
  if den ≤ num then digitCount (num / den) - 1
  else
    let shift := digitCount den - digitCount num
    if den ≤ num * Nat.pow 10 shift then -shift else -(shift + 1)

/-- The points next to the value on the grid of multiples of `10 ^ k`, nearest first, as far as they
lie in the interval. -/
def Interval.neighbours (i : Interval) (k : Int) : List Nat :=
  let scale := Nat.pow 2 i.exponent.toNat * Nat.pow 10 (-k).toNat
  let step := Nat.pow 10 k.toNat * Nat.pow 2 (-i.exponent).toNat
  let below := i.value * scale / step
  let inside (c : Nat) : Bool :=
    if i.closed then i.low * scale ≤ c * step && c * step ≤ i.high * scale
    else i.low * scale < c * step && c * step < i.high * scale
  let nearerBelow : Bool :=
    i.value * scale - below * step < (below + 1) * step - i.value * scale
  (if nearerBelow then [below, below + 1] else [below + 1, below]).filter inside

/-- The first grid, from `10 ^ k` down, with a point in the interval. A point that also lies on the
next coarser grid is written there. The number of grids that are tried is bounded; with none left
the finest one is taken as it is. -/
def Interval.search (i : Interval) : Nat → Int → Decimal
  | 0, k => ⟨i.value * Nat.pow 2 i.exponent.toNat * Nat.pow 10 (-k).toNat
              / (Nat.pow 10 k.toNat * Nat.pow 2 (-i.exponent).toNat), k⟩
  | tries + 1, k =>
    match i.neighbours k with
    | c :: _ => if c % 10 = 0 then ⟨c / 10, k + 1⟩ else ⟨c, k⟩
    | [] => i.search tries (k - 1)

/-- The shortest decimal that rounds to `m * 2 ^ q`, for a significand that is not zero. Seventeen
digits always suffice. -/
def Format.shortest (f : Format) (m : Nat) (q : Int) : Decimal :=
  let leading := leadingExponent (m * Nat.pow 2 q.toNat) (Nat.pow 2 (-q).toNat)
  (f.interval m q).search 18 leading

/-- The digits of a decimal with zeros filled in, and a point where there is a fraction. -/
def Decimal.positional (d : Decimal) : String :=
  let digits := Nat.toDigits 10 d.coefficient
  if d.exponent ≥ 0 then String.ofList (digits ++ List.replicate d.exponent.toNat '0')
  else
    let places := (-d.exponent).toNat
    let padded := List.replicate (places + 1 - digits.length) '0' ++ digits
    let whole := padded.length - places
    String.ofList (padded.take whole ++ '.' :: padded.drop whole)

def Format.text (f : Format) : Binary → String
  | .nan => "NaN"
  | .infinite negative => if negative then "-inf" else "inf"
  | .finite negative m q =>
    let magnitude := if m = 0 then "0" else (f.shortest m q).positional
    if negative then "-" ++ magnitude else magnitude

end Formulary.Binary

namespace Formulary

def doubleText (x : Float) : String := Binary.Format.double.text (Binary.ofDouble x)

def singleText (x : Float32) : String := Binary.Format.single.text (Binary.ofSingle x)

end Formulary
