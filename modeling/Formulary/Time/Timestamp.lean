import Formulary.Text.Blank
import Formulary.Time.Instant

/-!
# Instants in writing

An instant is written `YYYY-MM-DDThh:mm:ss.fffZ`: in universal time, with exactly three digits of
the second cut and not rounded, a leap second as second 60, and a year outside 0 to 9999 with its
sign. Three forms are read: the full timestamp with its offset from universal time, a date with a
time of day, and a date alone. The last two are more liberal about digits and blanks.
-/

namespace Formulary

namespace Timestamp

/-- The digits of a number, with zeros in front up to a width. -/
def padded (width : Nat) (n : Nat) : String :=
  let digits := Nat.toDigits 10 n
  String.ofList (List.replicate (width - digits.length) '0' ++ digits)

/-- A year: four digits, and a sign outside 0 to 9999. -/
def yearText (year : Int) : String :=
  if 0 ≤ year ∧ year ≤ 9999 then padded 4 year.natAbs
  else (if year < 0 then "-" else "+") ++ padded 4 year.natAbs

def write (t : Instant) : String :=
  let date := Date.ofDays t.days
  let ofDay := t.secondOfDay
  let second := ofDay % 60 + t.nanos / 1000000000
  let millis := t.nanos % 1000000000 / 1000000
  yearText date.year ++ "-" ++ padded 2 date.month.natAbs ++ "-" ++ padded 2 date.day.natAbs
    ++ "T" ++ padded 2 (ofDay / 3600).natAbs ++ ":" ++ padded 2 (ofDay % 3600 / 60).natAbs
    ++ ":" ++ padded 2 second.natAbs ++ "." ++ padded 3 millis.natAbs ++ "Z"

def digitsValue (digits : List Char) : Int :=
  digits.foldl (fun value c => value * 10 + ((c.toNat : Int) - 48)) 0

/-- A number of exactly `count` digits, and what follows it. -/
def fixed (count : Nat) (cs : List Char) : Option (Int × List Char) :=
  let digits := cs.take count
  if digits.length = count ∧ digits.all Char.isDigit then some (digitsValue digits, cs.drop count)
  else none

def after (c : Char) : List Char → Option (List Char)
  | d :: cs => if d = c then some cs else none
  | [] => none

/-- A time of day as read: a second of 60 stands for a leap second. -/
structure Clock where
  hour : Int
  minute : Int
  second : Int
  nanos : Int

/-- The instant of a date and a time of day that is `offset` seconds ahead of universal time. -/
def instant? (date : Date) (clock : Clock) (offset : Int) : Option Instant :=
  if date.isValid && clock.hour ≤ 23 && clock.minute ≤ 59 && clock.second ≤ 60 then
    let leap := if clock.second = 60 then 1 else 0
    Instant.ofParts?
      (date.toDays * 86400 + clock.hour * 3600 + clock.minute * 60 + (clock.second - leap) - offset)
      (clock.nanos + leap * 1000000000)
  else none

/-- The fraction of a second: at least one digit after the point, of which nine count. -/
def fraction : List Char → Option (Int × List Char)
  | '.' :: cs =>
    let digits := cs.takeWhile Char.isDigit
    let counted := digits.take 9
    if counted.isEmpty then none
    else some (digitsValue counted * Nat.pow 10 (9 - counted.length), cs.dropWhile Char.isDigit)
  | cs => some (0, cs)

def offsetAfterSign (sign : Int) (cs : List Char) : Option (Int × List Char) := do
  let (hours, cs) ← fixed 2 cs
  let cs ← after ':' cs
  let (minutes, cs) ← fixed 2 cs
  if hours ≤ 23 ∧ minutes ≤ 59 then some (sign * (hours * 3600 + minutes * 60), cs) else none

/-- The offset from universal time: `Z`, or a sign with hours and minutes. The sign may be the true
minus sign. -/
def offset : List Char → Option (Int × List Char)
  | [] => none
  | c :: cs =>
    if c = 'Z' ∨ c = 'z' then some (0, cs)
    else if c = '+' then offsetAfterSign 1 cs
    else if c = '-' ∨ c = '−' then offsetAfterSign (-1) cs
    else none

def afterDateMark : List Char → Option (List Char)
  | c :: cs => if c = 'T' ∨ c = 't' ∨ c = ' ' then some cs else none
  | [] => none

/-- The full timestamp, with fixed digits and an offset. -/
def readFull? (cs : List Char) : Option Instant := do
  let (year, cs) ← fixed 4 cs
  let cs ← after '-' cs
  let (month, cs) ← fixed 2 cs
  let cs ← after '-' cs
  let (day, cs) ← fixed 2 cs
  let cs ← afterDateMark cs
  let (hour, cs) ← fixed 2 cs
  let cs ← after ':' cs
  let (minute, cs) ← fixed 2 cs
  let cs ← after ':' cs
  let (second, cs) ← fixed 2 cs
  let (nanos, cs) ← fraction cs
  let (ahead, cs) ← offset cs
  if cs.isEmpty then instant? ⟨year, month, day⟩ ⟨hour, minute, second, nanos⟩ ahead else none

/-- A number of one digit up to `most` digits, after blanks. -/
def flexible (most : Nat) (cs : List Char) : Option (Int × List Char) :=
  let cs := Text.trimStart cs
  let digits := (cs.take most).takeWhile Char.isDigit
  if digits.isEmpty then none else some (digitsValue digits, cs.drop digits.length)

/-- A year after blanks: up to four digits, or any number of digits after a sign. -/
def flexibleYear (cs : List Char) : Option (Int × List Char) :=
  let signed (sign : Int) (cs : List Char) : Option (Int × List Char) :=
    let digits := cs.takeWhile Char.isDigit
    if digits.isEmpty then none
    else some (sign * digitsValue digits, cs.dropWhile Char.isDigit)
  match Text.trimStart cs with
  | '+' :: cs => signed 1 cs
  | '-' :: cs => signed (-1) cs
  | cs => flexible 4 cs

def flexibleDate (cs : List Char) : Option (Date × List Char) := do
  let (year, cs) ← flexibleYear cs
  let cs ← after '-' cs
  let (month, cs) ← flexible 2 cs
  let cs ← after '-' cs
  let (day, cs) ← flexible 2 cs
  some (⟨year, month, day⟩, cs)

/-- A time of day with colons up to the end of the text. -/
def flexibleClock (cs : List Char) : Option Clock := do
  let (hour, cs) ← flexible 2 cs
  let cs ← after ':' cs
  let (minute, cs) ← flexible 2 cs
  let cs ← after ':' cs
  let (second, cs) ← flexible 2 cs
  if cs.isEmpty then some ⟨hour, minute, second, 0⟩ else none

/-- A date and a time of day with any blanks or none between them. -/
def readSpaced? (cs : List Char) : Option Instant := do
  let (date, cs) ← flexibleDate cs
  let clock ← flexibleClock (Text.trimStart cs)
  instant? date clock 0

/-- A date and a time of day with a `T` between them. -/
def readMarked? (cs : List Char) : Option Instant := do
  let (date, cs) ← flexibleDate cs
  let cs ← after 'T' cs
  let clock ← flexibleClock cs
  instant? date clock 0

/-- A date alone, which stands for its first second. -/
def readDate? (cs : List Char) : Option Instant := do
  let (date, cs) ← flexibleDate cs
  if cs.isEmpty then instant? date ⟨0, 0, 0, 0⟩ 0 else none

/-- The instant that the text writes, in the first of the forms that fits. -/
def read? (cs : List Char) : Option Instant :=
  let cs := Text.trim cs
  readFull? cs <|> readSpaced? cs <|> readMarked? cs <|> readDate? cs

end Timestamp

def Instant.text (t : Instant) : String := Timestamp.write t

end Formulary
