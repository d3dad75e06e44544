import Formulary.Time.Calendar
import Formulary.Time.Span

/-!
# Points in time

An instant is a count of seconds from 1970-01-01T00:00:00Z and a count of nanoseconds within the
second. A thousand million nanoseconds or more stand for a leap second that follows the second.
Instants reach from the first second of the year -262143 to the last of the year 262142.
-/

namespace Formulary

def firstSecond : Int := -8334601228800

def lastSecond : Int := 8210266876799

/-- A point in time, in coordinated universal time. -/
structure Instant where
  seconds : Int
  nanos : Int
  inRange : firstSecond ≤ seconds ∧ seconds ≤ lastSecond ∧ 0 ≤ nanos ∧ nanos < 2000000000
deriving DecidableEq

namespace Instant

/-- The instant of these counts, if it can be named. -/
def ofParts? (seconds nanos : Int) : Option Instant :=
  if h : firstSecond ≤ seconds ∧ seconds ≤ lastSecond ∧ 0 ≤ nanos ∧ nanos < 2000000000 then
    some ⟨seconds, nanos, h⟩
  else none

def ofMillis? (millis : Int) : Option Instant :=
  ofParts? (millis / 1000) (millis % 1000 * 1000000)

/-- Milliseconds since the start of 1970, cut to the millisecond before. -/
def millis (t : Instant) : Int := t.seconds * 1000 + t.nanos / 1000000

def isLeap (t : Instant) : Bool := 1000000000 ≤ t.nanos

def secondOfDay (t : Instant) : Int := t.seconds % 86400

/-- Days from 1970-01-01. -/
def days (t : Instant) : Int := t.seconds / 86400

/-- The day of the week, Monday being 1. -/
def weekday (t : Instant) : Int := Date.weekday t.days

/-- The instant `seconds` and `nanos` later, both counted from within an ordinary second. -/
def carry? (seconds nanos : Int) : Option Instant :=
  ofParts? (seconds + nanos / 1000000000) (nanos % 1000000000)

/-- The instant a span later. A leap second is left at its far end when the span leads on past it
and at its near end when the span leads back by a second or more; a shorter span stays inside it. -/
def add? (t : Instant) (d : Span) : Option Instant :=
  if t.isLeap then
    if d.seconds > 0 ∨ (d.nanosPastSecond > 0 ∧ t.nanos ≥ 2000000000 - d.nanosPastSecond) then
      carry? (t.seconds + d.seconds) (t.nanos - 1000000000 + d.nanosPastSecond)
    else if d.seconds < 0 then
      carry? (t.seconds + 1 + d.seconds) (t.nanos - 1000000000 + d.nanosPastSecond)
    else ofParts? t.seconds (t.nanos + d.nanosPastSecond)
  else carry? (t.seconds + d.seconds) (t.nanos + d.nanosPastSecond)

def sub? (t : Instant) (d : Span) : Option Instant := t.add? d.negate

/-- The leap second that lies between two instants of a day and is in neither count of seconds. -/
def leapBetween (t u : Instant) : Int :=
  if t.secondOfDay > u.secondOfDay ∧ u.isLeap then 1
  else if t.secondOfDay < u.secondOfDay ∧ t.isLeap then -1
  else 0

theorem leapBetween_bounds (t u : Instant) : -1 ≤ leapBetween t u ∧ leapBetween t u ≤ 1 := by
  unfold leapBetween
  split
  · omega
  · split <;> omega

/-- The span from the second instant to the first. It is never too long. -/
def since (t u : Instant) : Span where
  nanos := (t.seconds - u.seconds + leapBetween t u) * 1000000000 + (t.nanos - u.nanos)
  inRange := by
    have ht := t.inRange
    have hu := u.inRange
    have hl := leapBetween_bounds t u
    simp only [firstSecond, lastSecond, spanLimit] at *
    omega

/-- Earlier, the same or later: by the second, then by the nanosecond. -/
def order (t u : Instant) : Ordering :=
  (compare t.seconds u.seconds).then (compare t.nanos u.nanos)

end Instant

end Formulary
