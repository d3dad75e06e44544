import Formulary.Library.Builtin
import Formulary.Time.Timestamp

/-!
# Functions of dates and durations

Dates are given in universal time. Parts that are left out, and parts without a value, are the least
that a date or a duration can have.
-/

namespace Formulary.Library

/-- A total in units of which `scale` make one, and some more of these units. Both steps stay within
64 bits. -/
def refine (total scale part : Int) : Option Int := do
  let scaled ← int64? (total * scale)
  let sum ← int64? (scaled.toInt + part)
  return sum.toInt

/-- The milliseconds of a duration, computed from the largest part to the smallest. -/
def totalMillis (days hours minutes seconds millis : Int) : Option Int := do
  let hours ← refine days 24 hours
  let minutes ← refine hours 60 minutes
  let seconds ← refine minutes 60 seconds
  refine seconds 1000 millis

def spanOf (millis : Int) : Except EvalError Value :=
  match Span.ofMillis? millis with
  | some d => .ok (.duration d)
  | none => .error (refuse "TimeSpan" .spanOutOfRange)

/-- A duration from milliseconds, or from days, hours, minutes, seconds and milliseconds. -/
def timeSpan : Builtin where
  name := "TimeSpan"
  arity := .oneOf [1, 3, 4, 5]
  apply args s :=
    if args.length = 1 then (whole s args 0 0).bind spanOf
    else do
      let days ← whole s args 0 0
      let hours ← whole s args 1 0
      let minutes ← whole s args 2 0
      let seconds ← whole s args 3 0
      let millis ← whole s args 4 0
      match totalMillis days hours minutes seconds millis with
      | some total => spanOf total
      | none => .error (refuse "TimeSpan" .spanOutOfRange)

/-- A part of a date: not negative and of 32 bits at most. -/
def datePart (s : Strategy) (args : List Value) (i : Nat) (other : Int) : Except EvalError Int := do
  let n ← whole s args i other
  if 0 ≤ n ∧ n < 4294967296 then return n
  else .error (refuse "Date" (.outOfRange (toString n)))

/-- The instant of a date and a time of day, and milliseconds on top. -/
def instantOf (date : Date) (hour minute second millis : Int) : Option Instant :=
  if second < 60 then do
    let start ← Timestamp.instant? date ⟨hour, minute, second, 0⟩ 0
    start.add? (← Span.ofMillis? millis)
  else none

/-- A date from year, month, day, hour, minute, second and milliseconds. A single argument is
converted instead. -/
def date : Builtin where
  name := "Date"
  arity := .between 1 7
  apply args s :=
    if args.length = 1 then s.convert (argument args 0) .dateTime
    else do
      let year ← whole s args 0 0
      if (int32? year).isNone then .error (refuse "Date" (.yearOutOfRange year))
      else
        let millis ← datePart s args 6 0
        let month ← datePart s args 1 1
        let day ← datePart s args 2 1
        let hour ← datePart s args 3 0
        let minute ← datePart s args 4 0
        let second ← datePart s args 5 0
        match instantOf ⟨year, month, day⟩ hour minute second millis with
        | some t => return .dateTime t
        | none => .error (refuse "Date" .noSuchDate)

/-- The day of the week of a date, Monday being 1. -/
def dayOfWeek : Builtin := .unary "DayOfWeek" fun s v =>
  (s.convert v .dateTime).map fun t =>
    match t with
    | .dateTime t => .integer (Int32.ofInt t.weekday)
    | _ => .null

end Formulary.Library
