/-!
# Spans of time

A span is a number of nanoseconds, to either side. Its milliseconds fit 64 bits on both sides, so
the negative of a span is always a span.
-/

namespace Formulary

/-- Nanoseconds in the longest span. -/
def spanLimit : Int := 9223372036854775807 * 1000000

/-- A length of time, negative for one that leads back. -/
structure Span where
  nanos : Int
  inRange : -spanLimit ≤ nanos ∧ nanos ≤ spanLimit
deriving DecidableEq

namespace Span

def ofNanos? (nanos : Int) : Option Span :=
  if h : -spanLimit ≤ nanos ∧ nanos ≤ spanLimit then some ⟨nanos, h⟩ else none

def ofMillis? (millis : Int) : Option Span := ofNanos? (millis * 1000000)

def zero : Span := ⟨0, by decide⟩

def negate (d : Span) : Span := ⟨-d.nanos, by have := d.inRange; omega⟩

def add? (d e : Span) : Option Span := ofNanos? (d.nanos + e.nanos)

def sub? (d e : Span) : Option Span := ofNanos? (d.nanos - e.nanos)

/-- Whole milliseconds, cut toward zero. -/
def millis (d : Span) : Int := Int.tdiv d.nanos 1000000

def seconds (d : Span) : Int := Int.tdiv d.nanos 1000000000

/-- Nanoseconds past the whole seconds, with the sign of the span. -/
def nanosPastSecond (d : Span) : Int := Int.tmod d.nanos 1000000000

/-- The milliseconds in writing. -/
def text (d : Span) : String := toString d.millis

theorem nanos_of_ofNanos? {n : Int} {d : Span} (h : ofNanos? n = some d) : d.nanos = n := by
  unfold ofNanos? at h
  split at h <;> cases h
  rfl

theorem isSome_ofNanos?_iff {n : Int} :
    (ofNanos? n).isSome = true ↔ -spanLimit ≤ n ∧ n ≤ spanLimit := by
  unfold ofNanos?
  split
  case isTrue hrange => exact iff_of_true rfl hrange
  case isFalse hrange => exact iff_of_false Bool.false_ne_true hrange

end Span

end Formulary
