import Formulary.Proofs.Strategy.Absence
import Formulary.Proofs.Strategy.Matching
import Formulary.Proofs.Time.Nanoseconds
import Formulary.Proofs.Value.Whole

/-!
# Arithmetic of dates and durations is exact

Dates and durations that have a sum or a difference reach the operation as they are, under both
strategies. The operation adds or subtracts nanoseconds, and what comes out is either the exact time
or an overflow at the ends of its range. So an operation and its inverse cancel wherever the first
of the two has a result.
-/

namespace Formulary

namespace Value

/-- The value is a date so many nanoseconds after the start of 1970, in no leap second. -/
def StandsAt (v : Value) (n : Int) : Prop :=
  ∃ t : Instant, v = .dateTime t ∧ t.isLeap = false ∧ t.sinceEpoch = n

def Lasts (v : Value) (n : Int) : Prop := ∃ d : Span, v = .duration d ∧ d.nanos = n

variable {v : Value} {t : Instant} {n : Int}

theorem StandsAt.eq_dateTime (h : v.StandsAt t.sinceEpoch) (ht : t.isLeap = false) :
    v = .dateTime t := by
  obtain ⟨u, rfl, hu, hcount⟩ := h
  rw [Instant.eq_of_sinceEpoch hu ht hcount]

theorem Lasts.eq_duration {d : Span} (h : v.Lasts d.nanos) : v = .duration d := by
  obtain ⟨e, rfl, hnanos⟩ := h
  rw [Span.eq_of_nanos hnanos]

/-- A date is moved by a span to the date so many nanoseconds later, if there is one. -/
theorem yieldsIf_dateTime (op : Operation) (ht : t.isLeap = false) (d : Span) :
    YieldsIf (Instant.Reaches (t.sinceEpoch + d.nanos)) (·.StandsAt (t.sinceEpoch + d.nanos))
      (.overflow op) (fitting op dateTime (t.add? d)) := by
  constructor
  · intro h
    obtain ⟨u, hu, hleap, hcount⟩ := Instant.add?_of_reaches ht h
    rw [hu]
    exact ⟨_, rfl, u, rfl, hleap, hcount⟩
  · intro h
    rw [Instant.add?_eq_none ht h]
    rfl

theorem yieldsIf_duration (op : Operation) (n : Int) :
    YieldsIf (-spanLimit ≤ n ∧ n ≤ spanLimit) (·.Lasts n) (.overflow op)
      (fitting op duration (Span.ofNanos? n)) := by
  rw [fitting_eq_elim]
  exact yieldsIf_isSome Span.isSome_ofNanos?_iff fun d hd => ⟨d, rfl, Span.nanos_of_ofNanos? hd⟩

end Value

namespace Coercion

/-- Times that an operation can compute with are left as they are. -/
def LeavesTimes (c : Coercion) : Prop :=
  ∀ op l r, isTemporalPair op l r = true → c.coerce op l r = .ok (l, r)

variable {c : Coercion} {op : Operation} {l r : Value}

theorem LeavesTimes.binary (hc : c.LeavesTimes) (hpair : isTemporalPair op l r = true)
    (apply : Value → Value → Except EvalError Value) : c.binary op apply l r = apply l r := by
  obtain ⟨hl, hr, -⟩ := isTemporalPair_iff.mp hpair
  have hleft : l.isNull = false := by cases l <;> first | rfl | cases hl
  have hright : r.isNull = false := by cases r <;> first | rfl | cases hr
  rw [Coercion.binary, hleft, hright, hc op l r hpair]
  rfl

variable (hc : c.LeavesTimes) {t u : Instant} {d e : Span}
include hc

theorem sub_dateTimes : c.sub (.dateTime t) (.dateTime u) = .ok (.duration (t.since u)) :=
  hc.binary rfl _

theorem yieldsIf_add_duration (ht : t.isLeap = false) :
    YieldsIf (Instant.Reaches (t.sinceEpoch + d.nanos)) (·.StandsAt (t.sinceEpoch + d.nanos))
      (.overflow .add) (c.add (.dateTime t) (.duration d)) :=
  (Value.yieldsIf_dateTime .add ht d).of_eq (hc.binary rfl _)

theorem yieldsIf_add_dateTime (ht : t.isLeap = false) :
    YieldsIf (Instant.Reaches (t.sinceEpoch + d.nanos)) (·.StandsAt (t.sinceEpoch + d.nanos))
      (.overflow .add) (c.add (.duration d) (.dateTime t)) :=
  (Value.yieldsIf_dateTime .add ht d).of_eq (hc.binary rfl _)

theorem yieldsIf_sub_duration (ht : t.isLeap = false) :
    YieldsIf (Instant.Reaches (t.sinceEpoch - d.nanos)) (·.StandsAt (t.sinceEpoch - d.nanos))
      (.overflow .sub) (c.sub (.dateTime t) (.duration d)) :=
  (Value.yieldsIf_dateTime .sub ht d.negate).of_eq (hc.binary rfl _)

theorem yieldsIf_add_durations :
    YieldsIf (-spanLimit ≤ d.nanos + e.nanos ∧ d.nanos + e.nanos ≤ spanLimit)
      (·.Lasts (d.nanos + e.nanos)) (.overflow .add) (c.add (.duration d) (.duration e)) :=
  (Value.yieldsIf_duration .add _).of_eq (hc.binary rfl _)

theorem yieldsIf_sub_durations :
    YieldsIf (-spanLimit ≤ d.nanos - e.nanos ∧ d.nanos - e.nanos ≤ spanLimit)
      (·.Lasts (d.nanos - e.nanos)) (.overflow .sub) (c.sub (.duration d) (.duration e)) :=
  (Value.yieldsIf_duration .sub _).of_eq (hc.binary rfl _)

/-- Adding the difference of two dates to the second gives the first. -/
theorem add_sub_dateTimes (ht : t.isLeap = false) (hu : u.isLeap = false) :
    c.add (.duration (t.since u)) (.dateTime u) = .ok (.dateTime t) := by
  have hcount : u.sinceEpoch + (t.since u).nanos = t.sinceEpoch := by
    rw [Instant.nanos_since ht hu]
    omega
  have hadd := yieldsIf_add_dateTime hc (d := t.since u) hu
  rw [hcount] at hadd
  obtain ⟨v, hv, hstands⟩ := hadd.value (Instant.reaches_sinceEpoch ht)
  rw [hv, hstands.eq_dateTime ht]

theorem sub_of_add_duration (ht : t.isLeap = false) {v : Value}
    (h : c.add (.dateTime t) (.duration d) = .ok v) : c.sub v (.duration d) = .ok (.dateTime t) := by
  obtain ⟨-, u, rfl, hu, hcount⟩ := (yieldsIf_add_duration hc ht).of_ok h
  have hsub := yieldsIf_sub_duration hc (d := d) hu
  rw [hcount, Int.add_sub_cancel] at hsub
  obtain ⟨w, hw, hstands⟩ := hsub.value (Instant.reaches_sinceEpoch ht)
  rw [hw, hstands.eq_dateTime ht]

theorem sub_of_add_durations {v : Value} (h : c.add (.duration d) (.duration e) = .ok v) :
    c.sub v (.duration e) = .ok (.duration d) := by
  obtain ⟨-, sum, rfl, hsum⟩ := (yieldsIf_add_durations hc).of_ok h
  have hsub := yieldsIf_sub_durations hc (d := sum) (e := e)
  rw [hsum, Int.add_sub_cancel] at hsub
  obtain ⟨w, hw, hlasts⟩ := hsub.value d.inRange
  rw [hw, hlasts.eq_duration]

end Coercion

namespace Strategy

theorem lenient_leavesTimes : lenient.toCoercion.LeavesTimes := fun _ _ _ h => if_pos h

theorem strict_leavesTimes : strict.toCoercion.LeavesTimes := fun _ _ _ h => if_pos (.inr h)

end Strategy

/-- Both strategies compute with dates outside of leap seconds and with durations exactly or not at
all. The difference of two dates always exists. A date and a duration have a sum, in either order,
and a difference wherever there is a date at that place, two durations wherever there is a duration
of that length, and the opposite of a duration always exists. Adding and taking away again leads
back. -/
theorem Strategy.time_arithmetic {s : Strategy} (hs : s = lenient ∨ s = strict) {t u : Instant}
    (ht : t.isLeap = false) (hu : u.isLeap = false) (d e : Span) :
    (∃ v, s.sub (.dateTime t) (.dateTime u) = .ok v ∧ v.Lasts (t.sinceEpoch - u.sinceEpoch)) ∧
    YieldsIf (Instant.Reaches (t.sinceEpoch + d.nanos)) (·.StandsAt (t.sinceEpoch + d.nanos))
      (.overflow .add) (s.add (.dateTime t) (.duration d)) ∧
    YieldsIf (Instant.Reaches (t.sinceEpoch + d.nanos)) (·.StandsAt (t.sinceEpoch + d.nanos))
      (.overflow .add) (s.add (.duration d) (.dateTime t)) ∧
    YieldsIf (Instant.Reaches (t.sinceEpoch - d.nanos)) (·.StandsAt (t.sinceEpoch - d.nanos))
      (.overflow .sub) (s.sub (.dateTime t) (.duration d)) ∧
    YieldsIf (-spanLimit ≤ d.nanos + e.nanos ∧ d.nanos + e.nanos ≤ spanLimit)
      (·.Lasts (d.nanos + e.nanos)) (.overflow .add) (s.add (.duration d) (.duration e)) ∧
    YieldsIf (-spanLimit ≤ d.nanos - e.nanos ∧ d.nanos - e.nanos ≤ spanLimit)
      (·.Lasts (d.nanos - e.nanos)) (.overflow .sub) (s.sub (.duration d) (.duration e)) ∧
    (∃ v, s.negative (.duration d) = .ok v ∧ v.Lasts (-d.nanos)) ∧
    (∀ v, s.sub (.dateTime t) (.dateTime u) = .ok v →
      s.add v (.dateTime u) = .ok (.dateTime t)) ∧
    (∀ v, s.add (.dateTime t) (.duration d) = .ok v →
      s.sub v (.duration d) = .ok (.dateTime t)) ∧
    (∀ v, s.add (.duration d) (.duration e) = .ok v →
      s.sub v (.duration e) = .ok (.duration d)) := by
  obtain ⟨c, hc, rfl⟩ : ∃ c : Coercion, c.LeavesTimes ∧ s = c.strategy := by
    rcases hs with rfl | rfl
    · exact ⟨_, lenient_leavesTimes, rfl⟩
    · exact ⟨_, strict_leavesTimes, rfl⟩
  have hdifference : c.strategy.sub (.dateTime t) (.dateTime u) = .ok (.duration (t.since u)) :=
    Coercion.sub_dateTimes hc
  refine ⟨⟨_, hdifference, _, rfl, Instant.nanos_since ht hu⟩,
    Coercion.yieldsIf_add_duration hc ht, Coercion.yieldsIf_add_dateTime hc ht,
    Coercion.yieldsIf_sub_duration hc ht, Coercion.yieldsIf_add_durations hc,
    Coercion.yieldsIf_sub_durations hc, ⟨_, rfl, d.negate, rfl, rfl⟩, ?_,
    fun v => Coercion.sub_of_add_duration hc ht, fun v => Coercion.sub_of_add_durations hc⟩
  intro v hv
  rw [hdifference] at hv
  cases hv
  exact Coercion.add_sub_dateTimes hc ht hu

/-- One nanosecond after the last date, and from the first date to the last. -/
theorem Strategy.time_arithmetic_ends :
    let last : Instant := ⟨lastSecond, 999999999, by decide⟩
    let first : Instant := ⟨firstSecond, 0, by decide⟩
    let nanosecond : Span := ⟨1, by decide⟩
    (strict = lenient ∨ strict = strict) ∧ last.isLeap = false ∧ first.isLeap = false ∧
      strict.add (.dateTime last) (.duration nanosecond) = .error (.overflow .add) ∧
      ∃ v, strict.sub (.dateTime last) (.dateTime first) = .ok v ∧
        v.Lasts 16544868105599999999999 := by
  intro last first nanosecond
  have hlast : last.isLeap = false := by decide
  have hfirst : first.isLeap = false := by decide
  obtain ⟨hsub, hadd, -⟩ := time_arithmetic (.inr rfl) hlast hfirst nanosecond nanosecond
  refine ⟨.inr rfl, hlast, hfirst, hadd.error ?_, hsub⟩
  unfold Instant.Reaches
  decide

end Formulary
