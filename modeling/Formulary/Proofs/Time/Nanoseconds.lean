import Formulary.Time.Instant

/-!
# Instants and spans as counts of nanoseconds

An instant that lies in no leap second is the same as the nanoseconds from the start of 1970 to it.
In these counts a span leads from one instant to another by addition, exactly and in either
direction, as long as the count is one that an instant can have. The counts of instants and those of
spans have ends of their own, so neither operation can fail for any other reason.
-/

namespace Formulary

namespace Instant

/-- Nanoseconds from the start of 1970, leap seconds left out. -/
def sinceEpoch (t : Instant) : Int := t.seconds * 1000000000 + t.nanos

def Reaches (n : Int) : Prop :=
  firstSecond * 1000000000 ≤ n ∧ n < (lastSecond + 1) * 1000000000

variable {t u : Instant}

theorem nanos_of_not_isLeap (ht : t.isLeap = false) : 0 ≤ t.nanos ∧ t.nanos < 1000000000 := by
  have hrange := t.inRange
  simp only [isLeap, decide_eq_false_iff_not] at ht
  omega

theorem reaches_sinceEpoch (ht : t.isLeap = false) : Reaches t.sinceEpoch := by
  have hrange := t.inRange
  have hnanos := nanos_of_not_isLeap ht
  unfold Reaches sinceEpoch
  omega

/-- Outside of leap seconds an instant is told by its nanoseconds. -/
theorem eq_of_sinceEpoch (ht : t.isLeap = false) (hu : u.isLeap = false)
    (h : t.sinceEpoch = u.sinceEpoch) : t = u := by
  have htnanos := nanos_of_not_isLeap ht
  have hunanos := nanos_of_not_isLeap hu
  unfold sinceEpoch at h
  have hseconds : t.seconds = u.seconds := by omega
  have hnanos : t.nanos = u.nanos := by omega
  cases t
  cases u
  cases hseconds
  cases hnanos
  rfl

/-- The difference of two instants outside of leap seconds is the difference of their counts. -/
theorem nanos_since (ht : t.isLeap = false) (hu : u.isLeap = false) :
    (t.since u).nanos = t.sinceEpoch - u.sinceEpoch := by
  have hbetween : leapBetween t u = 0 := by simp [leapBetween, ht, hu]
  simp only [since, sinceEpoch, hbetween]
  omega

theorem carry?_of_reaches {seconds nanos : Int} (h : Reaches (seconds * 1000000000 + nanos)) :
    ∃ t, carry? seconds nanos = some t ∧ t.isLeap = false ∧
      t.sinceEpoch = seconds * 1000000000 + nanos := by
  unfold Reaches at h
  refine ⟨⟨seconds + nanos / 1000000000, nanos % 1000000000, by omega⟩, dif_pos _, ?_, ?_⟩
  · simp only [isLeap, decide_eq_false_iff_not]
    omega
  · change (seconds + nanos / 1000000000) * 1000000000 + nanos % 1000000000 = _
    omega

theorem carry?_eq_none {seconds nanos : Int} (h : ¬ Reaches (seconds * 1000000000 + nanos)) :
    carry? seconds nanos = none := by
  unfold Reaches at h
  exact dif_neg (by omega)

end Instant

namespace Span

theorem nanos_eq_seconds (d : Span) : d.nanos = d.seconds * 1000000000 + d.nanosPastSecond := by
  rw [seconds, nanosPastSecond, Int.mul_comm, Int.mul_tdiv_add_tmod]

theorem eq_of_nanos {d e : Span} (h : d.nanos = e.nanos) : d = e := by
  cases d
  cases e
  cases h
  rfl

end Span

namespace Instant

variable {t : Instant}

theorem add?_eq_carry? (ht : t.isLeap = false) (d : Span) :
    t.add? d = carry? (t.seconds + d.seconds) (t.nanos + d.nanosPastSecond) := by
  simp [add?, ht]

theorem count_eq (t : Instant) (d : Span) :
    (t.seconds + d.seconds) * 1000000000 + (t.nanos + d.nanosPastSecond) =
      t.sinceEpoch + d.nanos := by
  rw [d.nanos_eq_seconds, sinceEpoch]
  omega

theorem add?_of_reaches (ht : t.isLeap = false) {d : Span}
    (h : Reaches (t.sinceEpoch + d.nanos)) :
    ∃ u, t.add? d = some u ∧ u.isLeap = false ∧ u.sinceEpoch = t.sinceEpoch + d.nanos := by
  rw [add?_eq_carry? ht, ← count_eq]
  exact carry?_of_reaches (count_eq t d ▸ h)

theorem add?_eq_none (ht : t.isLeap = false) {d : Span}
    (h : ¬ Reaches (t.sinceEpoch + d.nanos)) : t.add? d = none := by
  rw [add?_eq_carry? ht]
  exact carry?_eq_none (count_eq t d ▸ h)

end Instant

end Formulary
