import Formulary.Time.Instant

/-!
# Times and whole milliseconds

A count of milliseconds can be compared with a time in two ways: after the time is cut to whole
milliseconds, or after the count is made a time. Both ways agree unless the count is the very
millisecond that the time is cut to and the time lies inside of it. A leap second is cut to
milliseconds of the second that follows, so there the two ways differ on all of those up to the cut.
-/

namespace Formulary

namespace Instant

variable {t u : Instant} {n : Int}

/-- A count of milliseconds that comes before or after an instant depending on whether the instant
is cut or the count is made an instant. -/
def Straddles (t : Instant) (n : Int) : Prop :=
  t.seconds * 1000 + min (t.nanos / 1000000) 1000 ≤ n ∧ n ≤ t.millis ∧ ofMillis? n ≠ some t

theorem order_eq_lt_iff : t.order u = .lt ↔
    t.seconds < u.seconds ∨ t.seconds = u.seconds ∧ t.nanos < u.nanos := by
  rw [order, Ordering.then_eq_lt, Int.compare_eq_lt, Int.compare_eq_eq, Int.compare_eq_lt]

theorem order_eq_gt_iff : t.order u = .gt ↔
    u.seconds < t.seconds ∨ t.seconds = u.seconds ∧ u.nanos < t.nanos := by
  rw [order, Ordering.then_eq_gt, Int.compare_eq_gt, Int.compare_eq_eq, Int.compare_eq_gt]

theorem order_eq_eq_iff : t.order u = .eq ↔ t = u := by
  rw [order, Ordering.then_eq_eq, Int.compare_eq_eq, Int.compare_eq_eq]
  cases t
  cases u
  simp

theorem order_swap (t u : Instant) : (t.order u).swap = u.order t := by
  rw [order, order, Ordering.swap_then, Int.compare_swap, Int.compare_swap]

theorem of_ofMillis? (h : ofMillis? n = some u) :
    u.seconds = n / 1000 ∧ u.nanos = n % 1000 * 1000000 := by
  unfold ofMillis? ofParts? at h
  split at h
  · cases h
    exact ⟨rfl, rfl⟩
  · cases h

theorem millis_of_ofMillis? (h : ofMillis? n = some u) : u.millis = n := by
  obtain ⟨hseconds, hnanos⟩ := of_ofMillis? h
  rw [millis, hseconds, hnanos]
  omega

/-- The counts of milliseconds that have an instant. -/
theorem isSome_ofMillis?_iff :
    (ofMillis? n).isSome = true ↔ firstSecond * 1000 ≤ n ∧ n ≤ lastSecond * 1000 + 999 := by
  unfold ofMillis? ofParts? firstSecond lastSecond
  split
  case isTrue hrange => exact iff_of_true rfl (by omega)
  case isFalse hrange => exact iff_of_false Bool.false_ne_true (by omega)

/-- An instant stands to a number of milliseconds as its own milliseconds do, unless the number
straddles it. -/
theorem order_ofMillis? (h : ofMillis? n = some u) (ht : ¬ t.Straddles n) :
    t.order u = compare t.millis n := by
  obtain ⟨hseconds, hnanos⟩ := of_ofMillis? h
  have hrange := t.inRange
  unfold Straddles at ht
  unfold millis at ht ⊢
  rcases Int.lt_trichotomy (t.seconds * 1000 + t.nanos / 1000000) n with hlt | heq | hgt
  · rw [Int.compare_eq_lt.mpr hlt, order_eq_lt_iff]
    omega
  · have hself : ofMillis? n = some t := by
      refine Decidable.not_not.mp fun hne => ht ⟨?_, ?_, hne⟩ <;> omega
    rw [Int.compare_eq_eq.mpr heq, order_eq_eq_iff]
    exact Option.some.inj (hself.symm.trans h)
  · have hbefore : n < t.seconds * 1000 + min (t.nanos / 1000000) 1000 := by
      refine Int.not_le.mp fun hle => ht ⟨hle, by omega, fun hself => ?_⟩
      obtain ⟨hs, hn⟩ := of_ofMillis? hself
      omega
    rw [Int.compare_eq_gt.mpr hgt, order_eq_gt_iff]
    omega

theorem millis_bounds (t : Instant) :
    -9223372036854775808 ≤ t.millis ∧ t.millis ≤ 9223372036854775807 := by
  have hrange := t.inRange
  simp only [millis, firstSecond, lastSecond] at *
  omega

end Instant

namespace Span

variable {d e : Span} {n : Int}

/-- A count of milliseconds that a span is cut to although it is another span. -/
def Straddles (d : Span) (n : Int) : Prop := d.millis = n ∧ ofMillis? n ≠ some d

theorem nanos_eq (d : Span) : ∃ rest : Int,
    d.nanos = 1000000 * d.millis + rest ∧ -1000000 < rest ∧ rest < 1000000 :=
  ⟨d.nanos.tmod 1000000, (Int.mul_tdiv_add_tmod ..).symm, Int.lt_tmod_of_pos _ (by decide),
    Int.tmod_lt_of_pos _ (by decide)⟩

theorem millis_bounds (d : Span) :
    -9223372036854775808 ≤ d.millis ∧ d.millis ≤ 9223372036854775807 := by
  obtain ⟨rest, hnanos, habove, hbelow⟩ := d.nanos_eq
  have hrange := d.inRange
  simp only [spanLimit] at hrange
  omega

theorem millis_of_ofMillis? (h : ofMillis? n = some d) : d.millis = n := by
  rw [millis, nanos_of_ofNanos? h]
  exact Int.mul_tdiv_cancel n (by decide)

/-- The counts of milliseconds that have a span. -/
theorem isSome_ofMillis?_iff : (ofMillis? n).isSome = true ↔
    -9223372036854775807 ≤ n ∧ n ≤ 9223372036854775807 := by
  rw [ofMillis?, isSome_ofNanos?_iff, spanLimit]
  omega

/-- A span of whole milliseconds is the span of its milliseconds. -/
theorem ofMillis?_millis (hd : d.nanos % 1000000 = 0) : ofMillis? d.millis = some d := by
  obtain ⟨rest, hnanos, habove, hbelow⟩ := d.nanos_eq
  have hwhole : d.millis * 1000000 = d.nanos := by omega
  rw [ofMillis?, hwhole]
  exact dif_pos d.inRange

theorem compare_nanos_eq_eq : compare d.nanos e.nanos = .eq ↔ d = e := by
  rw [Int.compare_eq_eq]
  cases d
  cases e
  simp

theorem compare_ofMillis? (h : ofMillis? n = some e) (hd : ¬ d.Straddles n) :
    compare d.nanos e.nanos = compare d.millis n := by
  have hnanos : e.nanos = n * 1000000 := nanos_of_ofNanos? h
  obtain ⟨rest, hcut, habove, hbelow⟩ := d.nanos_eq
  rcases Int.lt_trichotomy d.millis n with hlt | heq | hgt
  · rw [Int.compare_eq_lt.mpr hlt, Int.compare_eq_lt]
    omega
  · have hself : ofMillis? n = some d := Decidable.not_not.mp fun hne => hd ⟨heq, hne⟩
    rw [Int.compare_eq_eq.mpr heq, Int.compare_eq_eq, Option.some.inj (hself.symm.trans h)]
  · rw [Int.compare_eq_gt.mpr hgt, Int.compare_eq_gt]
    omega

end Span

end Formulary
