import Formulary.Proofs.Time.Milliseconds
import Formulary.Proofs.Time.Writing
import Formulary.Proofs.Value.Whole
import Formulary.Strategy.Lenient

/-!
# Conversions there and back

Under the strategy that converts freely, a count of milliseconds becomes an instant or a span where
there is one, and is counted from it again. A value whose text says all there is to know about it
becomes that text, and is read from it again.
-/

namespace Formulary

open Strategy

variable {n : Int} {v : Value}

namespace Value

/-- The value has a text that says all there is to know about it: it is an integer, a truth value, a
span of whole milliseconds, or an instant that its timestamp names. -/
def Restorable : Value → Prop
  | integer _ | long _ | boolean _ => True
  | duration d => d.nanos % 1000000 = 0
  | dateTime t => Timestamp.Written t
  | _ => False

/-- A count of milliseconds becomes the instant that is counted by it. -/
theorem yieldsIf_convert_dateTime (n : Int64) :
    YieldsIf (-8334601228800000 ≤ n.toInt ∧ n.toInt ≤ 8210266876799999)
      (fun t => t.kind = .dateTime ∧ t.convert .long = .ok (.long n))
      (.conversionFailed .long .dateTime .outOfRange) ((long n).convert .dateTime) := by
  have hconvert : (long n).convert .dateTime = (Instant.ofMillis? n.toInt).elim
      (.error ((long n).refuse .dateTime .outOfRange)) fun t => .ok (.dateTime t) :=
    found_elim (long n) .dateTime .dateTime _ .outOfRange
  rw [hconvert]
  refine yieldsIf_isSome Instant.isSome_ofMillis?_iff fun t ht => ⟨rfl, ?_⟩
  have hback : (dateTime t).convert .long = .ok (.long (Int64.ofInt t.millis)) := rfl
  rw [hback, Instant.millis_of_ofMillis? ht, Int64.ofInt_toInt]

/-- A count of milliseconds becomes the span that is counted by it. -/
theorem yieldsIf_convert_duration (n : Int64) :
    YieldsIf (n ≠ Int64.minValue)
      (fun d => d.kind = .duration ∧ d.convert .long = .ok (.long n))
      (.conversionFailed .long .duration .outOfRange) ((long n).convert .duration) := by
  have hconvert : (long n).convert .duration = (Span.ofMillis? n.toInt).elim
      (.error ((long n).refuse .duration .outOfRange)) fun d => .ok (.duration d) :=
    found_elim (long n) .duration .duration _ .outOfRange
  have hrange : (Span.ofMillis? n.toInt).isSome = true ↔ n ≠ Int64.minValue := by
    have hlow := n.le_toInt
    have hhigh := n.toInt_lt
    have hleast : Int64.minValue.toInt = -9223372036854775808 := by decide
    rw [Span.isSome_ofMillis?_iff, ne_eq, ← Int64.toInt_inj, hleast]
    omega
  rw [hconvert]
  refine yieldsIf_isSome hrange fun d hd => ⟨rfl, ?_⟩
  have hback : (duration d).convert .long = .ok (.long (Int64.ofInt d.millis)) := rfl
  rw [hback, Span.millis_of_ofMillis? hd, Int64.ofInt_toInt]

variable {s : String}

theorem convert_string_long {n : Int64} (h : readInt64? (Text.trim s.toList) = some n) :
    (string s).convert .long = .ok (.long n) := by
  change (string s).found .long ((toLong (.string s)).map .long) = _
  rw [toLong, h]
  rfl

theorem convert_string_integer {n : Int32}
    (h : readInt64? (Text.trim s.toList) = some (Formulary.widen n)) :
    (string s).convert .integer = .ok (.integer n) := by
  have hshort : toInteger (.string s) = .ok n := by
    rw [toInteger, toLong, h]
    change (Formulary.int32? (Formulary.widen n).toInt).elim _ _ = _
    rw [toInt_widen, int32?_toInt]
    rfl
  change (string s).found .integer ((toInteger (.string s)).map .integer) = _
  rw [hshort]
  rfl

theorem convert_string_duration {n : Int64} {d : Span}
    (h : readInt64? (Text.trim s.toList) = some n) (hd : Span.ofMillis? n.toInt = some d) :
    (string s).convert .duration = .ok (.duration d) := by
  have hread : toDuration (.string s) = .ok d := by
    simp only [toDuration, h, hd, Option.elim_some]
  change (string s).found .duration ((toDuration (.string s)).map .duration) = _
  rw [hread]
  rfl

theorem convert_string_dateTime {t : Instant} (h : Timestamp.read? s.toList = some t) :
    (string s).convert .dateTime = .ok (.dateTime t) := by
  change (string s).found .dateTime ((toDateTime (.string s)).map .dateTime) = _
  rw [toDateTime, h]
  rfl

theorem readInt64?_text (hn : Kind.long.Holds n) :
    readInt64? (Text.trim (toString n).toList) = some (Int64.ofInt n) := by
  rw [readInt64?_toString]
  exact if_pos hn

/-- A value that its text restores is the same after a conversion to text and back. -/
theorem convert_text (hv : v.Restorable) :
    ∃ text, v.convert .string = .ok (.string text) ∧
      (string text).convert v.kind = .ok v := by
  cases v with
  | integer n =>
    have hlow := n.le_toInt
    have hhigh := n.toInt_lt
    have hread := readInt64?_text (n := n.toInt) (Kind.holds_long_iff.mpr (by omega))
    exact ⟨_, rfl, convert_string_integer hread⟩
  | long n =>
    have hread : readInt64? (Text.trim (toString n.toInt).toList) = some n := by
      rw [readInt64?_toString, int64?_toInt]
    exact ⟨_, rfl, convert_string_long hread⟩
  | boolean b => cases b <;> exact ⟨_, rfl, rfl⟩
  | duration d =>
    have hmillis := d.millis_bounds
    have hread := readInt64?_text (n := d.millis) (Kind.holds_long_iff.mpr (by omega))
    refine ⟨_, rfl, convert_string_duration hread ?_⟩
    rw [Int64.toInt_ofInt_of_le (by omega) (by omega), Span.ofMillis?_millis hv]
  | dateTime t => exact ⟨_, rfl, convert_string_dateTime (Timestamp.read?_write hv)⟩
  | _ => cases hv

end Value

/-- Conversions are undone by conversions back. A count of milliseconds is an instant within the
range of instants and a span unless it is the least one, and both are counted again as it. Integers,
truth values, spans of whole milliseconds, and instants of whole milliseconds, outside of leap
seconds and with a year from 0 to 9999, are read from the text that is written for them. -/
theorem Strategy.lenient_conversions_restore :
    (∀ n : Int64,
      YieldsIf (-8334601228800000 ≤ n.toInt ∧ n.toInt ≤ 8210266876799999)
        (fun t => t.kind = .dateTime ∧ lenient.convert t .long = .ok (.long n))
        (.conversionFailed .long .dateTime .outOfRange) (lenient.convert (.long n) .dateTime) ∧
      YieldsIf (n ≠ Int64.minValue)
        (fun d => d.kind = .duration ∧ lenient.convert d .long = .ok (.long n))
        (.conversionFailed .long .duration .outOfRange) (lenient.convert (.long n) .duration)) ∧
    ∀ v : Value, v.Restorable →
      ∃ text, lenient.convert v .string = .ok (.string text) ∧
        lenient.convert (.string text) v.kind = .ok v :=
  ⟨fun n => ⟨Value.yieldsIf_convert_dateTime n, Value.yieldsIf_convert_duration n⟩,
    fun _ => Value.convert_text⟩

/-- The last millisecond before 1970. -/
theorem Strategy.lenient_conversions_restore_last_of_1969 :
    (Value.dateTime ⟨-1, 999000000, by decide⟩).Restorable ∧
      ∃ text, lenient.convert (.dateTime ⟨-1, 999000000, by decide⟩) .string = .ok (.string text) ∧
        lenient.convert (.string text) .dateTime = .ok (.dateTime ⟨-1, 999000000, by decide⟩) := by
  have hwritten : (Value.dateTime ⟨-1, 999000000, by decide⟩).Restorable :=
    { year := by decide
      millis := by decide
      noLeap := by decide }
  exact ⟨hwritten, lenient_conversions_restore.2 _ hwritten⟩

end Formulary
