import Formulary.Library.Arithmetic
import Formulary.Proofs.Value.Cutting
import Formulary.Strategy.Lenient
import Formulary.Strategy.Strict

/-!
# Cutting by conversion and by function

There are two ways to turn a number with a fraction into a whole number: a conversion to the kind of
64 bits, and the functions that cut. Each has its own test for the range. The tests agree on every
number but one, the limit of 64 bits.
-/

namespace Formulary.Library

variable {v : Value} {x : Binary} {n : ℤ} {s : Strategy}

theorem integral_some (function : String) (y : Float) (m : ℤ) :
    integral function y (some m) =
      (int32? m).elim ((int64? m).elim (.error (refuse function (.outOfRange (doubleText y))))
        fun n => .ok (.long n)) fun n => .ok (.integer n) := by
  unfold integral
  dsimp only
  cases int32? m with
  | some a => rfl
  | none => cases int64? m <;> rfl

/-- A whole number that 64 bits hold is the value, and any other is refused. -/
theorem yieldsIf_integral (function : String) (y : Float) (m : ℤ) :
    YieldsIf (Kind.long.Holds m) (·.int? = some m) (refuse function (.outOfRange (doubleText y)))
      (integral function y (some m)) := by
  have hlong := Value.yieldsIf_int64? m (refuse function (.outOfRange (doubleText y)))
  rw [integral_some]
  cases hshort : int32? m with
  | some a =>
    obtain rfl := toInt_of_int32? hshort
    have hlow := a.le_toInt
    have hhigh := a.toInt_lt
    have hholds : Kind.long.Holds a.toInt := Kind.holds_long_iff.mpr (by omega)
    exact ⟨fun _ => ⟨.integer a, rfl, rfl⟩, fun hnot => absurd hholds hnot⟩
  | none =>
    refine ⟨fun hm => ?_, hlong.error⟩
    obtain ⟨w, hw, hwhole⟩ := hlong.value hm
    exact ⟨w, hw, hwhole.2⟩

/-- Cutting gives the whole number that is left if 64 bits hold it, in whichever kind. -/
theorem integral_iff (function : String) (y : Float) (whole : Option ℤ) :
    (∃ w, integral function y whole = .ok w ∧ w.int? = some n) ↔
      whole = some n ∧ Kind.long.Holds n := by
  cases whole with
  | none => exact ⟨fun ⟨_, hw, _⟩ => (nomatch hw), fun ⟨hn, _⟩ => (nomatch hn)⟩
  | some m =>
    constructor
    · rintro ⟨w, hw, hn⟩
      obtain ⟨hm, hwhole⟩ := (yieldsIf_integral function y m).of_ok hw
      obtain rfl : m = n := Option.some.inj (hwhole.symm.trans hn)
      exact ⟨rfl, hm⟩
    · rintro ⟨hn, hm⟩
      obtain rfl : m = n := Option.some.inj hn
      exact (yieldsIf_integral function y m).value hm

/-- A number with a fraction reaches a function as a double of the same value. -/
theorem number?_of_binary? (hs : s = .lenient ∨ s = .strict) (hv : v.binary? = some x) :
    ∃ y, number? s v = .ok (some y) ∧ (Binary.ofDouble y).toRat? = x.toRat? := by
  rcases Value.float_or_double hv with ⟨y, rfl, rfl⟩ | ⟨y, rfl, rfl⟩
  · refine ⟨(Binary.ofSingle y).toDouble, ?_, Binary.toRat?_widen y⟩
    rcases hs with rfl | rfl <;> rfl
  · refine ⟨y, ?_, rfl⟩
    rcases hs with rfl | rfl <;> rfl

/-- A number is truncated to a whole number exactly if that is what it is cut to and 64 bits hold
it. -/
theorem truncate_iff {f : Builtin} (hs : s = .lenient ∨ s = .strict) (hf : f ∈ truncate)
    (hv : v.binary? = some x) :
    (∃ w, f.body [v] s = .ok w ∧ w.int? = some n) ↔
      x.toRat?.map cut = some n ∧ Kind.long.Holds n := by
  obtain ⟨name, -, hname⟩ := List.mem_map.mp hf
  obtain ⟨y, hy, hvalue⟩ := number?_of_binary? hs hv
  have hbody : f.body [v] s = integral name y (Binary.ofDouble y).truncate := by
    subst hname
    change (number? s v).bind _ = _
    rw [hy]
    rfl
  rw [hbody, integral_iff, Binary.truncate_eq, hvalue]

/-- A number with a fraction converts to a whole number by cutting it toward zero, or does not
convert. The kind of 32 bits is exact. So is the kind of 64 bits, but for the limit, which is the
first number that it does not hold and is taken for the number before it. But for the limit, then, a
conversion gives a whole number where the functions that cut give one, under both strategies, and
it is the same number. -/
theorem fraction_cut_by_conversion (hv : v.binary? = some x) :
    v.CutsTo x .integer ∧
    (x.toRat? ≠ some (2 ^ 63) → v.CutsTo x .long) ∧
    (x.toRat? = some (2 ^ 63) → v.convert .long = .ok (.long 9223372036854775807)) ∧
    ∀ s f n, (s = .lenient ∨ s = .strict) → f ∈ truncate →
      ((∃ w, f.body [v] s = .ok w ∧ w.int? = some n) ↔
        x.toRat? ≠ some (2 ^ 63) ∧ ∃ w, v.convert .long = .ok w ∧ w.int? = some n) := by
  refine ⟨Value.cutsTo_integer hv, Value.cutsTo_long hv, Value.convert_limit hv, ?_⟩
  intro s f n hs hf
  rw [truncate_iff hs hf hv]
  by_cases hx : x.toRat? = some (2 ^ 63)
  · refine iff_of_false ?_ fun h => h.1 hx
    rintro ⟨hn, hholds⟩
    rw [hx, Option.map_some, Value.cut_limit] at hn
    obtain rfl := Option.some.inj hn
    exact lt_irrefl _ hholds.2
  · rw [Value.convert_long_iff hv hx, and_iff_right hx]

theorem fraction_cut_by_conversion_below_zero :
    (Value.double (-2.5)).binary? = some (.ofDouble (-2.5)) ∧
      (Binary.ofDouble (-2.5)).toRat? = some (-5 / 2) ∧
      ∃ w, (Value.double (-2.5)).convert .long = .ok w ∧ w.Whole .long (-2) := by
  have hbinary : Binary.ofDouble (-2.5) = .finite true 5629499534213120 (-51) := by
    decide +kernel
  have hvalue : (Binary.ofDouble (-2.5)).toRat? = some (-5 / 2) := by
    rw [hbinary, Binary.toRat?]
    norm_num
  have hcut : cut (-5 / 2) = -2 := by
    rw [neg_div, cut_neg (by norm_num)]
    norm_num
  have hother : (Binary.ofDouble (-2.5)).toRat? ≠ some (2 ^ 63) := by
    rw [hvalue]
    norm_num
  obtain ⟨-, hlong, -⟩ := fraction_cut_by_conversion (v := .double (-2.5)) rfl
  obtain ⟨w, hw, r, hr, hwhole⟩ := (hlong hother).value ⟨_, hvalue, by rw [hcut]; decide⟩
  obtain rfl : -5 / 2 = r := Option.some.inj (hvalue.symm.trans hr)
  rw [hcut] at hwhole
  exact ⟨rfl, hvalue, w, hw, hwhole⟩

/-- The limit of 64 bits is out of range, but converts. The functions that cut refuse it. -/
theorem limit_converts :
    (Binary.ofDouble 9223372036854775808).toRat? = some (2 ^ 63) ∧
      ¬ Kind.long.Holds (cut (2 ^ 63)) ∧
      (Value.double 9223372036854775808).convert .long = .ok (.long 9223372036854775807) ∧
      ∀ f ∈ truncate, ∀ w,
        f.body [.double 9223372036854775808] .lenient = .ok w → w.int? = none := by
  have hbinary : Binary.ofDouble 9223372036854775808 = .finite false 4503599627370496 11 := by
    decide +kernel
  have hvalue : (Binary.ofDouble 9223372036854775808).toRat? = some (2 ^ 63) := by
    rw [hbinary, Binary.toRat?]
    norm_num
  have hlimit : ¬ Kind.long.Holds (cut (2 ^ 63)) := by
    rw [Value.cut_limit]
    decide
  refine ⟨hvalue, hlimit, Value.convert_limit rfl hvalue, ?_⟩
  intro f hf w hw
  by_contra hsome
  obtain ⟨n, hn⟩ := Option.ne_none_iff_exists'.mp hsome
  have hcut := (truncate_iff (.inl rfl) hf rfl).mp ⟨w, hw, hn⟩
  rw [hvalue] at hcut
  obtain ⟨hn, hholds⟩ := hcut
  obtain rfl := Option.some.inj hn
  exact hlimit hholds

end Formulary.Library
