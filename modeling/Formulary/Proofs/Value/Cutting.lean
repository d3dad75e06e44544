import Formulary.Proofs.Number.Cutting
import Formulary.Proofs.Value.Whole

/-!
# Numbers with a fraction as whole numbers

A number with a fraction becomes the whole number that it is cut to, if the kind holds that one, and
is refused otherwise. The kind of 32 bits has no exception. For 64 bits the test lets one number
through that is too large, the first one behind the limit, and gives the number before it.
-/

namespace Formulary

namespace Value

def binary? : Value → Option Binary
  | float x => some (.ofSingle x)
  | double x => some (.ofDouble x)
  | _ => none

variable {v : Value} {x : Binary} {k : Kind}

theorem float_or_double (hv : v.binary? = some x) :
    (∃ y, v = .float y ∧ x = .ofSingle y) ∨ ∃ y, v = .double y ∧ x = .ofDouble y := by
  cases v with
  | float y => exact .inl ⟨y, rfl, (Option.some.inj hv).symm⟩
  | double y => exact .inr ⟨y, rfl, (Option.some.inj hv).symm⟩
  | _ => cases hv

theorem toLong_of_binary? (hv : v.binary? = some x) :
    v.toLong = (cutToLong x).elim (.error .outOfRange) .ok := by
  rcases float_or_double hv with ⟨y, rfl, rfl⟩ | ⟨y, rfl, rfl⟩ <;> rfl

theorem significand_lt {negative : Bool} {m : ℕ} {q : ℤ}
    (hv : v.binary? = some (.finite negative m q)) : m < 2 ^ 53 := by
  rcases float_or_double hv with ⟨y, rfl, hy⟩ | ⟨y, rfl, hy⟩
  · obtain ⟨hm, -, -⟩ := Binary.Format.bounds_of_decode hy.symm
    exact hm.trans_le (by decide)
  · obtain ⟨hm, -, -⟩ := Binary.Format.bounds_of_decode hy.symm
    exact hm

/-- The only number that is cut to the limit of 64 bits is the limit itself. -/
theorem eq_limit_of_cut {r : ℚ} (hv : v.binary? = some x) (hr : x.toRat? = some r)
    (hcut : cut r = Kind.long.limit) : r = 2 ^ 63 := by
  cases x with
  | nan | infinite negative => cases hr
  | finite negative m q =>
    have hlarge : 2 ^ 53 ≤ cut r := by
      rw [hcut]
      decide
    rw [Binary.eq_cut_of_large (significand_lt hv) hr hlarge, hcut, Kind.limit]
    norm_num

/-- Away from the limit the test for 64 bits is the range of the kind. -/
theorem cutToLong_eq (hv : v.binary? = some x) (hx : x.toRat? ≠ some (2 ^ 63)) :
    cutToLong x = (x.toRat?.map cut).bind int64? := by
  rw [cutToLong, Binary.truncate_eq]
  cases hr : x.toRat? with
  | none => rfl
  | some r =>
    have hne : cut r ≠ 9223372036854775808 := fun hcut =>
      hx (hr.trans (congrArg some (eq_limit_of_cut hv hr hcut)))
    dsimp only [Option.map_some, Option.bind_some]
    rw [int64?]
    split
    case isTrue hrange =>
      rw [if_pos (by omega), min_eq_left (by omega)]
    case isFalse hrange => rw [if_neg (by omega)]

/-- The exception of 64 bits does not matter for 32 bits, which hold neither the limit nor the
number before it. -/
theorem cutToLong_bind_int32? (x : Binary) :
    ((cutToLong x).bind fun n => Formulary.int32? n.toInt) =
      (x.toRat?.map cut).bind Formulary.int32? := by
  rw [cutToLong, Binary.truncate_eq]
  cases x.toRat? with
  | none => rfl
  | some r =>
    dsimp only [Option.map_some, Option.bind_some]
    split
    case isTrue hrange =>
      rw [Option.bind_some, Int64.toInt_ofInt_of_le (by omega) (by omega)]
      by_cases hlimit : cut r < 9223372036854775808
      · rw [min_eq_left (by omega)]
      · rw [min_eq_right (by omega), Formulary.int32?, Formulary.int32?, if_neg (by omega),
          if_neg (by omega)]
    case isFalse hrange => rw [Formulary.int32?, if_neg (by omega), Option.bind_none]

theorem toInteger_of_binary? (hv : v.binary? = some x) :
    v.toInteger = ((x.toRat?.map cut).bind Formulary.int32?).elim (.error .outOfRange) .ok := by
  rw [toInteger, toLong_of_binary? hv, ← cutToLong_bind_int32?]
  cases cutToLong x <;> rfl

theorem convert_integer (hv : v.binary? = some x) :
    v.convert .integer = ((x.toRat?.map cut).bind Formulary.int32?).elim
      (.error (v.refuse .integer .outOfRange)) fun n => .ok (.integer n) := by
  have hconvert : v.convert .integer = v.found .integer (v.toInteger.map .integer) := by
    rcases float_or_double hv with ⟨y, rfl, -⟩ | ⟨y, rfl, -⟩ <;> rfl
  rw [hconvert, toInteger_of_binary? hv, found_elim]

theorem convert_long (hv : v.binary? = some x) :
    v.convert .long =
      (cutToLong x).elim (.error (v.refuse .long .outOfRange)) fun n => .ok (.long n) := by
  have hconvert : v.convert .long = v.found .long (v.toLong.map .long) := by
    rcases float_or_double hv with ⟨y, rfl, -⟩ | ⟨y, rfl, -⟩ <;> rfl
  rw [hconvert, toLong_of_binary? hv, found_elim]

/-- A value converts to the whole number that is left of it, if there is one that the kind holds,
and is out of range otherwise. -/
def CutsTo (v : Value) (x : Binary) (k : Kind) : Prop :=
  YieldsIf (∃ r, x.toRat? = some r ∧ k.Holds (cut r))
    (fun w => ∃ r, x.toRat? = some r ∧ w.Whole k (cut r))
    (.conversionFailed v.kind k .outOfRange) (v.convert k)

theorem yieldsIf_cut {α : Type} {read : ℤ → Option α} {wrap : α → Value} {e : EvalError}
    (hread : ∀ n, YieldsIf (k.Holds n) (·.Whole k n) e
      ((read n).elim (.error e) fun a => .ok (wrap a))) (fraction : Option ℚ) :
    YieldsIf (∃ r, fraction = some r ∧ k.Holds (cut r))
      (fun w => ∃ r, fraction = some r ∧ w.Whole k (cut r)) e
      (((fraction.map cut).bind read).elim (.error e) fun a => .ok (wrap a)) := by
  cases fraction with
  | none => exact ⟨fun ⟨_, hr, _⟩ => (nomatch hr), fun _ => rfl⟩
  | some r =>
    constructor
    · rintro ⟨_, ⟨⟩, hholds⟩
      obtain ⟨w, hw, hwhole⟩ := (hread (cut r)).value hholds
      exact ⟨w, hw, r, rfl, hwhole⟩
    · exact fun hnot => (hread (cut r)).error fun hholds => hnot ⟨r, rfl, hholds⟩

theorem cutsTo_integer (hv : v.binary? = some x) : v.CutsTo x .integer :=
  (yieldsIf_cut (yieldsIf_int32? · _) x.toRat?).of_eq (convert_integer hv)

theorem cutsTo_long (hv : v.binary? = some x) (hx : x.toRat? ≠ some (2 ^ 63)) :
    v.CutsTo x .long := by
  have hconvert := convert_long hv
  rw [cutToLong_eq hv hx] at hconvert
  exact (yieldsIf_cut (yieldsIf_int64? · _) x.toRat?).of_eq hconvert

/-- What a conversion to 64 bits gives is the whole number that is left, within the range. -/
theorem convert_long_iff {n : ℤ} (hv : v.binary? = some x) (hx : x.toRat? ≠ some (2 ^ 63)) :
    (∃ w, v.convert .long = .ok w ∧ w.int? = some n) ↔
      x.toRat?.map cut = some n ∧ Kind.long.Holds n := by
  have hcuts := cutsTo_long hv hx
  rw [Option.map_eq_some_iff]
  constructor
  · rintro ⟨w, hw, hn⟩
    obtain ⟨⟨r, hr, hholds⟩, s, hs, hwhole⟩ := hcuts.of_ok hw
    obtain rfl : r = s := Option.some.inj (hr.symm.trans hs)
    obtain rfl : cut r = n := Option.some.inj (hwhole.2.symm.trans hn)
    exact ⟨⟨r, hr, rfl⟩, hholds⟩
  · rintro ⟨⟨r, hr, rfl⟩, hholds⟩
    obtain ⟨w, hw, s, hs, hwhole⟩ := hcuts.value ⟨r, hr, hholds⟩
    obtain rfl : r = s := Option.some.inj (hr.symm.trans hs)
    exact ⟨w, hw, hwhole.2⟩

theorem cut_limit : cut (2 ^ 63) = Kind.long.limit := by
  have hcast : (2 ^ 63 : ℚ) = ((2 ^ 63 : ℕ) : ℚ) := by norm_num
  rw [hcast, cut_natCast]
  rfl

/-- The limit itself is taken for the number before it. -/
theorem convert_limit (hv : v.binary? = some x) (hx : x.toRat? = some (2 ^ 63)) :
    v.convert .long = .ok (.long 9223372036854775807) := by
  have hcut : cutToLong x = some 9223372036854775807 := by
    rw [cutToLong, Binary.truncate_eq, hx, Option.map_some, cut_limit]
    rfl
  rw [convert_long hv, hcut]
  rfl

end Value

end Formulary
