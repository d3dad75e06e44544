import Mathlib.Algebra.Group.Int.Defs
import Formulary.Proofs.Strategy.Whole

/-!
# Shifts

Two integers of any width are shifted in the wider of their kinds, under both strategies. An amount
that is less than the width of that kind moves the bits: to the right, the number is divided and
rounded down; to the left, it is multiplied and then reduced to the kind. An amount of the width or
more overflows as long as it has 32 bits. Every other amount is refused as a mismatch of kinds: the
negative ones, and those from `2 ^ 32` on although the kinds suit a shift.
-/

namespace Formulary

variable {a b l r : Value} {j k : Kind} {m n x : Int}

namespace Kind

def width : Kind → Nat
  | integer => 32
  | long => 64
  | _ => 0

theorem width_le (k : Kind) : k.width ≤ 64 := by
  cases k <;> decide

theorem limit_nonneg (k : Kind) : 0 ≤ k.limit := by
  cases k <;> decide

/-- A kind that holds a number is one of integers, and its limits are as far apart as its width
says. -/
theorem two_pow_width (hm : k.Holds m) : (2 : Int) ^ k.width = 2 * k.limit := by
  unfold Holds at hm
  cases k with
  | integer | long => decide
  | _ =>
    simp only [limit] at hm
    omega

/-- A number that is divided and rounded down stays in its kind. -/
theorem holds_ediv_two_pow (hm : k.Holds m) (amount : Nat) : k.Holds (m / 2 ^ amount) := by
  have hpos : (0 : Int) < 2 ^ amount := Int.pow_pos (by decide)
  have hscaled : k.limit * 1 ≤ k.limit * 2 ^ amount :=
    Int.mul_le_mul_of_nonneg_left hpos k.limit_nonneg
  obtain ⟨hlow, hhigh⟩ := hm
  constructor
  · rw [Int.le_ediv_iff_mul_le hpos, Int.neg_mul]
    omega
  · rw [Int.ediv_lt_iff_lt_mul hpos]
    omega

/-- The number of a kind that differs from a whole number by a multiple of the power of two that
belongs to the width. -/
structure Reduces (k : Kind) (n x : Int) : Prop where
  holds : k.Holds x
  dvd : (2 ^ k.width : Int) ∣ n - x

/-- A number of the kind is reduced to itself and to no other. -/
theorem Reduces.eq_of_holds (h : k.Reduces n x) (hn : k.Holds n) : x = n := by
  obtain ⟨hx, hdvd⟩ := h
  rw [two_pow_width hn] at hdvd
  unfold Holds at hn hx
  have hzero : n - x = 0 := Int.eq_zero_of_dvd_of_natAbs_lt_natAbs hdvd (by omega)
  omega

def reduced : Kind → Int → Value
  | integer, n => .integer (Int32.ofInt n)
  | _, n => .long (Int64.ofInt n)

/-- Every whole number is reduced to one of the kind. -/
theorem exists_reduced (hm : k.Holds m) (n : Int) :
    ∃ x, (k.reduced n).Whole k x ∧ k.Reduces n x := by
  unfold Holds at hm
  cases k with
  | integer =>
    exact ⟨n.bmod Int32.size, ⟨rfl, congrArg some Int32.toInt_ofInt⟩,
      ⟨Int.le_bmod (by decide), Int.bmod_lt (by decide)⟩, Int.dvd_self_sub_bmod⟩
  | long =>
    exact ⟨n.bmod Int64.size, ⟨rfl, congrArg some Int64.toInt_ofInt⟩,
      ⟨Int.le_bmod (by decide), Int.bmod_lt (by decide)⟩, Int.dvd_self_sub_bmod⟩
  | _ =>
    simp only [limit] at hm
    omega

end Kind

namespace Value

/-- A shift of two integers of one kind looks at the amount in two steps: whether it is an unsigned
number of 32 bits, and whether it is less than the width. -/
theorem shift_eq (op : Operation) (ha : a.Whole k m) (hb : b.Whole k n) :
    a.shift op b =
      if 0 ≤ n ∧ n < 4294967296 then
        if n < k.width then .ok (k.reduced (moved op m n.toNat)) else .error (.overflow op)
      else .error (.typeMismatch op k k) := by
  rcases ha.both hb with ⟨y, z, rfl, rfl, rfl, rfl, rfl⟩ | ⟨y, z, rfl, rfl, rfl, rfl, rfl⟩ <;> rfl

/-- An amount below the width moves the bits. -/
theorem exists_shift (op : Operation) (ha : a.Whole k m) (hb : b.Whole k n) (hn : 0 ≤ n)
    (hwidth : n < k.width) :
    ∃ v x, a.shift op b = .ok v ∧ v.Whole k x ∧ k.Reduces (moved op m n.toNat) x := by
  have hbits := k.width_le
  obtain ⟨x, hwhole, hreduces⟩ := Kind.exists_reduced ha.holds (moved op m n.toNat)
  refine ⟨_, x, ?_, hwhole, hreduces⟩
  rw [shift_eq op ha hb, if_pos (by omega), if_pos hwidth]

theorem shift_of_width_le (op : Operation) (ha : a.Whole k m) (hb : b.Whole k n)
    (hwidth : k.width ≤ n) (hn : n < 2 ^ 32) : a.shift op b = .error (.overflow op) := by
  rw [shift_eq op ha hb, if_pos (by omega), if_neg (by omega)]

theorem shift_of_unfit (op : Operation) (ha : a.Whole k m) (hb : b.Whole k n)
    (hn : n < 0 ∨ 2 ^ 32 ≤ n) : a.shift op b = .error (.typeMismatch op k k) := by
  rw [shift_eq op ha hb, if_neg (by omega)]

theorem moved_shiftLeft (m : Int) (amount : Nat) :
    moved .shiftLeft m amount = m * 2 ^ amount := by
  rw [moved, if_pos rfl]
  exact congrArg (m * ·) (Int.natCast_pow 2 amount)

theorem moved_shiftRight (m : Int) (amount : Nat) :
    moved .shiftRight m amount = m / 2 ^ amount := by
  rw [moved, if_neg (by decide)]
  exact congrArg (m / ·) (Int.natCast_pow 2 amount)

end Value

/-- Both strategies shift integers in the wider of their kinds. An amount below its width divides
the number by a power of two and rounds down, or multiplies it and reduces the product to the kind.
An amount of the width or more overflows if it is less than `2 ^ 32`. A negative amount is a
mismatch of kinds, and so is an amount of `2 ^ 32` or more. -/
theorem Strategy.integer_shifts {s : Strategy} (hs : s = lenient ∨ s = strict)
    (hl : l.Whole j m) (hr : r.Whole k n) :
    (0 ≤ n → n < (j.wider k).width →
      (∃ v, s.shiftRight l r = .ok v ∧ v.Whole (j.wider k) (m.fdiv (2 ^ n.toNat))) ∧
      ∃ v x, s.shiftLeft l r = .ok v ∧ v.Whole (j.wider k) x ∧
        (j.wider k).Reduces (m * 2 ^ n.toNat) x) ∧
    ((j.wider k).width ≤ n → n < 2 ^ 32 →
      s.shiftRight l r = .error (.overflow .shiftRight) ∧
      s.shiftLeft l r = .error (.overflow .shiftLeft)) ∧
    (n < 0 ∨ 2 ^ 32 ≤ n →
      s.shiftRight l r = .error (.typeMismatch .shiftRight (j.wider k) (j.wider k)) ∧
      s.shiftLeft l r = .error (.typeMismatch .shiftLeft (j.wider k) (j.wider k))) := by
  obtain ⟨c, hc, rfl⟩ : ∃ c : Coercion, c.WidensIntegers ∧ s = c.strategy := by
    rcases hs with rfl | rfl
    · exact ⟨_, lenient_widensIntegers, rfl⟩
    · exact ⟨_, strict_widensIntegers, rfl⟩
  obtain ⟨a, b, hright, ha, hb⟩ := hc.binary hl hr .shiftRight (Value.shift .shiftRight)
  obtain ⟨a', b', hleft, ha', hb'⟩ := hc.binary hl hr .shiftLeft (Value.shift .shiftLeft)
  refine ⟨fun hn hwidth => ⟨?right, ?left⟩, ?overflow, ?mismatch⟩
  case right =>
    obtain ⟨v, x, hv, hwhole, hreduces⟩ := Value.exists_shift .shiftRight ha hb hn hwidth
    rw [Value.moved_shiftRight] at hreduces
    obtain rfl := hreduces.eq_of_holds (Kind.holds_ediv_two_pow ha.holds _)
    rw [Int.fdiv_eq_ediv_of_nonneg _ (Int.le_of_lt (Int.pow_pos (by decide)))]
    exact ⟨v, hright.trans hv, hwhole⟩
  case left =>
    obtain ⟨v, x, hv, hwhole, hreduces⟩ := Value.exists_shift .shiftLeft ha' hb' hn hwidth
    rw [Value.moved_shiftLeft] at hreduces
    exact ⟨v, x, hleft.trans hv, hwhole, hreduces⟩
  case overflow =>
    intro hwidth hn
    exact ⟨hright.trans (Value.shift_of_width_le _ ha hb hwidth hn),
      hleft.trans (Value.shift_of_width_le _ ha' hb' hwidth hn)⟩
  case mismatch =>
    intro hn
    exact ⟨hright.trans (Value.shift_of_unfit _ ha hb hn),
      hleft.trans (Value.shift_of_unfit _ ha' hb' hn)⟩

/-- Minus three of 32 bits, shifted by the last amount that 64 bits allow. -/
theorem Strategy.integer_shifts_last :
    (strict = lenient ∨ strict = strict) ∧
      (Value.integer (-3)).Whole .integer (-3) ∧ (Value.long 63).Whole .long 63 ∧
      (∃ v, strict.shiftRight (.integer (-3)) (.long 63) = .ok v ∧ v.Whole .long (-1)) ∧
      ∃ v, strict.shiftLeft (.integer (-3)) (.long 63) = .ok v ∧
        v.Whole .long (-9223372036854775808) := by
  have hl : (Value.integer (-3)).Whole .integer (-3) := ⟨rfl, by decide⟩
  have hr : (Value.long 63).Whole .long 63 := ⟨rfl, by decide⟩
  obtain ⟨⟨v, hright, hv⟩, w, x, hleft, hw, hx, hdvd⟩ :=
    (integer_shifts (.inr rfl) hl hr).1 (by decide) (by decide)
  obtain rfl : x = -9223372036854775808 := by
    have hrange := Kind.holds_long_iff.mp hx
    have hmultiple : (18446744073709551616 : Int) ∣ -27670116110564327424 - x := hdvd
    omega
  exact ⟨.inr rfl, hl, hr, ⟨v, hright, hv⟩, w, hleft, hw⟩

/-- An amount of `2 ^ 32` is far beyond the width of a number of 64 bits, and yet the shift does not
overflow. -/
theorem Strategy.shift_amount_too_wide :
    (Kind.long.width : Int) ≤ (4294967296 : Int64).toInt ∧
      lenient.shiftLeft (.long 1) (.long 4294967296) =
        .error (.typeMismatch .shiftLeft .long .long) ∧
      lenient.shiftLeft (.long 1) (.long 4294967296) ≠ .error (.overflow .shiftLeft) := by
  have hmismatch : lenient.shiftLeft (.long 1) (.long 4294967296) =
      .error (.typeMismatch .shiftLeft .long .long) := rfl
  rw [hmismatch]
  exact ⟨by decide, rfl, by rintro ⟨⟩⟩

end Formulary
