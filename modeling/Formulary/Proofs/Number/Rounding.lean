import Formulary.Number.Binary
import Mathlib

/-!
# Rounding to a format

What a number is rounded to depends on its value alone and not on how it is split into significand
and exponent. A number that has no more places than the format keeps is encoded exactly and comes
back from its bits with a leading bit of its own. So a whole number below `2 ^ 53` goes through a
double unchanged, and the single behind it is the one that the number itself is rounded to. From
there on a number can be rounded twice, to another single than at once.
-/

namespace Formulary.Binary

theorem roundQuotient_mul_right (num den : Nat) {c : Nat} (hc : 0 < c) :
    roundQuotient (num * c) (den * c) = roundQuotient num den := by
  have hrest : 2 * (num % den * c) = 2 * (num % den) * c := (Nat.mul_assoc ..).symm
  have hequal : 2 * (num % den) * c = den * c ↔ 2 * (num % den) = den :=
    Nat.mul_left_inj (Nat.ne_of_gt hc)
  unfold roundQuotient
  simp only [Nat.mul_div_mul_right _ _ hc, Nat.mul_mod_mul_right, hrest, Nat.mul_lt_mul_right hc,
    hequal]

/-- Equal fractions are rounded alike. -/
theorem roundQuotient_eq_of_mul_eq {a b c d : Nat} (hb : 0 < b) (hd : 0 < d)
    (h : a * d = c * b) : roundQuotient a b = roundQuotient c d := by
  rw [← roundQuotient_mul_right a b hd, ← roundQuotient_mul_right c d hb, h, Nat.mul_comm b d]

theorem roundQuotient_one (n : Nat) : roundQuotient n 1 = n := by
  simp [roundQuotient, Nat.mod_one]

theorem log2_mul_two_pow {m : Nat} (hm : m ≠ 0) (k : Nat) :
    Nat.log2 (m * 2 ^ k) = Nat.log2 m + k := by
  induction k with
  | zero => rw [Nat.pow_zero, Nat.mul_one, Nat.add_zero]
  | succ k ih =>
    have hne : m * 2 ^ k ≠ 0 := Nat.mul_ne_zero hm (Nat.ne_of_gt (Nat.two_pow_pos k))
    have htwo : m * 2 ^ (k + 1) = 2 * (m * 2 ^ k) := by
      rw [Nat.pow_succ, Nat.mul_comm 2, Nat.mul_assoc]
    rw [htwo, Nat.log2_two_mul hne, ih, Nat.add_assoc]

namespace Format

variable (f : Format) {m : Nat} {q : Int}

theorem lastPlace_scale (hm : m ≠ 0) (k : Nat) :
    f.lastPlace (m * 2 ^ k) (q - k) = f.lastPlace m q := by
  unfold lastPlace
  rw [log2_mul_two_pow hm]
  congr 1
  omega

/-- A factor of two can be moved between significand and exponent. -/
theorem units_scale (hm : m ≠ 0) (k : Nat) : f.units (m * 2 ^ k) (q - k) = f.units m q := by
  unfold units
  rw [f.lastPlace_scale hm]
  generalize f.lastPlace m q = place
  simp only [Nat.pow_eq]
  refine roundQuotient_eq_of_mul_eq (Nat.two_pow_pos _) (Nat.two_pow_pos _) ?_
  have hexponents : k + (q - k - place).toNat + (place - q).toNat =
      (q - place).toNat + (place - (q - k)).toNat := by omega
  rw [Nat.mul_assoc, Nat.mul_assoc, Nat.mul_assoc, ← Nat.pow_add, ← Nat.pow_add, ← Nat.pow_add,
    ← hexponents, Nat.add_assoc]

/-- What a magnitude is rounded to does not depend on how it is written. -/
theorem magnitudeBits_scale (m k : Nat) (q : Int) :
    f.magnitudeBits (m * 2 ^ k) (q - k) = f.magnitudeBits m q := by
  by_cases hm : m = 0
  · rw [hm, Nat.zero_mul]
    rfl
  · have hne : m * 2 ^ k ≠ 0 := Nat.mul_ne_zero hm (Nat.ne_of_gt (Nat.two_pow_pos k))
    rw [magnitudeBits, magnitudeBits, if_neg hm, if_neg hne, f.lastPlace_scale hm,
      f.units_scale hm]

/-- The three fields of a bit pattern, taken apart. -/
theorem fields (negative : Bool) (exponent : Nat) {fraction : Nat}
    (hfraction : fraction < 2 ^ f.fractionBits) (hexponent : exponent < 2 ^ f.exponentBits) :
    let bits := f.signBits negative + (exponent * 2 ^ f.fractionBits + fraction)
    bits % 2 ^ f.fractionBits = fraction ∧
      bits / 2 ^ f.fractionBits % 2 ^ f.exponentBits = exponent ∧
      (bits / 2 ^ (f.fractionBits + f.exponentBits) % 2 == 1) = negative := by
  intro bits
  have hpos := Nat.two_pow_pos f.fractionBits
  have hsign : f.signBits negative =
      negative.toNat * 2 ^ f.exponentBits * 2 ^ f.fractionBits := by
    cases negative with
    | false => simp [signBits]
    | true => simp [signBits, Nat.pow_add, Nat.mul_comm]
  have hbits : bits = fraction +
      2 ^ f.fractionBits * (exponent + 2 ^ f.exponentBits * negative.toNat) := by
    simp only [bits, hsign]
    ring
  have hhigh : bits / 2 ^ f.fractionBits = exponent + 2 ^ f.exponentBits * negative.toNat := by
    rw [hbits, Nat.add_mul_div_left _ _ hpos, Nat.div_eq_of_lt hfraction, Nat.zero_add]
  refine ⟨?_, ?_, ?_⟩
  · rw [hbits, Nat.add_mul_mod_self_left, Nat.mod_eq_of_lt hfraction]
  · rw [hhigh, Nat.add_mul_mod_self_left, Nat.mod_eq_of_lt hexponent]
  · rw [Nat.pow_add, ← Nat.div_div_eq_div_mul, hhigh,
      Nat.add_mul_div_left _ _ (Nat.two_pow_pos _), Nat.div_eq_of_lt hexponent, Nat.zero_add]
    cases negative <;> rfl

/-- Bits of a number in the normal range, read back. -/
theorem decode_normal (negative : Bool) {places rest : Nat} (hrest : rest < 2 ^ f.fractionBits)
    (hplaces : places + 2 < 2 ^ f.exponentBits) :
    f.decode (f.signBits negative +
        (places * 2 ^ f.fractionBits + (2 ^ f.fractionBits + rest))) =
      .finite negative (2 ^ f.fractionBits + rest) (places + f.lowestExponent) := by
  have hcarry : places * 2 ^ f.fractionBits + (2 ^ f.fractionBits + rest) =
      (places + 1) * 2 ^ f.fractionBits + rest := by ring
  obtain ⟨hfraction, hexponent, hnegative⟩ :=
    f.fields negative (places + 1) hrest (by omega)
  rw [hcarry]
  unfold decode
  simp only [Nat.pow_eq, hfraction, hexponent, hnegative]
  rw [if_neg (by omega), if_neg (by omega)]
  congr 1
  unfold lowestExponent
  omega

/-- A number with no more places than the format keeps, in the normal range, is encoded exactly,
with its leading bit moved to the front. -/
theorem encode_normal (negative : Bool) (hm : m ≠ 0) {k : Nat}
    (hlog : Nat.log2 m + k = f.fractionBits) (hlow : f.lowestExponent ≤ q - k)
    (hhigh : q - k - f.lowestExponent + 2 < 2 ^ f.exponentBits) :
    ∃ places rest : Nat, rest < 2 ^ f.fractionBits ∧ places + 2 < 2 ^ f.exponentBits ∧
      m * 2 ^ k = 2 ^ f.fractionBits + rest ∧ q - k = places + f.lowestExponent ∧
      f.encode (.finite negative m q) =
        f.signBits negative + (places * 2 ^ f.fractionBits + (2 ^ f.fractionBits + rest)) := by
  -- The last place that is kept is one that the number does not reach, so nothing is rounded.
  have hplace : f.lastPlace m q = q - k := by
    unfold lastPlace
    omega
  obtain ⟨places, hplaces⟩ := Int.eq_ofNat_of_zero_le (Int.sub_nonneg_of_le hlow)
  have hfew : places + 2 < 2 ^ f.exponentBits := by
    rw [hplaces] at hhigh
    exact_mod_cast hhigh
  have hunits : f.units m q = m * 2 ^ k := by
    have hup : (q - (q - k)).toNat = k := by omega
    have hdown : (q - k - q).toNat = 0 := by omega
    rw [units, hplace, hup, hdown]
    exact roundQuotient_one _
  have hfront : 2 ^ f.fractionBits ≤ m * 2 ^ k ∧ m * 2 ^ k < 2 ^ (f.fractionBits + 1) := by
    have hself := Nat.log2_self_le hm
    have hnext := Nat.lt_log2_self (n := m)
    rw [← hlog, Nat.add_right_comm, Nat.pow_add, Nat.pow_add _ (Nat.log2 m + 1)]
    exact ⟨Nat.mul_le_mul_right _ hself, Nat.mul_lt_mul_of_pos_right hnext (Nat.two_pow_pos _)⟩
  obtain ⟨rest, hrest⟩ := Nat.exists_eq_add_of_le hfront.1
  have hshort : rest < 2 ^ f.fractionBits := by
    have := hfront.2
    rw [Nat.pow_succ] at this
    omega
  have hfinite : places * 2 ^ f.fractionBits + (2 ^ f.fractionBits + rest) ≤ f.infinityBits := by
    have hmost : places + 2 ≤ 2 ^ f.exponentBits - 1 := by omega
    have hbelow : (places + 2) * 2 ^ f.fractionBits ≤ f.infinityBits :=
      Nat.mul_le_mul_right _ hmost
    rw [Nat.add_mul] at hbelow
    omega
  refine ⟨places, rest, hshort, hfew, hrest, by omega, ?_⟩
  rw [encode, magnitudeBits, if_neg hm, hplace, hplaces, hunits, hrest, Int.toNat_natCast]
  exact congrArg _ (Nat.min_eq_left hfinite)

end Format

/-- Bits that are not those of a missing number are kept by a double. -/
theorem toBits_ofBits (bits : UInt64) (h : bits.toNat / 2 ^ 52 % 2 ^ 11 ≠ 2047) :
    (Float.ofBits bits).toBits = bits := by
  have hnumber :
      @Float.Model.UnpackedFloat.isNaNBits Float.Model.Format.binary64 bits.toBitVec = false := by
    refine decide_eq_false fun hnan => h ?_
    have hfield := congrArg BitVec.toNat hnan.1
    rw [Float.Model.UnpackedFloat.unpackExponent, BitVec.toNat_cast, BitVec.extractLsb_toNat,
      Nat.shiftRight_eq_div_pow] at hfield
    exact hfield
  have hpacked :=
    @Float.Model.UnpackedFloat.pack_unpack Float.Model.Format.binary64 bits.toBitVec
  rw [hnumber] at hpacked
  exact congrArg UInt64.ofBitVec hpacked

/-- A double that is encoded from a number of at most 53 places within its range holds that
number. -/
theorem ofDouble_toDouble (negative : Bool) {m : Nat} {q : Int} (hm : m ≠ 0)
    (hsmall : m < 2 ^ 53) (hlow : -1022 ≤ q) (hhigh : q ≤ 971) :
    ∃ k : Nat, ofDouble (toDouble (.finite negative m q)) =
      .finite negative (m * 2 ^ k) (q - k) := by
  have hlog : Nat.log2 m < 53 := (Nat.log2_lt hm).mpr hsmall
  have hlowest : Format.double.lowestExponent = -1074 := by decide
  have hpower : (2 : Int) ^ Format.double.exponentBits = 2048 := by decide
  obtain ⟨places, rest, hrest, hplaces, hfront, hexponent, hencode⟩ :=
    Format.double.encode_normal (q := q) (k := 52 - Nat.log2 m) negative hm
      (Nat.add_sub_cancel' (Nat.le_of_lt_succ hlog)) (by omega) (by omega)
  have hcarry : places * 2 ^ 52 + (2 ^ 52 + rest) = (places + 1) * 2 ^ 52 + rest := by ring
  obtain ⟨-, hfield, -⟩ :=
    Format.double.fields negative (places + 1) hrest (by omega)
  have hword : Format.double.encode (.finite negative m q) < 2 ^ 64 := by
    have hfew : places + 2 < 2 ^ 11 := hplaces
    have hshort : rest < 2 ^ 52 := hrest
    have hsign : Format.double.signBits negative ≤ 2 ^ 63 := by
      cases negative <;> decide
    rw [hencode]
    simp only [Format.double] at *
    omega
  have hnumber : (UInt64.ofNat (Format.double.encode (.finite negative m q))).toNat / 2 ^ 52 %
      2 ^ 11 ≠ 2047 := by
    have hfew : places + 2 < 2 ^ 11 := hplaces
    rw [UInt64.toNat_ofNat_of_lt' hword, hencode]
    simp only [Format.double] at *
    rw [hcarry, hfield]
    omega
  refine ⟨52 - Nat.log2 m, ?_⟩
  rw [ofDouble, toDouble, toBits_ofBits _ hnumber, UInt64.toNat_ofNat_of_lt' hword, hencode,
    Format.double.decode_normal negative hrest hplaces, ← hfront, ← hexponent]

/-- A whole number of at most 53 places is rounded to the same single by way of a double. -/
theorem toSingle_ofDouble_toDouble_ofInt {n : Int} (h : n.natAbs < 2 ^ 53) :
    (ofDouble (ofInt n).toDouble).toSingle = (ofInt n).toSingle := by
  by_cases hzero : n = 0
  · rw [hzero]
    decide +kernel
  · obtain ⟨k, hk⟩ := ofDouble_toDouble (decide (n < 0)) (Int.natAbs_ne_zero.mpr hzero) h
      (q := 0) (by decide) (by decide)
    rw [ofInt, hk, toSingle, toSingle, Format.encode, Format.encode,
      Format.magnitudeBits_scale]

end Formulary.Binary
