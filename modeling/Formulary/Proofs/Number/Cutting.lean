import Formulary.Proofs.Number.Rounding

/-!
# The whole part of a binary number

A finite binary number is a fraction. Cutting it to a whole number is cutting that fraction toward
zero, and a single that is widened to a double is the same fraction as before. A double above
`2 ^ 53` has no places behind the point.
-/

namespace Formulary

/-- The whole number next to a fraction on the side of zero. -/
def cut (r : ℚ) : ℤ := if 0 ≤ r then ⌊r⌋ else ⌈r⌉

theorem cut_natCast (n : ℕ) : cut n = n := by
  rw [cut, if_pos (Nat.cast_nonneg n), Int.floor_natCast]

theorem cut_neg {r : ℚ} (h : 0 ≤ r) : cut (-r) = -⌊r⌋ := by
  by_cases hzero : r = 0
  · subst hzero
    rfl
  · have hneg : ¬ 0 ≤ -r := by
      rw [not_le, neg_lt_zero]
      exact lt_of_le_of_ne h (Ne.symm hzero)
    rw [cut, if_neg hneg, Int.ceil_neg]

namespace Binary

def toRat? : Binary → Option ℚ
  | finite negative m q => some ((if negative then -1 else 1) * (m * 2 ^ q))
  | _ => none

theorem floor_magnitude (m : ℕ) (q : ℤ) :
    ⌊(m * 2 ^ q : ℚ)⌋ =
      ((if q ≥ 0 then m * Nat.pow 2 q.toNat else m / Nat.pow 2 (-q).toNat : ℕ) : ℤ) := by
  by_cases hq : q ≥ 0
  · obtain ⟨k, rfl⟩ := Int.eq_ofNat_of_zero_le hq
    rw [if_pos hq, zpow_natCast]
    exact_mod_cast Int.floor_natCast (R := ℚ) (m * 2 ^ k)
  · obtain ⟨k, hk⟩ := Int.eq_ofNat_of_zero_le (a := -q) (by omega)
    obtain rfl : q = -k := by omega
    rw [if_neg hq, zpow_neg, zpow_natCast, ← div_eq_mul_inv, neg_neg, Int.toNat_natCast]
    exact_mod_cast Rat.floor_natCast_div_natCast m (2 ^ k)

/-- Cutting a binary number is cutting the fraction that it is. -/
theorem truncate_eq (x : Binary) : x.truncate = x.toRat?.map cut := by
  cases x with
  | nan | infinite negative => rfl
  | finite negative m q =>
    have hpos : (0 : ℚ) ≤ m * 2 ^ q := by positivity
    rw [truncate, toRat?, Option.map_some, ← floor_magnitude]
    cases negative with
    | false => simp [cut, hpos]
    | true => simp [← cut_neg hpos]

theorem toRat?_scale (negative : Bool) (m k : ℕ) (q : ℤ) :
    toRat? (.finite negative (m * 2 ^ k) (q - k)) = toRat? (.finite negative m q) := by
  have hscale : ((m * 2 ^ k : ℕ) : ℚ) * 2 ^ (q - k) = m * 2 ^ q := by
    rw [zpow_sub₀ (by norm_num), zpow_natCast]
    push_cast
    field_simp
  rw [toRat?, toRat?, hscale]

/-- How many places a finite number of a format has, and where the last of them is. -/
theorem Format.bounds_of_decode {f : Format} {bits m : ℕ} {negative : Bool} {q : ℤ}
    (h : f.decode bits = .finite negative m q) :
    m < 2 ^ (f.fractionBits + 1) ∧ f.lowestExponent ≤ q ∧
      q ≤ f.lowestExponent + 2 ^ f.exponentBits := by
  have hfraction : bits % 2 ^ f.fractionBits < 2 ^ f.fractionBits :=
    Nat.mod_lt _ (Nat.two_pow_pos _)
  have hexponent : bits / 2 ^ f.fractionBits % 2 ^ f.exponentBits < 2 ^ f.exponentBits :=
    Nat.mod_lt _ (Nat.two_pow_pos _)
  have hpower : (bits / 2 ^ f.fractionBits % 2 ^ f.exponentBits : ℕ) < (2 : ℤ) ^ f.exponentBits := by
    exact_mod_cast hexponent
  unfold decode at h
  simp only [Nat.pow_eq] at h
  generalize bits / 2 ^ f.fractionBits % 2 ^ f.exponentBits = exponent at *
  generalize bits % 2 ^ f.fractionBits = fraction at *
  rw [Nat.pow_succ]
  unfold lowestExponent at *
  split at h
  · split at h <;> cases h
  · split at h
    · cases h
      omega
    · cases h
      omega

/-- A single is the same fraction as the double that it is widened to. -/
theorem toRat?_widen (x : Float32) :
    (ofDouble (ofSingle x).toDouble).toRat? = (ofSingle x).toRat? := by
  cases h : ofSingle x with
  | nan =>
    have hnan : ofDouble nan.toDouble = nan := by decide +kernel
    rw [hnan]
  | infinite negative =>
    have hinfinite : ofDouble (infinite negative).toDouble = infinite negative := by
      cases negative <;> decide +kernel
    rw [hinfinite]
  | finite negative m q =>
    obtain ⟨hsmall, hlow, hhigh⟩ := Format.bounds_of_decode h
    have hlowest : Format.single.lowestExponent = -149 := by decide
    have hpower : (2 : ℤ) ^ Format.single.exponentBits = 256 := by decide
    have hplaces : 2 ^ (Format.single.fractionBits + 1) ≤ 2 ^ 53 := by decide
    by_cases hm : m = 0
    · subst hm
      have hplace : (finite negative 0 q).toDouble = (finite negative 0 0).toDouble := by
        simp only [toDouble, Format.encode, Format.magnitudeBits, if_true]
      have hzero : ofDouble (finite negative 0 0).toDouble = finite negative 0 (-1074) := by
        cases negative <;> decide +kernel
      rw [hplace, hzero]
      simp [toRat?]
    · obtain ⟨k, hk⟩ :=
        ofDouble_toDouble (q := q) negative hm (hsmall.trans_le hplaces) (by omega) (by omega)
      rw [hk, toRat?_scale]

/-- A number of 53 places whose whole part needs more of them has nothing behind the point. -/
theorem eq_cut_of_large {negative : Bool} {m : ℕ} {q : ℤ} {r : ℚ} (hm : m < 2 ^ 53)
    (h : toRat? (.finite negative m q) = some r) (hlarge : 2 ^ 53 ≤ cut r) : r = cut r := by
  have hpos : (0 : ℚ) ≤ m * 2 ^ q := by positivity
  have hfloor := floor_magnitude m q
  obtain rfl := Option.some.inj h
  cases negative with
  | true =>
    have hcut : cut (-1 * (m * 2 ^ q)) = -⌊(m * 2 ^ q : ℚ)⌋ := by rw [neg_one_mul, cut_neg hpos]
    have hnonneg := Int.floor_nonneg.mpr hpos
    rw [if_pos rfl, hcut] at hlarge
    omega
  | false =>
    rw [if_neg Bool.false_ne_true, one_mul] at hlarge ⊢
    rw [cut, if_pos hpos] at hlarge ⊢
    by_cases hq : q ≥ 0
    · obtain ⟨k, rfl⟩ := Int.eq_ofNat_of_zero_le hq
      rw [hfloor, if_pos hq, zpow_natCast]
      exact_mod_cast rfl
    · rw [if_neg hq] at hfloor
      have hquotient : m / Nat.pow 2 (-q).toNat ≤ m := Nat.div_le_self _ _
      omega

end Binary

end Formulary
