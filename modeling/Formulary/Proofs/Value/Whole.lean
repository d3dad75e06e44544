import Formulary.Proofs.Value.Conversion
import Formulary.Value.Arithmetic

/-!
# Whole numbers and the kinds that hold them

A kind of integers holds the numbers from the negative of its limit up to below the limit. A sum, a
difference and a product of two numbers of a kind may leave it. A quotient that is cut toward zero
leaves it in one case only, the least number divided by minus one, and a remainder never does. What
leaves the kind is refused, and everything else is exact.
-/

namespace Formulary

theorem toInt_widen (n : Int32) : (widen n).toInt = n.toInt := by
  have hlow := n.le_toInt
  have hhigh := n.toInt_lt
  exact Int64.toInt_ofInt_of_le (by omega) (by omega)

/-- A computation gives a value with a property where a condition holds, and an error elsewhere. -/
structure YieldsIf (condition : Prop) (property : Value → Prop) (refusal : EvalError)
    (x : Except EvalError Value) : Prop where
  value : condition → ∃ v, x = .ok v ∧ property v
  error : ¬ condition → x = .error refusal

namespace YieldsIf

variable {p q : Prop} {P : Value → Prop} {e : EvalError} {x y : Except EvalError Value}
  {v : Value}

theorem congr (hpq : p ↔ q) (h : YieldsIf p P e x) : YieldsIf q P e x :=
  ⟨fun hq => h.value (hpq.mpr hq), fun hq => h.error fun hp => hq (hpq.mp hp)⟩

theorem of_eq (h : YieldsIf p P e x) (hyx : y = x) : YieldsIf p P e y := hyx ▸ h

theorem of_ok (h : YieldsIf p P e x) (hv : x = .ok v) : p ∧ P v := by
  by_cases hp : p
  · obtain ⟨w, hw, hP⟩ := h.value hp
    rw [hv] at hw
    cases hw
    exact ⟨hp, hP⟩
  · rw [h.error hp] at hv
    cases hv

end YieldsIf

namespace Kind

/-- The first whole number that is too large for a kind of integers. -/
def limit : Kind → Int
  | integer => 2147483648
  | long => 9223372036854775808
  | _ => 0

def Holds (k : Kind) (n : Int) : Prop := -k.limit ≤ n ∧ n < k.limit

instance (k : Kind) (n : Int) : Decidable (k.Holds n) := inferInstanceAs (Decidable (_ ∧ _))

def wider (j k : Kind) : Kind := if j.limit < k.limit then k else j

variable {k : Kind} {m n : Int}

theorem holds_long_iff :
    long.Holds n ↔ -9223372036854775808 ≤ n ∧ n < 9223372036854775808 :=
  Iff.rfl

theorem isSome_int32?_iff : (int32? n).isSome = true ↔ integer.Holds n := by
  unfold int32?
  split
  case isTrue hrange => exact iff_of_true rfl hrange
  case isFalse hrange => exact iff_of_false Bool.false_ne_true hrange

theorem isSome_int64?_iff : (int64? n).isSome = true ↔ long.Holds n := by
  unfold int64?
  split
  case isTrue hrange => exact iff_of_true rfl hrange
  case isFalse hrange => exact iff_of_false Bool.false_ne_true hrange

theorem holds_neg_iff (hm : k.Holds m) : k.Holds (-m) ↔ m ≠ -k.limit := by
  unfold Holds at *
  omega

theorem holds_natAbs_iff (hm : k.Holds m) : k.Holds m.natAbs ↔ m ≠ -k.limit := by
  unfold Holds at *
  omega

/-- A quotient leaves the kind of its dividend in one case only. -/
theorem holds_tdiv_iff (hm : k.Holds m) : k.Holds (m.tdiv n) ↔ ¬ (m = -k.limit ∧ n = -1) := by
  unfold Holds at *
  have hsize : (m.tdiv n).natAbs = m.natAbs / n.natAbs := Int.natAbs_tdiv m n
  by_cases hone : n = -1
  · subst hone
    rw [Int.tdiv_neg, Int.tdiv_one]
    omega
  by_cases hunit : n = 1
  · subst hunit
    rw [Int.tdiv_one]
    omega
  have hhalf : m.natAbs / n.natAbs ≤ m.natAbs / 2 := by
    by_cases hzero : n = 0
    · subst hzero
      simp
    · exact Nat.div_le_div_left (by omega) (by decide)
  omega

theorem holds_tmod (n : Int) (hm : k.Holds m) : k.Holds (m.tmod n) := by
  unfold Holds at *
  have hsize : (m.tmod n).natAbs ≤ m.natAbs := by
    rw [Int.natAbs_tmod]
    exact Nat.mod_le _ _
  rcases Int.le_total 0 m with hpos | hneg
  · have := Int.tmod_nonneg n hpos
    omega
  · have := Int.tmod_nonneg n (Int.neg_nonneg_of_nonpos hneg)
    rw [Int.neg_tmod] at this
    omega

end Kind

/-- A division of whole numbers: the quotient is cut toward zero, and the remainder is less than the
divisor and has the sign of the dividend. -/
structure DividesInto (m n q rest : Int) : Prop where
  quotient : q = m.tdiv n
  whole : m = q * n + rest
  less : rest.natAbs < n.natAbs
  sign : 0 < rest ∧ 0 < m ∨ rest = 0 ∨ rest < 0 ∧ m < 0

/-- Cutting a quotient toward zero divides. -/
theorem dividesInto_tdiv_tmod {m n : Int} (hn : n ≠ 0) :
    DividesInto m n (m.tdiv n) (m.tmod n) where
  quotient := rfl
  whole := by rw [Int.mul_comm, Int.mul_tdiv_add_tmod]
  less := by
    rw [Int.natAbs_tmod]
    exact Nat.mod_lt _ (Int.natAbs_pos.mpr hn)
  sign := by
    have hsize : (m.tmod n).natAbs ≤ m.natAbs := by
      rw [Int.natAbs_tmod]
      exact Nat.mod_le _ _
    have hpos := fun h : 0 ≤ m => Int.tmod_nonneg n h
    have hneg := fun h : 0 ≤ -m => Int.tmod_nonneg n h
    rw [Int.neg_tmod] at hneg
    omega

namespace Value

def Whole (v : Value) (k : Kind) (n : Int) : Prop := v.kind = k ∧ v.int? = some n

variable {a b v : Value} {k : Kind} {m n : Int}

theorem Whole.integer_or_long (h : v.Whole k n) :
    (∃ x, v = .integer x ∧ k = .integer ∧ n = x.toInt) ∨
      ∃ x, v = .long x ∧ k = .long ∧ n = x.toInt := by
  obtain ⟨rfl, hn⟩ := h
  cases v with
  | integer x => exact .inl ⟨x, rfl, rfl, (Option.some.inj hn).symm⟩
  | long x => exact .inr ⟨x, rfl, rfl, (Option.some.inj hn).symm⟩
  | _ => cases hn

theorem Whole.holds (h : v.Whole k n) : k.Holds n := by
  rcases h.integer_or_long with ⟨x, -, rfl, rfl⟩ | ⟨x, -, rfl, rfl⟩
  · exact ⟨x.le_toInt, x.toInt_lt⟩
  · exact ⟨x.le_toInt, x.toInt_lt⟩

theorem Whole.isNull (h : v.Whole k n) : v.isNull = false := by
  rcases h.integer_or_long with ⟨x, rfl, -⟩ | ⟨x, rfl, -⟩ <;> rfl

/-- Two whole numbers of one kind. -/
theorem Whole.both (ha : a.Whole k m) (hb : b.Whole k n) :
    (∃ x y, a = .integer x ∧ b = .integer y ∧ k = .integer ∧ m = x.toInt ∧ n = y.toInt) ∨
      ∃ x y, a = .long x ∧ b = .long y ∧ k = .long ∧ m = x.toInt ∧ n = y.toInt := by
  rcases ha.integer_or_long with ⟨x, rfl, rfl, rfl⟩ | ⟨x, rfl, rfl, rfl⟩
  · rcases hb.integer_or_long with ⟨y, rfl, -, rfl⟩ | ⟨y, -, ⟨⟩, -⟩
    exact .inl ⟨x, y, rfl, rfl, rfl, rfl, rfl⟩
  · rcases hb.integer_or_long with ⟨y, -, ⟨⟩, -⟩ | ⟨y, rfl, -, rfl⟩
    exact .inr ⟨x, y, rfl, rfl, rfl, rfl, rfl⟩

/-- What may be missing is there where a condition holds. -/
theorem yieldsIf_isSome {α : Type} {x : Option α} {p : Prop} {property : Value → Prop}
    {e : EvalError} {wrap : α → Value} (hp : x.isSome = true ↔ p)
    (hproperty : ∀ a, x = some a → property (wrap a)) :
    YieldsIf p property e (x.elim (.error e) fun a => .ok (wrap a)) := by
  cases x with
  | none => exact ⟨fun h => (nomatch hp.mpr h), fun _ => rfl⟩
  | some a => exact ⟨fun _ => ⟨wrap a, rfl, hproperty a rfl⟩, fun h => absurd (hp.mp rfl) h⟩

theorem yieldsIf_int32? (n : Int) (e : EvalError) :
    YieldsIf (Kind.integer.Holds n) (·.Whole .integer n) e
      ((Formulary.int32? n).elim (.error e) fun x => .ok (.integer x)) :=
  yieldsIf_isSome Kind.isSome_int32?_iff fun _ hx => ⟨rfl, congrArg some (toInt_of_int32? hx)⟩

theorem yieldsIf_int64? (n : Int) (e : EvalError) :
    YieldsIf (Kind.long.Holds n) (·.Whole .long n) e
      ((int64? n).elim (.error e) fun x => .ok (.long x)) :=
  yieldsIf_isSome Kind.isSome_int64?_iff fun _ hx => ⟨rfl, congrArg some (toInt_of_int64? hx)⟩

/-- The decision whether a computed number fits a kind. -/
def Fits (k : Kind) (fit : Operation → Int → Except EvalError Value) : Prop :=
  ∀ op n, YieldsIf (k.Holds n) (·.Whole k n) (.overflow op) (fit op n)

theorem fitting_eq_elim {α : Type} (op : Operation) (wrap : α → Value) (x : Option α) :
    fitting op wrap x = x.elim (.error (.overflow op)) fun a => .ok (wrap a) := by
  cases x <;> rfl

theorem fits_fitInteger : Fits .integer fitInteger := by
  intro op n
  rw [fitInteger, fitting_eq_elim]
  exact yieldsIf_int32? n _

theorem fits_fitLong : Fits .long fitLong := by
  intro op n
  rw [fitLong, fitting_eq_elim]
  exact yieldsIf_int64? n _

variable {fit : Operation → Int → Except EvalError Value}

theorem yieldsIf_quotient (hfit : Fits k fit) (hm : k.Holds m) (hn : n ≠ 0) :
    YieldsIf (¬ (m = -k.limit ∧ n = -1)) (·.Whole k (m.tdiv n)) (.overflow .div)
      (quotient fit m n) := by
  rw [quotient, if_neg hn]
  exact (hfit .div _).congr (Kind.holds_tdiv_iff hm)

/-- The remainder itself fits always, but it is refused together with the quotient. -/
theorem yieldsIf_leftover (hfit : Fits k fit) (hm : k.Holds m) (hn : n ≠ 0) :
    YieldsIf (¬ (m = -k.limit ∧ n = -1)) (·.Whole k (m.tmod n)) (.overflow .mod)
      (leftover fit m n) := by
  have hquotient := (hfit .mod (m.tdiv n)).congr (Kind.holds_tdiv_iff hm)
  rw [leftover, if_neg hn]
  constructor
  · intro hfits
    obtain ⟨v, hv, -⟩ := hquotient.value hfits
    rw [hv]
    exact (hfit .mod _).value (Kind.holds_tmod n hm)
  · intro hleast
    rw [hquotient.error hleast]
    rfl

theorem yieldsIf_add (ha : a.Whole k m) (hb : b.Whole k n) :
    YieldsIf (k.Holds (m + n)) (·.Whole k (m + n)) (.overflow .add) (a.add b) := by
  rcases ha.both hb with ⟨x, y, rfl, rfl, rfl, rfl, rfl⟩ | ⟨x, y, rfl, rfl, rfl, rfl, rfl⟩
  · exact fits_fitInteger .add _
  · exact fits_fitLong .add _

theorem yieldsIf_sub (ha : a.Whole k m) (hb : b.Whole k n) :
    YieldsIf (k.Holds (m - n)) (·.Whole k (m - n)) (.overflow .sub) (a.sub b) := by
  rcases ha.both hb with ⟨x, y, rfl, rfl, rfl, rfl, rfl⟩ | ⟨x, y, rfl, rfl, rfl, rfl, rfl⟩
  · exact fits_fitInteger .sub _
  · exact fits_fitLong .sub _

theorem yieldsIf_mul (ha : a.Whole k m) (hb : b.Whole k n) :
    YieldsIf (k.Holds (m * n)) (·.Whole k (m * n)) (.overflow .mul) (a.mul b) := by
  rcases ha.both hb with ⟨x, y, rfl, rfl, rfl, rfl, rfl⟩ | ⟨x, y, rfl, rfl, rfl, rfl, rfl⟩
  · exact fits_fitInteger .mul _
  · exact fits_fitLong .mul _

theorem div_by_zero (ha : a.Whole k m) (hb : b.Whole k 0) :
    a.div b = .error .divisionByZero := by
  rcases ha.both hb with ⟨x, y, rfl, rfl, -, -, hy⟩ | ⟨x, y, rfl, rfl, -, -, hy⟩
  · exact if_pos hy.symm
  · exact if_pos hy.symm

theorem rem_by_zero (ha : a.Whole k m) (hb : b.Whole k 0) :
    a.rem b = .error .divisionByZero := by
  rcases ha.both hb with ⟨x, y, rfl, rfl, -, -, hy⟩ | ⟨x, y, rfl, rfl, -, -, hy⟩
  · exact if_pos hy.symm
  · exact if_pos hy.symm

theorem yieldsIf_div (ha : a.Whole k m) (hb : b.Whole k n) (hn : n ≠ 0) :
    YieldsIf (¬ (m = -k.limit ∧ n = -1)) (·.Whole k (m.tdiv n)) (.overflow .div) (a.div b) := by
  have hm := ha.holds
  rcases ha.both hb with ⟨x, y, rfl, rfl, rfl, rfl, rfl⟩ | ⟨x, y, rfl, rfl, rfl, rfl, rfl⟩
  · exact yieldsIf_quotient fits_fitInteger hm hn
  · exact yieldsIf_quotient fits_fitLong hm hn

theorem yieldsIf_rem (ha : a.Whole k m) (hb : b.Whole k n) (hn : n ≠ 0) :
    YieldsIf (¬ (m = -k.limit ∧ n = -1)) (·.Whole k (m.tmod n)) (.overflow .mod) (a.rem b) := by
  have hm := ha.holds
  rcases ha.both hb with ⟨x, y, rfl, rfl, rfl, rfl, rfl⟩ | ⟨x, y, rfl, rfl, rfl, rfl, rfl⟩
  · exact yieldsIf_leftover fits_fitInteger hm hn
  · exact yieldsIf_leftover fits_fitLong hm hn

theorem yieldsIf_negate (ha : a.Whole k m) :
    YieldsIf (m ≠ -k.limit) (·.Whole k (-m)) (.overflow .negate) a.negate := by
  refine YieldsIf.congr (Kind.holds_neg_iff ha.holds) ?_
  rcases ha.integer_or_long with ⟨x, rfl, rfl, rfl⟩ | ⟨x, rfl, rfl, rfl⟩
  · exact fits_fitInteger .negate _
  · exact fits_fitLong .negate _

end Value

end Formulary
