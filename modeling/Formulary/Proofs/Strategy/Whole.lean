import Formulary.Library.Arithmetic
import Formulary.Proofs.Strategy.Absence
import Formulary.Proofs.Strategy.Matching
import Formulary.Proofs.Value.Whole

/-!
# Arithmetic of whole numbers is exact

Two integers of any width are first brought to the wider of their kinds, under both strategies, and
that changes neither number. The operation is then computed in that kind, so its limits decide
whether a result is too large. The other sign and the absolute value stay in the kind of the number
itself.
-/

namespace Formulary

variable {l r v : Value} {j k : Kind} {m n : Int}

theorem Kind.wider_self (k : Kind) : k.wider k = k := by
  unfold wider
  split <;> rfl

theorem Value.Whole.isTime (h : v.Whole k n) : v.isTime = false := by
  rcases h.integer_or_long with ⟨x, rfl, -⟩ | ⟨x, rfl, -⟩ <;> rfl

/-- Two integers are widened to the wider kind and stay the numbers that they were. -/
theorem promote_integers {conversion : Value → Kind → Except EvalError Value}
    (hc : Value.Conversion conversion) (hl : l.Whole j m) (hr : r.Whole k n) :
    ∃ a b, promote conversion l r = some (.ok (a, b)) ∧
      a.Whole (j.wider k) m ∧ b.Whole (j.wider k) n := by
  rcases hl.integer_or_long with ⟨x, rfl, rfl, rfl⟩ | ⟨x, rfl, rfl, rfl⟩
  · rcases hr.integer_or_long with ⟨y, rfl, rfl, rfl⟩ | ⟨y, rfl, rfl, rfl⟩
    · cases hc <;> exact ⟨_, _, rfl, ⟨rfl, rfl⟩, rfl, rfl⟩
    · cases hc <;> exact ⟨_, _, rfl, ⟨rfl, congrArg some (toInt_widen x)⟩, rfl, rfl⟩
  · rcases hr.integer_or_long with ⟨y, rfl, rfl, rfl⟩ | ⟨y, rfl, rfl, rfl⟩
    · cases hc <;> exact ⟨_, _, rfl, ⟨rfl, rfl⟩, rfl, congrArg some (toInt_widen y)⟩
    · cases hc <;> exact ⟨_, _, rfl, ⟨rfl, rfl⟩, rfl, rfl⟩

namespace Coercion

/-- Two integers are brought to the wider of their kinds, and each is the number that it was. -/
def WidensIntegers (c : Coercion) : Prop :=
  ∀ (op : Operation) (l r : Value) (j k : Kind) (m n : Int), l.Whole j m → r.Whole k n →
    ∃ a b, c.coerce op l r = .ok (a, b) ∧ a.Whole (j.wider k) m ∧ b.Whole (j.wider k) n

variable {c : Coercion}

/-- An operator works on two numbers of the wider kind. -/
theorem WidensIntegers.binary (hc : c.WidensIntegers) (hl : l.Whole j m) (hr : r.Whole k n)
    (op : Operation) (apply : Value → Value → Except EvalError Value) :
    ∃ a b, c.binary op apply l r = apply a b ∧
      a.Whole (j.wider k) m ∧ b.Whole (j.wider k) n := by
  obtain ⟨a, b, hcoerce, ha, hb⟩ := hc op l r j k m n hl hr
  refine ⟨a, b, ?_, ha, hb⟩
  rw [Coercion.binary, hl.isNull, hr.isNull, hcoerce]
  rfl

theorem negative_integer (c : Coercion) (hl : l.Whole j m) : c.negative l = l.negate := by
  rcases hl.integer_or_long with ⟨x, rfl, -⟩ | ⟨x, rfl, -⟩ <;> rfl

end Coercion

namespace Strategy

theorem strict_widensIntegers : strict.toCoercion.WidensIntegers := by
  intro op l r j k m n hl hr
  have htimes : isTemporalPair op l r = false := isTemporalPair_eq_false (.inl hl.isTime)
  by_cases hkinds : l.kind = r.kind
  · obtain rfl : j = k := by rw [← hl.1, ← hr.1, hkinds]
    rw [Kind.wider_self]
    exact ⟨l, r, if_pos (.inl hkinds), hl, hr⟩
  · obtain ⟨a, b, hpair, ha, hb⟩ := promote_integers .widen hl hr
    refine ⟨a, b, ?_, ha, hb⟩
    change strictPair op l r = _
    rw [strictPair, if_neg (by simp [hkinds, htimes]), hpair]
    rfl

theorem lenient_widensIntegers : lenient.toCoercion.WidensIntegers := by
  intro op l r j k m n hl hr
  have htext : l.kind ≠ .string := by
    rcases hl.integer_or_long with ⟨x, rfl, -⟩ | ⟨x, rfl, -⟩ <;> rintro ⟨⟩
  have hmixed : lenient.coerce op l r = pairMixed op l r :=
    lenientPair_eq_pairMixed (isTemporalPair_eq_false (.inl hl.isTime)) fun h => absurd h htext
  rw [hmixed]
  by_cases hkinds : l.kind = r.kind
  · obtain rfl : j = k := by rw [← hl.1, ← hr.1, hkinds]
    rw [Kind.wider_self]
    exact ⟨l, r, pairMixed_of_kinds hkinds, hl, hr⟩
  · obtain ⟨a, b, hpair, ha, hb⟩ := promote_integers .convert hl hr
    exact ⟨a, b, pairMixed_of_promote hkinds hpair, ha, hb⟩

end Strategy

/-- The function that drops the sign, on an integer. -/
theorem Library.yieldsIf_abs (s : Strategy) (hv : v.Whole k n) :
    YieldsIf (n ≠ -k.limit) (·.Whole k n.natAbs) (refuse "Abs" .overflow) (abs.body [v] s) := by
  refine YieldsIf.congr (Kind.holds_natAbs_iff hv.holds) ?_
  have hbody : abs.body [v] s = absolute s v := rfl
  rw [hbody]
  rcases hv.integer_or_long with ⟨x, rfl, rfl, rfl⟩ | ⟨x, rfl, rfl, rfl⟩
  · exact Value.yieldsIf_int32? _ (refuse "Abs" .overflow)
  · exact Value.yieldsIf_int64? _ (refuse "Abs" .overflow)

/-- Both strategies compute with integers exactly or not at all. Sum, difference and product of two
integers are integers of the wider kind, unless they do not fit it. A division by zero has an error
of its own. Every other division has a quotient that is cut toward zero and a remainder, unless the
least number of the wider kind is divided by minus one. The other sign and the absolute value are
integers of the kind of the number, unless that is the least one. -/
theorem Strategy.integer_arithmetic {s : Strategy} (hs : s = lenient ∨ s = strict)
    (hl : l.Whole j m) (hr : r.Whole k n) :
    YieldsIf ((j.wider k).Holds (m + n)) (·.Whole (j.wider k) (m + n)) (.overflow .add)
      (s.add l r) ∧
    YieldsIf ((j.wider k).Holds (m - n)) (·.Whole (j.wider k) (m - n)) (.overflow .sub)
      (s.sub l r) ∧
    YieldsIf ((j.wider k).Holds (m * n)) (·.Whole (j.wider k) (m * n)) (.overflow .mul)
      (s.mul l r) ∧
    (n = 0 → s.div l r = .error .divisionByZero ∧ s.rem l r = .error .divisionByZero) ∧
    (n ≠ 0 → ∃ q rest, DividesInto m n q rest ∧
      YieldsIf (¬ (m = -(j.wider k).limit ∧ n = -1)) (·.Whole (j.wider k) q) (.overflow .div)
        (s.div l r) ∧
      YieldsIf (¬ (m = -(j.wider k).limit ∧ n = -1)) (·.Whole (j.wider k) rest) (.overflow .mod)
        (s.rem l r)) ∧
    YieldsIf (m ≠ -j.limit) (·.Whole j (-m)) (.overflow .negate) (s.negative l) ∧
    YieldsIf (m ≠ -j.limit) (·.Whole j m.natAbs) (Library.refuse "Abs" .overflow)
      (Library.abs.body [l] s) := by
  obtain ⟨c, hc, rfl⟩ : ∃ c : Coercion, c.WidensIntegers ∧ s = c.strategy := by
    rcases hs with rfl | rfl
    · exact ⟨_, lenient_widensIntegers, rfl⟩
    · exact ⟨_, strict_widensIntegers, rfl⟩
  refine ⟨?sum, ?difference, ?product, ?byZero, ?division, ?negative, Library.yieldsIf_abs _ hl⟩
  case sum =>
    obtain ⟨a, b, hsum, ha, hb⟩ := hc.binary hl hr .add Value.add
    exact (Value.yieldsIf_add ha hb).of_eq hsum
  case difference =>
    obtain ⟨a, b, hdifference, ha, hb⟩ := hc.binary hl hr .sub Value.sub
    exact (Value.yieldsIf_sub ha hb).of_eq hdifference
  case product =>
    obtain ⟨a, b, hproduct, ha, hb⟩ := hc.binary hl hr .mul Value.mul
    exact (Value.yieldsIf_mul ha hb).of_eq hproduct
  case byZero =>
    rintro rfl
    obtain ⟨a, b, hquotient, ha, hb⟩ := hc.binary hl hr .div Value.div
    obtain ⟨a', b', hrest, ha', hb'⟩ := hc.binary hl hr .mod Value.rem
    exact ⟨hquotient.trans (Value.div_by_zero ha hb), hrest.trans (Value.rem_by_zero ha' hb')⟩
  case division =>
    intro hn
    obtain ⟨a, b, hquotient, ha, hb⟩ := hc.binary hl hr .div Value.div
    obtain ⟨a', b', hrest, ha', hb'⟩ := hc.binary hl hr .mod Value.rem
    exact ⟨_, _, dividesInto_tdiv_tmod hn, (Value.yieldsIf_div ha hb hn).of_eq hquotient,
      (Value.yieldsIf_rem ha' hb' hn).of_eq hrest⟩
  case negative =>
    have hnegative : c.strategy.negative l = l.negate := c.negative_integer hl
    rw [hnegative]
    exact Value.yieldsIf_negate hl

/-- The least integer of 32 bits divided by minus one of 64 bits. -/
theorem Strategy.integer_arithmetic_least :
    (lenient = lenient ∨ lenient = strict) ∧
      (Value.integer (-2147483648)).Whole .integer (-2147483648) ∧
      (Value.long (-1)).Whole .long (-1) ∧
      ∃ v, lenient.div (.integer (-2147483648)) (.long (-1)) = .ok v ∧
        v.Whole .long 2147483648 := by
  have hl : (Value.integer (-2147483648)).Whole .integer (-2147483648) := ⟨rfl, by decide⟩
  have hr : (Value.long (-1)).Whole .long (-1) := ⟨rfl, by decide⟩
  obtain ⟨-, -, -, -, hdivision, -⟩ := integer_arithmetic (.inl rfl) hl hr
  obtain ⟨q, rest, hcut, hdiv, -⟩ := hdivision (by decide)
  obtain rfl : q = 2147483648 := hcut.quotient
  exact ⟨.inl rfl, hl, hr, hdiv.value (by decide)⟩

end Formulary
