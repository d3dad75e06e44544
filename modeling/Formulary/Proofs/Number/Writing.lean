import Formulary.Number.Numeral
import Formulary.Text.Blank

/-!
# Whole numbers in writing

A whole number is written in decimal digits, with a minus sign in front of a negative one. Reading
those digits gives the number back, and so does reading them among zeros or after blanks were taken
away, since there are none.
-/

namespace Formulary

variable {cs : List Char} {c : Char}

namespace Text

theorem isBlank_of_isDigit (h : c.isDigit = true) : isBlank c = false := by
  simp only [Char.isDigit, Bool.and_eq_true, decide_eq_true_eq] at h
  obtain ⟨hlow, hhigh⟩ := h
  have hlow : 48 ≤ c.toNat := hlow
  have hhigh : c.toNat ≤ 57 := hhigh
  simp only [isBlank, Bool.or_eq_false_iff, Bool.and_eq_false_iff, decide_eq_false_iff_not,
    beq_eq_false_iff_ne]
  omega

theorem trimStart_of_not_blank (h : ∀ c ∈ cs, isBlank c = false) : trimStart cs = cs := by
  cases cs with
  | nil => rfl
  | cons c cs => exact List.dropWhile_cons_of_neg (by simp [h c List.mem_cons_self])

/-- A text without blanks stays as it is. -/
theorem trim_of_not_blank (h : ∀ c ∈ cs, isBlank c = false) : trim cs = cs := by
  have hreverse : ∀ c ∈ cs.reverse, isBlank c = false := fun c hc => h c (List.mem_reverse.mp hc)
  rw [trim, trimStart_of_not_blank h, trimStart_of_not_blank hreverse, List.reverse_reverse]

end Text

theorem digitsValue_eq_ofDigitChars (cs : List Char) :
    digitsValue cs = Nat.ofDigitChars 10 cs 0 := by
  simp only [digitsValue, Nat.ofDigitChars, Nat.mul_comm 10]
  rfl

theorem digitsValue_toDigits (n : Nat) : digitsValue (Nat.toDigits 10 n) = n := by
  rw [digitsValue_eq_ofDigitChars, Nat.ofDigitChars_ten_toDigits]

/-- Zeros in front of digits do not count. -/
theorem digitsValue_replicate_append (k : Nat) (cs : List Char) :
    digitsValue (List.replicate k '0' ++ cs) = digitsValue cs := by
  induction k with
  | zero => rfl
  | succ k ih =>
    rw [List.replicate_succ, List.cons_append]
    exact ih

theorem isDigit_of_mem_toDigits {n : Nat} (h : c ∈ Nat.toDigits 10 n) : c.isDigit = true :=
  Nat.isDigit_of_mem_toDigits (by decide) (by decide) h

theorem splitSign_of_isDigit (h : ∀ c ∈ cs, c.isDigit = true) : splitSign cs = (false, cs) := by
  unfold splitSign
  split
  · exact absurd (h '-' List.mem_cons_self) (by decide)
  · exact absurd (h '+' List.mem_cons_self) (by decide)
  · rfl

theorem toList_toString (n : Int) :
    (toString n).toList = if n < 0 then '-' :: Nat.toDigits 10 n.natAbs
      else Nat.toDigits 10 n.natAbs := by
  cases n with
  | ofNat m => exact Nat.toList_repr
  | negSucc m =>
    rw [if_pos (Int.negSucc_lt_zero m)]
    change ("-" ++ m.succ.repr).toList = _
    rw [String.toList_append, Nat.toList_repr]
    rfl

theorem readInt?_of_splitSign {negative : Bool} {n : Nat}
    (h : splitSign cs = (negative, Nat.toDigits 10 n)) :
    readInt? cs = some (if negative then -(n : Int) else n) := by
  have hdigits : (Nat.toDigits 10 n).all Char.isDigit = true :=
    List.all_eq_true.mpr fun c => isDigit_of_mem_toDigits
  rw [readInt?, h]
  simp [hdigits, Nat.toDigits_ne_nil, digitsValue_toDigits]

/-- A whole number is read back from what is written for it. -/
theorem readInt?_toString (n : Int) : readInt? (toString n).toList = some n := by
  rw [toList_toString]
  split
  case isTrue hneg =>
    rw [readInt?_of_splitSign rfl, if_pos rfl, Int.ofNat_natAbs_of_nonpos (Int.le_of_lt hneg),
      Int.neg_neg]
  case isFalse hpos =>
    rw [readInt?_of_splitSign (splitSign_of_isDigit fun c => isDigit_of_mem_toDigits),
      if_neg Bool.false_ne_true, Int.natAbs_of_nonneg (Int.not_lt.mp hpos)]

theorem trim_toString (n : Int) : Text.trim (toString n).toList = (toString n).toList := by
  refine Text.trim_of_not_blank fun c hc => ?_
  rw [toList_toString] at hc
  split at hc
  case isTrue =>
    rcases List.mem_cons.mp hc with rfl | hc
    · decide
    · exact Text.isBlank_of_isDigit (isDigit_of_mem_toDigits hc)
  case isFalse => exact Text.isBlank_of_isDigit (isDigit_of_mem_toDigits hc)

theorem int64?_toInt (n : Int64) : int64? n.toInt = some n := by
  have hlow := n.le_toInt
  have hhigh := n.toInt_lt
  rw [int64?, if_pos (by omega), Int64.ofInt_toInt]

theorem int32?_toInt (n : Int32) : int32? n.toInt = some n := by
  have hlow := n.le_toInt
  have hhigh := n.toInt_lt
  rw [int32?, if_pos (by omega), Int32.ofInt_toInt]

/-- What is written for a whole number is read as the integer of 64 bits of that value, if there is
one. -/
theorem readInt64?_toString (n : Int) :
    readInt64? (Text.trim (toString n).toList) = int64? n := by
  rw [trim_toString, readInt64?, readInt?_toString, Option.bind_some]

end Formulary
