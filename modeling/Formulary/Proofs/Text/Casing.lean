import Mathlib
import Formulary.Number.Numeral
import Formulary.Text.Lowercase

/-!
# Texts that differ in the case of ASCII letters

A capital letter is never mistaken for anything but a letter, so what looks for digits, signs and
points finds the same in either case. The exponent mark and the words among the numbers are read in
both cases, and names that differ in nothing else have the same small letters.
-/

namespace Formulary

/-! Characters -/

/-- A character that is no letter is the small form of itself alone. -/
theorem toLower_eq_iff {c d : Char} (hd : d.isAlpha = false) : c.toLower = d ↔ c = d := by
  by_cases hc : c.isUpper = true
  · have halpha : c.isAlpha = true := by rw [Char.isAlpha, hc, Bool.true_or]
    constructor
    · intro h
      rw [← h, Char.isAlpha_toLower_eq_isAlpha, halpha] at hd
      cases hd
    · intro h
      rw [← h, halpha] at hd
      cases hd
  · rw [Char.toLower_eq_of_not_isUpper hc]

theorem beq_toLower {d : Char} (hd : d.isAlpha = false) (c : Char) :
    (c.toLower == d) = (c == d) := by
  rw [Bool.eq_iff_iff, beq_iff_eq, beq_iff_eq, toLower_eq_iff hd]

theorem isAlpha_of_toLower_ne {c : Char} (h : c.toLower ≠ c) : c.isAlpha = true := by
  have hupper : c.isUpper = true := by
    by_contra hc
    exact h (Char.toLower_eq_of_not_isUpper hc)
  rw [Char.isAlpha, hupper, Bool.true_or]

/-- A test that treats all letters alike does not look at their case. -/
theorem toLower_congr {α : Type} (f : Char → α) {a : α}
    (h : ∀ c : Char, c.isAlpha = true → f c = a) (c : Char) : f c.toLower = f c := by
  by_cases hc : c.toLower = c
  · rw [hc]
  · have halpha := isAlpha_of_toLower_ne hc
    rw [h c halpha, h c.toLower ((Char.isAlpha_toLower_eq_isAlpha c).trans halpha)]

theorem isAlpha_iff {c : Char} : c.isAlpha = true ↔
    (65 ≤ c.toNat ∧ c.toNat ≤ 90) ∨ (97 ≤ c.toNat ∧ c.toNat ≤ 122) := by
  have hranges : c.isAlpha =
      (decide (c.val ≥ 65 ∧ c.val ≤ 90) || (decide (c.val ≥ 97) && decide (c.val ≤ 122))) := rfl
  simp only [hranges, Bool.or_eq_true, Bool.and_eq_true, decide_eq_true_eq, ge_iff_le,
    UInt32.le_iff_toNat_le]
  rfl

theorem isDigit_of_isAlpha {c : Char} (h : c.isAlpha = true) : c.isDigit = false := by
  have hcode := isAlpha_iff.mp h
  rw [Bool.eq_false_iff]
  intro hdigit
  have hrange : 48 ≤ c.toNat ∧ c.toNat ≤ 57 := Char.isDigit_iff_toNat.mp hdigit
  omega

theorem isDigit_toLower (c : Char) : c.toLower.isDigit = c.isDigit :=
  toLower_congr Char.isDigit (fun _ => isDigit_of_isAlpha) c

/-- Both letters of the exponent mark count. -/
theorem isMark_toLower (c : Char) :
    (c.toLower == 'e' || c.toLower == 'E') = (c == 'e' || c == 'E') := by
  by_cases hc : c.isUpper = true
  · have hupper : c.toLower.toUpper = c := by
      rw [Char.toUpper_toLower_eq_toUpper]
      exact Char.toUpper_eq_of_not_isLower (Char.not_isLower_of_isUpper hc)
    have hsmall : c.toLower = 'e' ↔ c = 'E' :=
      ⟨fun h => hupper.symm.trans (congrArg Char.toUpper h), fun h => congrArg Char.toLower h⟩
    have hcapital : c.toLower ≠ 'E' := by
      intro h
      have hlower := Char.isUpper_toLower_eq_false c
      rw [h] at hlower
      cases hlower
    have hother : c ≠ 'e' := by
      rintro rfl
      cases hc
    rw [Bool.eq_iff_iff]
    simp only [Bool.or_eq_true, beq_iff_eq, hsmall, hcapital, hother, or_false, false_or]
  · rw [Char.toLower_eq_of_not_isUpper hc]

/-! Texts -/

theorem takeWhile_map_toLower {p : Char → Bool} (hp : ∀ c : Char, p c.toLower = p c)
    (cs : List Char) : (cs.map Char.toLower).takeWhile p = (cs.takeWhile p).map Char.toLower := by
  rw [List.takeWhile_map, show p ∘ Char.toLower = p from funext hp]

theorem dropWhile_map_toLower {p : Char → Bool} (hp : ∀ c : Char, p c.toLower = p c)
    (cs : List Char) : (cs.map Char.toLower).dropWhile p = (cs.dropWhile p).map Char.toLower := by
  rw [List.dropWhile_map, show p ∘ Char.toLower = p from funext hp]

theorem map_toLower_of_isDigit {cs : List Char} (h : ∀ c ∈ cs, c.isDigit = true) :
    cs.map Char.toLower = cs := by
  refine (List.map_congr_left fun c hc => ?_).trans (List.map_id cs)
  by_contra hne
  have hdigit := h c hc
  rw [isDigit_of_isAlpha (isAlpha_of_toLower_ne hne)] at hdigit
  cases hdigit

theorem map_toLower_map_toLower (cs : List Char) :
    (cs.map Char.toLower).map Char.toLower = cs.map Char.toLower := by
  rw [List.map_map]
  exact List.map_congr_left fun c _ => Char.toLower_toLower_eq_toLower c

namespace Text

theorem equalIgnoringCase_map_toLower (s t : List Char) :
    equalIgnoringCase s (t.map Char.toLower) = equalIgnoringCase s t := by
  rw [equalIgnoringCase, map_toLower_map_toLower, equalIgnoringCase]

theorem map_toLower_of_equal {s t : List Char} (h : equalIgnoringCase s t = true) :
    s.map Char.toLower = t.map Char.toLower := beq_iff_eq.mp h

theorem equalIgnoringCase_congr {s t : List Char} (h : equalIgnoringCase s t = true)
    (word : List Char) : equalIgnoringCase word s = equalIgnoringCase word t := by
  rw [← equalIgnoringCase_map_toLower word s, map_toLower_of_equal h, equalIgnoringCase_map_toLower]

theorem map_toLower_eq_iff {word : List Char} (hword : ∀ c ∈ word, c.isAlpha = false)
    (s : List Char) : s.map Char.toLower = word ↔ s = word := by
  induction word generalizing s with
  | nil => rw [List.map_eq_nil_iff]
  | cons d rest ih =>
    cases s with
    | nil => exact ⟨nofun, nofun⟩
    | cons c s =>
      rw [List.map_cons, List.cons.injEq, List.cons.injEq,
        toLower_eq_iff (hword d List.mem_cons_self),
        ih (fun e he => hword e (List.mem_cons_of_mem d he))]

/-- A text without letters has no other spelling. -/
theorem eq_iff_of_equal {s t : List Char} (h : equalIgnoringCase s t = true) {word : List Char}
    (hword : ∀ c ∈ word, c.isAlpha = false) : s = word ↔ t = word := by
  rw [← map_toLower_eq_iff hword s, ← map_toLower_eq_iff hword t, map_toLower_of_equal h]

theorem isOneOf_map_toLower (words : List String) (s : List Char) :
    isOneOf words (s.map Char.toLower) = isOneOf words s := by
  unfold isOneOf
  simp only [equalIgnoringCase_map_toLower]

/-! Small letters -/

theorem isCased_toLower (c : Char) : isCased c.toLower = isCased c :=
  toLower_congr isCased (fun _ => isCased_of_isAlpha) c

theorem isCaseIgnorable_of_isAlpha {c : Char} (h : c.isAlpha = true) :
    isCaseIgnorable c = false := by
  have hbeside : ∀ range ∈ caseIgnorableRanges,
      range.2 < 65 ∨ 90 < range.1 ∧ range.2 < 97 ∨ 122 < range.1 := by
    decide +kernel
  have hcode := isAlpha_iff.mp h
  rw [Bool.eq_false_iff]
  intro hignorable
  obtain ⟨range, hrange, hholds⟩ := List.any_eq_true.mp hignorable
  have hbounds : range.1 ≤ c.toNat ∧ c.toNat ≤ range.2 := by
    simpa using hholds
  have := hbeside range hrange
  omega

theorem isCaseIgnorable_toLower (c : Char) : isCaseIgnorable c.toLower = isCaseIgnorable c :=
  toLower_congr isCaseIgnorable (fun _ => isCaseIgnorable_of_isAlpha) c

theorem casedAhead_map_toLower (cs : List Char) :
    casedAhead (cs.map Char.toLower) = casedAhead cs := by
  unfold casedAhead
  rw [dropWhile_map_toLower isCaseIgnorable_toLower]
  cases cs.dropWhile isCaseIgnorable with
  | nil => rfl
  | cons c rest => exact isCased_toLower c

theorem lowerLetter_toLower (c : Char) : lowerLetter c.toLower = lowerLetter c := by
  by_cases hc : c.toLower = c
  · rw [hc]
  · have halpha := isAlpha_of_toLower_ne hc
    have hcode := isAlpha_iff.mp halpha
    have hcode' := isAlpha_iff.mp ((Char.isAlpha_toLower_eq_isAlpha c).trans halpha)
    rw [lowerLetter, lowerLetter, if_pos (by omega), if_pos (by omega),
      Char.toLower_toLower_eq_toLower]

theorem lowerAfter_map_toLower (behind cs : List Char) :
    lowerAfter (behind.map Char.toLower) (cs.map Char.toLower) = lowerAfter behind cs := by
  induction cs generalizing behind with
  | nil => rfl
  | cons c ahead ih =>
    -- A sigma is no letter of ASCII, and which small form it has depends on what has a case.
    have hsigma : (c.toLower.toNat == 0x3A3) = (c.toNat == 0x3A3) := by
      refine toLower_congr (fun c => c.toNat == 0x3A3) (a := false) (fun d hd => ?_) c
      have hcode := isAlpha_iff.mp hd
      exact beq_eq_false_iff_ne.mpr (by omega)
    rw [List.map_cons, lowerAfter, lowerAfter, hsigma, lowerLetter_toLower, lowerSigma, lowerSigma,
      casedAhead_map_toLower, casedAhead_map_toLower, ← ih (c :: behind), List.map_cons]

/-- Spellings that differ in the case of ASCII letters are spellings of one name. -/
theorem lowercase_ofList_map_toLower (s : String) :
    lowercase (String.ofList (s.toList.map Char.toLower)) = lowercase s := by
  rw [lowercase, lowercase, String.toList_ofList]
  exact congrArg String.ofList (lowerAfter_map_toLower [] s.toList)

end Text

/-! Numbers -/

theorem splitSign_map_toLower (cs : List Char) :
    splitSign (cs.map Char.toLower) = ((splitSign cs).1, (splitSign cs).2.map Char.toLower) := by
  cases cs with
  | nil => rfl
  | cons c rest =>
    by_cases hminus : c = '-'
    · subst hminus
      rfl
    · by_cases hplus : c = '+'
      · subst hplus
        rfl
      · have hminus' : c.toLower ≠ '-' := (toLower_eq_iff rfl).not.mpr hminus
        have hplus' : c.toLower ≠ '+' := (toLower_eq_iff rfl).not.mpr hplus
        simp [splitSign, hminus, hplus, hminus', hplus']

/-- A whole number is read alike in either case. -/
theorem readInt?_map_toLower (cs : List Char) :
    readInt? (cs.map Char.toLower) = readInt? cs := by
  have hall : ((splitSign cs).2.map Char.toLower).all Char.isDigit =
      (splitSign cs).2.all Char.isDigit := by
    rw [List.all_map, show Char.isDigit ∘ Char.toLower = Char.isDigit from funext isDigit_toLower]
  rw [readInt?, readInt?, splitSign_map_toLower]
  dsimp only
  rw [hall, List.isEmpty_map]
  split
  · rfl
  · next hdigits =>
    have hsame : (splitSign cs).2.map Char.toLower = (splitSign cs).2 :=
      map_toLower_of_isDigit (by simp_all)
    rw [hsame]

theorem span_map_toLower (cs : List Char) : (cs.map Char.toLower).span Char.isDigit =
    ((cs.span Char.isDigit).1, (cs.span Char.isDigit).2.map Char.toLower) := by
  rw [List.span_eq_takeWhile_dropWhile, List.span_eq_takeWhile_dropWhile,
    takeWhile_map_toLower isDigit_toLower, dropWhile_map_toLower isDigit_toLower,
    map_toLower_of_isDigit fun c hc => List.mem_takeWhile_imp hc]

namespace Numeral

def fraction : List Char → List Char × List Char
  | '.' :: rest => rest.span Char.isDigit
  | rest => ([], rest)

/-- The exponent that a text writes, zero where there is no text. -/
def exponent? : List Char → Option Int
  | [] => some 0
  | e :: digits => if e == 'e' || e == 'E' then readInt? digits else none

theorem readUnsigned?_eq (negative : Bool) (cs : List Char) : readUnsigned? negative cs =
    let whole := (cs.span Char.isDigit).1
    let behind := fraction (cs.span Char.isDigit).2
    if whole.isEmpty && behind.1.isEmpty then none
    else (exponent? behind.2).map fun e =>
      .finite negative (digitsValue (whole ++ behind.1)) (e - behind.1.length) := by
  unfold readUnsigned? fraction exponent?
  rfl

theorem fraction_map_toLower (cs : List Char) :
    fraction (cs.map Char.toLower) = ((fraction cs).1, (fraction cs).2.map Char.toLower) := by
  cases cs with
  | nil => rfl
  | cons c rest =>
    by_cases hpoint : c = '.'
    · subst hpoint
      exact span_map_toLower rest
    · have hpoint' : c.toLower ≠ '.' := (toLower_eq_iff rfl).not.mpr hpoint
      simp [fraction, hpoint, hpoint']

theorem exponent?_map_toLower (cs : List Char) :
    exponent? (cs.map Char.toLower) = exponent? cs := by
  cases cs with
  | nil => rfl
  | cons e digits =>
    rw [List.map_cons, exponent?, exponent?, isMark_toLower, readInt?_map_toLower]

theorem readUnsigned?_map_toLower (negative : Bool) (cs : List Char) :
    readUnsigned? negative (cs.map Char.toLower) = readUnsigned? negative cs := by
  rw [readUnsigned?_eq, readUnsigned?_eq, span_map_toLower]
  dsimp only
  rw [fraction_map_toLower]
  dsimp only
  rw [exponent?_map_toLower]

theorem read?_map_toLower (cs : List Char) : read? (cs.map Char.toLower) = read? cs := by
  rw [read?, read?, splitSign_map_toLower]
  dsimp only
  rw [Text.isOneOf_map_toLower, Text.isOneOf_map_toLower, readUnsigned?_map_toLower]

end Numeral

end Formulary
