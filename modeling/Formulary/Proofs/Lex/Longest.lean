import Formulary.Lex.Preset
import Formulary.Proofs.Lex.Spacing

/-!
# The longest front of a text

States take as much as they can, character by character. What they take is the longest of all the
fronts of the text that have the form of their sort: the longest run and the longest number. A
number state goes back where it does not find a number.
-/

namespace Formulary

variable {cs front other : List Char}

/-- The longest front of a text that has a property. -/
structure Longest (P : List Char → Prop) (cs front : List Char) : Prop where
  holds : P front
  isPrefix : front <+: cs
  longest : ∀ other, P other → other <+: cs → other.length ≤ front.length

theorem Longest.unique {P : List Char → Prop} (h : Longest P cs front)
    (hother : Longest P cs other) : front = other := by
  have hlength : front.length ≤ other.length := hother.longest front h.holds h.isPrefix
  have hfront := List.prefix_of_prefix_length_le h.isPrefix hother.isPrefix hlength
  exact hfront.eq_of_length_le (h.longest other hother.holds hother.isPrefix)

theorem Longest.exists_cons {P : List Char → Prop} {c : Char} (h : Longest P cs (c :: front)) :
    ∃ rest, cs = c :: rest := by
  obtain ⟨rest, rfl⟩ := h.isPrefix
  exact ⟨front ++ rest, rfl⟩

/-! Runs -/

def Run (p : Char → Bool) (s : List Char) : Prop := s ≠ [] ∧ ∀ c ∈ s, p c = true

variable {p : Char → Bool}

theorem isPrefix_takeWhile (h : front <+: cs) (hp : ∀ c ∈ front, p c = true) :
    front <+: cs.takeWhile p := by
  obtain ⟨rest, rfl⟩ := h
  rw [List.takeWhile_append_of_pos hp]
  exact List.prefix_append _ _

theorem longest_takeWhile {c : Char} (h : p c = true) (rest : List Char) :
    Longest (Run p) (c :: rest) ((c :: rest).takeWhile p) where
  holds := by
    refine ⟨?_, fun d hd => List.mem_takeWhile_imp hd⟩
    rw [List.takeWhile_cons_of_pos h]
    exact List.cons_ne_nil c _
  isPrefix := List.takeWhile_prefix p
  longest other hother hstart := (isPrefix_takeWhile hstart hother.2).length_le

/-- Behind the front of a run that is not all of it, the run goes on. -/
theorem eq_nil_of_run_ne {rest : List Char} (h : front ++ rest <+: cs)
    (hrun : front <+: cs.takeWhile p) (hne : front ≠ cs.takeWhile p)
    (hrest : ∀ d ∈ rest.head?, p d = false) : rest = [] := by
  cases rest with
  | nil => rfl
  | cons d more =>
    have hlength : (front ++ [d]).length ≤ (cs.takeWhile p).length := by
      rw [List.length_append, List.length_singleton]
      exact Nat.lt_of_not_le fun hle => hne (hrun.eq_of_length_le hle)
    have hnext : front ++ [d] <+: cs :=
      List.IsPrefix.trans ⟨more, by rw [List.append_assoc]; rfl⟩ h
    have hmem : front ++ [d] <+: cs.takeWhile p :=
      List.prefix_of_prefix_length_le hnext (List.takeWhile_prefix p) hlength
    have hholds : p d = true :=
      List.mem_takeWhile_imp (hmem.subset (List.mem_append_right front List.mem_cons_self))
    rw [hrest d rfl] at hholds
    cases hholds

/-- Parts one behind the other stay within the longest ones if a part that could be longer has
nothing behind it. -/
theorem append_isPrefix_append {a b rest longer : List Char} (h : a ++ rest <+: cs)
    (hlonger : longer <+: cs) (ha : a <+: longer) (hstop : a ≠ longer → rest = [])
    (hrest : rest <+: cs.drop longer.length → rest <+: b) : a ++ rest <+: longer ++ b := by
  by_cases heq : a = longer
  · subst heq
    obtain ⟨behind, rfl⟩ := hlonger
    rw [List.drop_left] at hrest
    exact (List.prefix_append_right_inj a).mpr
      (hrest ((List.prefix_append_right_inj a).mp h))
  · rw [hstop heq, List.append_nil]
    exact ha.trans (List.prefix_append longer b)

/-! Numbers -/

namespace NumberRule

inductive Fraction : List Char → Prop
  | mk {digits} (h : Run Char.isDigit digits) : Fraction ('.' :: digits)

inductive Exponent : List Char → Prop
  | mk {mark sign digits} (hmark : mark = 'e' ∨ mark = 'E')
    (hsign : sign = [] ∨ sign = ['+'] ∨ sign = ['-']) (h : Run Char.isDigit digits) :
    Exponent (mark :: (sign ++ digits))

/-- The parts are those of a number under the rule. -/
structure Allows (rule : NumberRule) (parts : NumberParts) : Prop where
  sign : parts.sign = [] ∨ (rule.sign = true ∧ parts.sign = ['-'])
  whole : ∀ c ∈ parts.whole, c.isDigit = true
  fraction : parts.fraction = [] ∨ Fraction parts.fraction
  power : parts.power = [] ∨ (rule.exponent = true ∧ Exponent parts.power)
  digits : parts.whole ≠ [] ∨ parts.fraction ≠ []

def Numeral (rule : NumberRule) (chars : List Char) : Prop :=
  ∃ parts, rule.Allows parts ∧ parts.chars = chars

theorem head_of_fraction (h : front = [] ∨ Fraction front) : ∀ c ∈ front.head?, c = '.' := by
  rcases h with rfl | @⟨digits, -⟩
  · rintro c ⟨⟩
  · rintro c ⟨⟩
    rfl

theorem head_of_exponent {allowed : Prop} (h : front = [] ∨ (allowed ∧ Exponent front)) :
    ∀ c ∈ front.head?, c = 'e' ∨ c = 'E' := by
  rcases h with rfl | ⟨-, ⟨hmark, -, -⟩⟩
  · rintro c ⟨⟩
  · rintro c ⟨⟩
    exact hmark

theorem fraction_point (rest : List Char) : fraction ('.' :: rest) =
    if (rest.takeWhile Char.isDigit).isEmpty then [] else '.' :: rest.takeWhile Char.isDigit := rfl

theorem run_takeWhile (h : ¬ (cs.takeWhile p).isEmpty = true) : Run p (cs.takeWhile p) :=
  ⟨mt List.isEmpty_iff.mpr h, fun _ hc => List.mem_takeWhile_imp hc⟩

theorem fraction_form (cs : List Char) : fraction cs = [] ∨ Fraction (fraction cs) := by
  unfold fraction
  split
  · dsimp only
    split
    · exact .inl rfl
    · next hne => exact .inr ⟨run_takeWhile hne⟩
  · exact .inl rfl

/-- The fraction that is taken is the longest in front of the text. -/
theorem isPrefix_fraction (h : Fraction front) (hstart : front <+: cs) :
    front <+: fraction cs := by
  obtain @⟨digits, hdigits⟩ := h
  cases cs with
  | nil => exact absurd (List.prefix_nil.mp hstart) (List.cons_ne_nil _ _)
  | cons c rest =>
    obtain ⟨rfl, hrest⟩ := List.cons_prefix_cons.mp hstart
    have hrun : digits <+: rest.takeWhile Char.isDigit := isPrefix_takeWhile hrest hdigits.2
    have hne : ¬ (rest.takeWhile Char.isDigit).isEmpty = true := by
      intro hempty
      rw [List.isEmpty_iff.mp hempty] at hrun
      exact hdigits.1 (List.prefix_nil.mp hrun)
    rw [fraction_point, if_neg hne]
    exact (List.prefix_cons_inj '.').mpr hrun

/-- Behind a fraction that could be longer, or is left out though there is one, comes no
exponent. -/
theorem eq_nil_of_fraction_ne {rest : List Char} (hform : front = [] ∨ Fraction front)
    (h : front ++ rest <+: cs) (hne : front ≠ fraction cs)
    (hrest : ∀ c ∈ rest.head?, c = 'e' ∨ c = 'E') : rest = [] := by
  cases cs with
  | nil => exact (List.append_eq_nil_iff.mp (List.prefix_nil.mp h)).2
  | cons c more =>
    rcases hform with rfl | @⟨digits, hdigits⟩
    · cases rest with
      | nil => rfl
      | cons d others =>
        obtain ⟨rfl, -⟩ := List.cons_prefix_cons.mp h
        rcases hrest d rfl with rfl | rfl <;> exact absurd rfl hne
    · obtain ⟨rfl, hmore⟩ := List.cons_prefix_cons.mp h
      have hrun : digits <+: more.takeWhile Char.isDigit :=
        isPrefix_takeWhile ((List.prefix_append _ _).trans hmore) hdigits.2
      refine eq_nil_of_run_ne hmore hrun ?_ ?_
      · rintro rfl
        rw [fraction_point, if_neg (mt List.isEmpty_iff.mp hdigits.1)] at hne
        exact hne rfl
      · intro d hd
        rcases hrest d hd with rfl | rfl <;> rfl

theorem powerSign_form (cs : List Char) :
    powerSign cs = [] ∨ powerSign cs = ['+'] ∨ powerSign cs = ['-'] := by
  unfold powerSign
  split
  · next c _ =>
    split
    · next h =>
      have hsign : c = '+' ∨ c = '-' := by simpa using h
      rcases hsign with rfl | rfl
      · exact .inr (.inl rfl)
      · exact .inr (.inr rfl)
    · exact .inl rfl
  · exact .inl rfl

theorem power_form (cs : List Char) : power cs = [] ∨ Exponent (power cs) := by
  cases cs with
  | nil => exact .inl rfl
  | cons e rest =>
    rw [power_cons]
    split
    · next hmark =>
      dsimp only
      split
      · exact .inl rfl
      · next hne =>
        exact .inr ⟨by simpa using hmark, powerSign_form rest, run_takeWhile hne⟩
    · exact .inl rfl

/-- The exponent that is taken is the longest in front of the text. -/
theorem isPrefix_power (h : Exponent front) (hstart : front <+: cs) : front <+: power cs := by
  obtain @⟨mark, sign, digits, hmark, hsign, hdigits⟩ := h
  cases cs with
  | nil => exact absurd (List.prefix_nil.mp hstart) (List.cons_ne_nil _ _)
  | cons c rest =>
    obtain ⟨rfl, hrest⟩ := List.cons_prefix_cons.mp hstart
    obtain ⟨behind, rfl⟩ := hrest
    have htaken : powerSign (sign ++ digits ++ behind) = sign := by
      obtain ⟨d, more, rfl⟩ := List.exists_cons_of_ne_nil hdigits.1
      have hdigit : d.isDigit = true := hdigits.2 d List.mem_cons_self
      rcases hsign with rfl | rfl | rfl
      · refine if_neg fun hsign => ?_
        have hsign : d = '+' ∨ d = '-' := by simpa using hsign
        rcases hsign with rfl | rfl <;> cases hdigit
      · rfl
      · rfl
    have hbehind : (sign ++ digits ++ behind).drop sign.length = digits ++ behind := by
      rw [List.append_assoc, List.drop_left]
    rw [power_cons, if_pos (by simpa using hmark), htaken, hbehind,
      List.takeWhile_append_of_pos hdigits.2, if_neg (by simp [hdigits.1]), List.cons_append]
    refine (List.prefix_cons_inj mark).mpr ((List.prefix_append_right_inj sign).mpr ?_)
    exact List.prefix_append _ _

/-- The parts that are taken are those of a number, if there are digits among them. -/
theorem allows_parts {rule : NumberRule}
    (h : (rule.parts cs).whole ≠ [] ∨ (rule.parts cs).fraction ≠ []) :
    rule.Allows (rule.parts cs) where
  sign := by
    dsimp only [parts]
    split
    · next hsign =>
      unfold minus
      split
      · exact .inr ⟨hsign, rfl⟩
      · exact .inl rfl
    · exact .inl rfl
  whole _ hc := List.mem_takeWhile_imp hc
  fraction := fraction_form _
  power := by
    dsimp only [parts]
    split
    · next hexponent => exact (power_form _).imp id fun hform => ⟨hexponent, hform⟩
    · exact .inl rfl
  digits := h

/-- Without a sign, a number begins with a point or a digit. -/
theorem exists_cons_of_unsigned {rule : NumberRule} {number : NumberParts}
    (h : rule.Allows number) (hnone : number.sign = []) :
    ∃ c rest, number.chars = c :: rest ∧ (c = '.' ∨ c.isDigit = true) := by
  cases hwhole : number.whole with
  | cons c more =>
    refine ⟨c, _, by rw [NumberParts.chars, hnone, hwhole]; rfl, .inr ?_⟩
    exact h.whole c (hwhole ▸ List.mem_cons_self)
  | nil =>
    cases hfraction : number.fraction with
    | nil => exact absurd hfraction (h.digits.resolve_left fun hne => hne hwhole)
    | cons c more =>
      refine ⟨c, _, by rw [NumberParts.chars, hnone, hwhole, hfraction]; rfl, .inl ?_⟩
      exact head_of_fraction h.fraction c (hfraction ▸ rfl)

theorem minus_cons {c : Char} (h : c ≠ '-') (rest : List Char) : minus (c :: rest) = [] := by
  unfold minus
  split
  · next heq => exact absurd (List.cons.inj heq).1 h
  · rfl

theorem sign_eq_of_allows {rule : NumberRule} {number : NumberParts} (h : rule.Allows number)
    (hstart : number.chars <+: cs) : number.sign = (rule.parts cs).sign := by
  obtain ⟨rest, rfl⟩ := hstart
  show number.sign = if rule.sign then minus (number.chars ++ rest) else []
  rcases h.sign with hnone | ⟨hallowed, hminus⟩
  · obtain ⟨c, more, hchars, hc⟩ := exists_cons_of_unsigned h hnone
    have hne : c ≠ '-' := by
      rintro rfl
      rcases hc with hc | hc <;> cases hc
    rw [hnone, hchars, List.cons_append, minus_cons hne, ite_self]
  · rw [if_pos hallowed, NumberParts.chars, hminus]
    rfl

/-- No number in front of a text is longer than the one of the longest parts. -/
theorem isPrefix_chars_parts {rule : NumberRule} {number : NumberParts} (h : rule.Allows number)
    (hstart : number.chars <+: cs) : number.chars <+: (rule.parts cs).chars ∧
      ((rule.parts cs).whole ≠ [] ∨ (rule.parts cs).fraction ≠ []) := by
  have hsign := sign_eq_of_allows h hstart
  let unsigned := cs.drop (rule.parts cs).sign.length
  let behind := unsigned.drop (rule.parts cs).whole.length
  have hassoc (number : NumberParts) : number.chars =
      number.sign ++ (number.whole ++ (number.fraction ++ number.power)) := by
    rw [NumberParts.chars, List.append_assoc, List.append_assoc]
  have hunsigned : number.whole ++ (number.fraction ++ number.power) <+: unsigned := by
    obtain ⟨rest, rfl⟩ := hstart
    refine ⟨rest, ?_⟩
    dsimp only [unsigned]
    rw [← hsign, hassoc, List.append_assoc number.sign, List.drop_left, List.append_assoc]
  have hwhole : number.whole <+: (rule.parts cs).whole :=
    isPrefix_takeWhile ((List.prefix_append _ _).trans hunsigned) h.whole
  have hpower (hrest : number.power <+: behind.drop (rule.parts cs).fraction.length) :
      number.power <+: (rule.parts cs).power := by
    rcases h.power with hnone | ⟨hallowed, hexponent⟩
    · rw [hnone]
      exact List.nil_prefix
    · have htaken : (rule.parts cs).power = power (behind.drop (rule.parts cs).fraction.length) :=
        if_pos hallowed
      rw [htaken]
      exact isPrefix_power hexponent hrest
  have hfraction (hrest : number.fraction ++ number.power <+: behind) :
      number.fraction <+: (rule.parts cs).fraction := by
    rcases h.fraction with hnone | hform
    · rw [hnone]
      exact List.nil_prefix
    · exact isPrefix_fraction hform ((List.prefix_append _ _).trans hrest)
  have hends (hrest : number.fraction ++ number.power <+: behind) :
      number.fraction ++ number.power <+: (rule.parts cs).fraction ++ (rule.parts cs).power :=
    append_isPrefix_append hrest (fraction_isPrefix behind) (hfraction hrest)
      (fun hne => eq_nil_of_fraction_ne h.fraction hrest hne (head_of_exponent h.power)) hpower
  have hstop (hne : number.whole ≠ (rule.parts cs).whole) :
      number.fraction ++ number.power = [] := by
    refine eq_nil_of_run_ne hunsigned hwhole hne fun d hd => ?_
    rcases mem_head?_append hd with hd | hd
    · rw [head_of_fraction h.fraction d hd]
      rfl
    · rcases head_of_exponent h.power d hd with rfl | rfl <;> rfl
  constructor
  · rw [hassoc, hassoc, hsign]
    refine (List.prefix_append_right_inj _).mpr ?_
    exact append_isPrefix_append hunsigned (List.takeWhile_prefix _) hwhole hstop hends
  · by_contra hnone
    rw [not_or, not_not, not_not] at hnone
    rw [hnone.1] at hwhole
    have hempty := List.prefix_nil.mp hwhole
    have hbehind : number.fraction ++ number.power <+: behind := by
      rw [hempty] at hunsigned
      dsimp only [behind]
      rw [hnone.1]
      exact hunsigned
    have hnofraction := hfraction hbehind
    rw [hnone.2] at hnofraction
    exact h.digits.elim (fun hne => hne hempty) fun hne => hne (List.prefix_nil.mp hnofraction)

/-- The characters that only fractions and exponents have. -/
def isMark (c : Char) : Bool := c == '.' || c == 'e' || c == 'E'

/-- The characters alone tell of what kind a number is. -/
theorem kind_of_allows {rule : NumberRule} {number : NumberParts} (h : rule.Allows number) :
    number.kind = if number.chars.any isMark then .float else .integer := by
  have hsign : number.sign.any isMark = false := by
    rcases h.sign with hsign | ⟨-, hsign⟩ <;> rw [hsign] <;> rfl
  have hwhole : number.whole.any isMark = false := by
    rw [List.any_eq_false]
    intro c hc hmark
    have hdigit := h.whole c hc
    simp only [isMark, Bool.or_eq_true, beq_iff_eq] at hmark
    rcases hmark with (rfl | rfl) | rfl <;> cases hdigit
  have hhead (part : List Char) (hpart : ∀ c ∈ part.head?, isMark c = true) :
      part.any isMark = !part.isEmpty := by
    cases part with
    | nil => rfl
    | cons c rest => rw [List.any_cons, hpart c rfl, Bool.true_or]; rfl
  have hfraction : number.fraction.any isMark = !number.fraction.isEmpty := by
    refine hhead _ fun c hc => ?_
    rw [head_of_fraction h.fraction c hc]
    rfl
  have hpower : number.power.any isMark = !number.power.isEmpty := by
    refine hhead _ fun c hc => ?_
    rcases head_of_exponent h.power c hc with rfl | rfl <;> rfl
  rw [NumberParts.kind, NumberParts.chars, List.any_append, List.any_append, List.any_append, hsign,
    hwhole, hfraction, hpower]
  cases number.fraction.isEmpty <;> cases number.power.isEmpty <;> rfl

/-- The number that is found is the longest in front of the text. -/
theorem longest_of_scan {rule : NumberRule} {kind : TokenKind} {chars : List Char}
    (h : rule.scan cs = some (kind, chars)) : ∃ number, rule.Allows number ∧
      Longest rule.Numeral cs number.chars ∧ kind = number.kind ∧ chars = number.chars := by
  have hstart := scan_isPrefix h
  rw [scan_eq_parts] at h
  split at h
  · cases h
  · next hsome =>
    cases h
    have hdigits : (rule.parts cs).whole ≠ [] ∨ (rule.parts cs).fraction ≠ [] := by
      rwa [Bool.and_eq_true, List.isEmpty_iff, List.isEmpty_iff, not_and_or] at hsome
    have hallows := allows_parts hdigits
    refine ⟨rule.parts cs, hallows, ⟨⟨_, hallows, rfl⟩, hstart, ?_⟩, rfl, rfl⟩
    rintro other ⟨number, hnumber, rfl⟩ hother
    exact (isPrefix_chars_parts hnumber hother).1.length_le

/-- A number is found unless none stands in front of the text. -/
theorem scan_eq_none_iff {rule : NumberRule} :
    rule.scan cs = none ↔ ∀ chars, rule.Numeral chars → ¬ chars <+: cs := by
  constructor
  · rintro hnone chars ⟨number, hnumber, rfl⟩ hstart
    have hdigits := (isPrefix_chars_parts hnumber hstart).2
    rw [scan_eq_parts, if_neg] at hnone
    · cases hnone
    · rwa [Bool.and_eq_true, List.isEmpty_iff, List.isEmpty_iff, not_and_or]
  · intro h
    rw [Option.eq_none_iff_forall_not_mem]
    rintro ⟨kind, chars⟩ hsome
    obtain ⟨number, hallows, hlongest, -, -⟩ := longest_of_scan hsome
    exact h _ hlongest.holds hlongest.isPrefix

/-- What is taken as a number is the longest number in front of the text. -/
theorem scan_eq_some_iff {rule : NumberRule} {kind : TokenKind} {chars : List Char} :
    rule.scan cs = some (kind, chars) ↔ ∃ number, rule.Allows number ∧
      Longest rule.Numeral cs number.chars ∧ kind = number.kind ∧ chars = number.chars := by
  refine ⟨longest_of_scan, ?_⟩
  rintro ⟨number, hallows, hlongest, rfl, rfl⟩
  cases hscan : rule.scan cs with
  | none =>
    exact absurd hlongest.isPrefix (scan_eq_none_iff.mp hscan _ hlongest.holds)
  | some found =>
    obtain ⟨kind, chars⟩ := found
    obtain ⟨other, hother, hsame, rfl, rfl⟩ := longest_of_scan hscan
    have hchars := hlongest.unique hsame
    rw [kind_of_allows hallows, kind_of_allows hother, hchars]

end NumberRule

/-- Where no number stands, a number state leaves the text to the symbols. -/
theorem State.read_number_of_none {rule : NumberRule} {cursor : Cursor}
    (h : rule.read cursor = (none, cursor)) (symbols : Option SymbolTree) :
    (number rule).read symbols cursor =
      symbols.elim (.error .missingSymbols, cursor) fun tree => (symbol tree).read symbols cursor := by
  rw [read, h]
  cases symbols <;> rfl

/-- A number state takes the longest number in front of a cursor and is behind it then. A number is
a float if it has a fraction or an exponent. If no number stands there, the cursor is where it was,
and the answer is that of the symbols, or the fault that there are none. -/
theorem State.read_number (rule : NumberRule) (symbols : Option SymbolTree) (cursor : Cursor) :
    (∃ numeral kind, rule.Allows numeral ∧ Longest rule.Numeral cursor.ahead numeral.chars ∧
      (number rule).read symbols cursor =
        (.ok ⟨kind, numeral.chars⟩, cursor.skip numeral.chars.length) ∧
      ((kind = .float ∧ (numeral.fraction ≠ [] ∨ numeral.power ≠ [])) ∨
        (kind = .integer ∧ numeral.fraction = [] ∧ numeral.power = []))) ∨
    ((∀ chars, rule.Numeral chars → ¬ chars <+: cursor.ahead) ∧
      rule.read cursor = (none, cursor) ∧
      (number rule).read symbols cursor =
        symbols.elim (.error .missingSymbols, cursor) fun tree =>
          (symbol tree).read symbols cursor) := by
  cases hscan : rule.scan cursor.ahead with
  | none =>
    have hread : rule.read cursor = (none, cursor) := by rw [NumberRule.read_eq, hscan]; rfl
    exact .inr ⟨NumberRule.scan_eq_none_iff.mp hscan, hread, read_number_of_none hread symbols⟩
  | some found =>
    obtain ⟨kind, chars⟩ := found
    obtain ⟨numeral, hallows, hlongest, rfl, rfl⟩ := NumberRule.scan_eq_some_iff.mp hscan
    refine .inl ⟨numeral, numeral.kind, hallows, hlongest, ?_, ?_⟩
    · rw [read, NumberRule.read_eq, hscan]
      rfl
    · rw [NumberParts.kind]
      split
      · next hwhole =>
        rw [Bool.and_eq_true, List.isEmpty_iff, List.isEmpty_iff] at hwhole
        exact .inr ⟨rfl, hwhole⟩
      · next hpart =>
        rw [Bool.and_eq_true, List.isEmpty_iff, List.isEmpty_iff, not_and_or] at hpart
        exact .inl ⟨rfl, hpart⟩

/-- An exponent mark with a sign but without a digit is left to the next token. -/
example : ((State.number ⟨true, true⟩).read none (.ofText "-1.5e+x")).1.toOption =
    some ⟨.float, "-1.5".toList⟩ := rfl

end Formulary
