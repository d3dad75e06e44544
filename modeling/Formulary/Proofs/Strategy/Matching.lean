import Formulary.Proofs.Value.Conversion
import Formulary.Strategy.Lenient
import Formulary.Strategy.Strict

/-!
# Operands of matching kinds

Operations compute with two values of one kind, and with the times that have a sum or a difference.
What a strategy makes of two operands suits the operation in this sense, with one exception: beside
a number with a fraction, text that writes no finite number is converted, but the operation then
gets the text that was there before.
-/

namespace Formulary

def Value.isTime : Value → Bool
  | dateTime _ | duration _ => true
  | _ => false

/-- The two times have a sum or a difference, even if it may be too long. -/
def Operation.ComputesTimes (op : Operation) (l r : Value) : Prop :=
  l.isTime = true ∧ r.isTime = true ∧
    (op = .add ∧ l.add r ≠ .error (Value.mismatch .add l r) ∨
      op = .sub ∧ l.sub r ≠ .error (Value.mismatch .sub l r))

/-- What operands must become for an operation: values of one kind, or the times they already
are. -/
def Operation.Suits (op : Operation) (l r a b : Value) : Prop :=
  a.kind = b.kind ∨ (a = l ∧ b = r ∧ op.ComputesTimes l r)

theorem Value.fitting_ne_mismatch {op : Operation} {α : Type} {wrap : α → Value} {x : Option α}
    {l r : Value} : fitting op wrap x ≠ .error (mismatch op l r) := by
  cases x with
  | none => rintro ⟨⟩
  | some a => rintro ⟨⟩

theorem isTemporalPair_iff {op : Operation} {l r : Value} :
    isTemporalPair op l r = true ↔ op.ComputesTimes l r := by
  constructor
  · intro h
    cases op <;> cases l <;> first | cases h | skip
    all_goals cases r <;> cases h
    case mp.sub.dateTime.dateTime.refl => exact ⟨rfl, rfl, .inr ⟨rfl, by rintro ⟨⟩⟩⟩
    all_goals
      refine ⟨rfl, rfl, ?_⟩
      first
      | exact .inl ⟨rfl, Value.fitting_ne_mismatch⟩
      | exact .inr ⟨rfl, Value.fitting_ne_mismatch⟩
  · rintro ⟨hl, hr, ⟨rfl, h⟩ | ⟨rfl, h⟩⟩
    · cases l <;> cases hl <;> cases r <;> cases hr <;> first | rfl | exact absurd rfl h
    · cases l <;> cases hl <;> cases r <;> cases hr <;> first | rfl | exact absurd rfl h

theorem isTemporalPair_eq_false {op : Operation} {l r : Value}
    (h : l.isTime = false ∨ r.isTime = false) : isTemporalPair op l r = false := by
  refine Bool.eq_false_iff.mpr fun hpair => ?_
  obtain ⟨hl, hr, -⟩ := isTemporalPair_iff.mp hpair
  rcases h with h | h
  · exact Bool.false_ne_true (h.symm.trans hl)
  · exact Bool.false_ne_true (h.symm.trans hr)

namespace Strategy

/-- Text that writes an infinite number, or the word for no number. -/
def writesNonFinite (text : String) : Bool :=
  (Value.readNumber? text).isNone && (readDouble? (Text.trim text.toList)).isSome

def outreaches (text : String) (number : Value) : Bool :=
  (number.kind == .float || number.kind == .double) && writesNonFinite text

/-- The operands that are given back as they are although no operation has a use for them. -/
def strays (op : Operation) (l r : Value) : Bool :=
  !op.isComparison && match l, r with
    | .string text, number => op != .add && outreaches text number
    | number, .string text => outreaches text number
    | _, _ => false

variable {op : Operation} {l r a b : Value}

theorem suits_of_strictPair (h : strictPair op l r = .ok (a, b)) : op.Suits l r a b := by
  unfold strictPair at h
  split at h
  case isTrue hsame =>
    cases h
    exact hsame.imp_right fun htimes => ⟨rfl, rfl, isTemporalPair_iff.mp htimes⟩
  case isFalse => exact .inl (kinds_of_promote .widen (of_getD_ok h))

/-- Two strings become values of one kind. -/
theorem kinds_of_pairTexts {s t : String} (h : pairTexts op s t = .ok (a, b)) :
    a.kind = b.kind := by
  unfold pairTexts at h
  extract_lets unread at h
  have hunread (hpair : unread = .ok (a, b)) : a.kind = b.kind := by
    unfold unread at hpair
    split at hpair
    case isTrue =>
      obtain ⟨c, hc, hrest⟩ := of_bind_ok hpair
      obtain ⟨d, hd, heq⟩ := of_map_ok hrest
      cases heq
      rw [Value.kind_of_convert rfl hc, Value.kind_of_convert rfl hd]
    case isFalse =>
      split at hpair <;> cases hpair
      rfl
  split at h
  case h_1 m n _ _ =>
    cases hnumbers : promote Value.convert m n with
    | none =>
      rw [hnumbers] at h
      exact hunread h
    | some result =>
      rw [hnumbers] at h
      exact kinds_of_promote .convert (hnumbers.trans (congrArg some h))
  case h_2 => exact hunread h

/-- Text that writes no number of any kind is none of the whole numbers either. -/
theorem readInt64?_of_readNumber?_none {text : String} (h : Value.readNumber? text = none) :
    readInt64? (Text.trim text.toList) = none := by
  cases hlong : readInt64? (Text.trim text.toList) with
  | none => rfl
  | some n =>
    simp only [Value.readNumber?, hlong] at h
    split at h <;> cases h

/-- Where text that writes no finite number converts to the kind of a number, it writes an infinite
one. -/
theorem outreaches_of_convert {text : String} {number v : Value}
    (hnumber : number.kind.isNumeric = true) (hread : Value.readNumber? text = none)
    (h : (Value.string text).convert number.kind = .ok v) : outreaches text number = true := by
  have hlong (n : Int64) (hn : (Value.string text).toLong = .ok n) : False := by
    have hsome := of_elim_ok hn
    rw [readInt64?_of_readNumber?_none hread] at hsome
    cases hsome
  cases number with
  | integer m =>
    obtain ⟨k, hk, -⟩ := Value.of_found_ok h
    obtain ⟨n, hn, -⟩ := of_bind_ok hk
    exact (hlong n hn).elim
  | long m =>
    obtain ⟨n, hn, -⟩ := Value.of_found_ok h
    exact (hlong n hn).elim
  | float y | double y =>
    obtain ⟨x, hx, -⟩ := Value.of_found_ok h
    have hdouble : readDouble? (Text.trim text.toList) = some x := of_elim_ok hx
    simp [outreaches, writesNonFinite, hread, hdouble, Value.kind]
  | _ => cases hnumber

/-- Text beside a number is paired with it in this order or the other, and so are the number that
the text writes and the other one. -/
theorem kinds_of_pairTextNumber {text : String} {number : Value}
    {withNumber : Value → Value × Value} (hnumber : number.kind.isNumeric = true)
    (h : pairTextNumber op l r text number withNumber = .ok (a, b)) :
    a.kind = b.kind ∨
      (op.isComparison = false ∧ outreaches text number = true ∧ a = l ∧ b = r) := by
  unfold pairTextNumber at h
  split at h
  case h_1 => exact .inl (kinds_of_promote .convert (of_getD_ok h))
  case h_2 hread =>
    split at h
    case isTrue =>
      cases h
      exact .inl rfl
    case isFalse hcomparison =>
      obtain ⟨c, hc, heq⟩ := of_map_ok h
      cases heq
      exact .inr ⟨by simpa using hcomparison, outreaches_of_convert hnumber hread hc, rfl, rfl⟩

/-- Operands of two kinds become values of one kind. -/
theorem kinds_of_pairByKind (hl : l.isNull = false) (hr : r.isNull = false)
    (h : pairByKind op l r = .ok (a, b)) : a.kind = b.kind := by
  unfold pairByKind at h
  extract_lets byKind at h
  have hbyKind (hpair : byKind = .ok (a, b)) : a.kind = b.kind := by
    unfold byKind at hpair
    split at hpair
    case h_1 c hright =>
      cases hpair
      exact (Value.kind_of_convert hr hright).symm
    case h_2 =>
      split at hpair
      case h_1 c hleft =>
        cases hpair
        exact Value.kind_of_convert hl hleft
      case h_2 =>
        split at hpair <;> cases hpair
        rfl
  split at h
  case isTrue =>
    split at h
    case h_1 c d hleft hright =>
      cases h
      rw [Value.kind_of_convert hl hleft, Value.kind_of_convert hr hright]
    case h_2 => exact hbyKind h
  case isFalse => exact hbyKind h

theorem kinds_of_pairMixed (hl : l.isNull = false) (hr : r.isNull = false)
    (hadd : op = .add → l.kind ≠ .string) (h : pairMixed op l r = .ok (a, b)) :
    a.kind = b.kind ∨ (strays op l r = true ∧ a = l ∧ b = r) := by
  unfold pairMixed at h
  split at h
  case isTrue hkinds =>
    cases h
    exact .inl hkinds
  case isFalse =>
    split at h
    case h_1 result hnumbers => exact .inl (kinds_of_promote .convert (h ▸ hnumbers))
    case h_2 =>
      split at h
      case h_1 text number =>
        split at h
        case isFalse => exact .inl (kinds_of_pairByKind hl hr h)
        case isTrue hnumber =>
          refine (kinds_of_pairTextNumber hnumber h).imp_right ?_
          rintro ⟨hcomparison, htext, hpair⟩
          have hother : op ≠ .add := fun hop => hadd hop rfl
          exact ⟨by simp [strays, hcomparison, hother, htext], hpair⟩
      case h_2 number text hnoText =>
        split at h
        case isFalse => exact .inl (kinds_of_pairByKind hl hr h)
        case isTrue hnumber =>
          refine (kinds_of_pairTextNumber hnumber h).imp_right ?_
          rintro ⟨hcomparison, htext, hpair⟩
          exact ⟨by simp [strays, hcomparison, htext], hpair⟩
      case h_3 => exact .inl (kinds_of_pairByKind hl hr h)

/-- Operands that the lenient coercion brings together suit the operation, or stray and stay as they
are. -/
theorem suits_of_lenientPair (hl : l.isNull = false) (hr : r.isNull = false)
    (h : lenientPair op l r = .ok (a, b)) :
    op.Suits l r a b ∨ (strays op l r = true ∧ a = l ∧ b = r) := by
  unfold lenientPair at h
  split at h
  case isTrue htimes =>
    cases h
    exact .inl (.inr ⟨rfl, rfl, isTemporalPair_iff.mp htimes⟩)
  case isFalse =>
    suffices hkinds : a.kind = b.kind ∨ (strays op l r = true ∧ a = l ∧ b = r) from
      hkinds.imp_left .inl
    split at h
    case h_1 s t =>
      split at h
      case isTrue =>
        cases h
        exact .inl rfl
      case isFalse => exact .inl (kinds_of_pairTexts h)
    case h_2 =>
      split at h
      case isTrue =>
        cases h
        exact .inl rfl
      case isFalse hop => exact kinds_of_pairMixed hl hr (fun hadd => absurd hadd hop) h
    case h_3 hnoText _ =>
      refine kinds_of_pairMixed hl hr (fun _ hstring => ?_) h
      cases l <;> cases hstring
      exact hnoText _ rfl

theorem isNumeric_of_outreaches {text : String} {number : Value}
    (h : outreaches text number = true) : number.kind.isNumeric = true := by
  obtain ⟨hkind, -⟩ := Bool.and_eq_true_iff.mp h
  cases number <;> first | rfl | cases hkind

theorem pairTextNumber_of_outreaches {text : String} {number : Value}
    {withNumber : Value → Value × Value} (hcomparison : op.isComparison = false)
    (h : outreaches text number = true) :
    pairTextNumber op l r text number withNumber = .ok (l, r) := by
  obtain ⟨hkind, htext⟩ := Bool.and_eq_true_iff.mp h
  obtain ⟨hread, hdouble⟩ := Bool.and_eq_true_iff.mp htext
  obtain ⟨x, hx⟩ := Option.isSome_iff_exists.mp hdouble
  have hconvert : ∃ v, (Value.string text).convert number.kind = .ok v := by
    have htoDouble : (Value.string text).toDouble = .ok x := by rw [Value.toDouble, hx]; rfl
    cases number with
    | float y | double y =>
      exact ⟨_, congrArg (fun result => Value.found _ _ (Except.map _ result)) htoDouble⟩
    | _ => cases hkind
  obtain ⟨v, hv⟩ := hconvert
  rw [pairTextNumber, Option.isNone_iff_eq_none.mp hread]
  simp only [hcomparison, Bool.false_eq_true, if_false, hv]
  rfl

theorem lenientPair_eq_pairMixed (htimes : isTemporalPair op l r = false)
    (htexts : l.kind = .string → r.kind ≠ .string ∧ op ≠ .add) :
    lenientPair op l r = pairMixed op l r := by
  unfold lenientPair
  rw [htimes]
  cases l with
  | string s =>
    obtain ⟨hr, hadd⟩ := htexts rfl
    cases r with
    | string t => exact absurd rfl hr
    | _ => exact if_neg hadd
  | _ => rfl

theorem lenientPair_texts {s t : String} (hadd : op ≠ .add) :
    lenientPair op (.string s) (.string t) = pairTexts op s t := by
  unfold lenientPair
  rw [isTemporalPair_eq_false (.inl rfl)]
  exact if_neg hadd

theorem pairMixed_of_kinds (h : l.kind = r.kind) : pairMixed op l r = .ok (l, r) := if_pos h

theorem pairMixed_of_promote {result : Except EvalError (Value × Value)} (hkinds : l.kind ≠ r.kind)
    (h : promote Value.convert l r = some result) : pairMixed op l r = result := by
  unfold pairMixed
  rw [if_neg hkinds, h]

theorem pairMixed_eq_pairByKind (hkinds : l.kind ≠ r.kind)
    (hnumbers : (l.kind.isNumeric && r.kind.isNumeric) = false)
    (hleft : l.kind = .string → r.kind.isNumeric = false)
    (hright : r.kind = .string → l.kind.isNumeric = false) :
    pairMixed op l r = pairByKind op l r := by
  unfold pairMixed
  rw [if_neg hkinds, promote_eq_none hnumbers]
  dsimp only
  split
  case h_1 => exact if_neg (by simp [hleft rfl])
  case h_2 => exact if_neg (by simp [hright rfl])
  case h_3 => rfl

theorem lenientPair_text_number {text : String} {number : Value} (hadd : op ≠ .add)
    (hnumber : number.kind.isNumeric = true) :
    lenientPair op (.string text) number =
      pairTextNumber op (.string text) number text number fun n => (n, number) := by
  rw [lenientPair_eq_pairMixed (isTemporalPair_eq_false (.inl rfl))]
  · cases number <;> cases hnumber <;> rfl
  · intro _
    refine ⟨fun hkind => ?_, hadd⟩
    rw [hkind] at hnumber
    cases hnumber

theorem lenientPair_number_text {text : String} {number : Value}
    (hnumber : number.kind.isNumeric = true) :
    lenientPair op number (.string text) =
      pairTextNumber op number (.string text) text number fun n => (number, n) := by
  rw [lenientPair_eq_pairMixed (isTemporalPair_eq_false (.inr rfl))]
  · cases number <;> cases hnumber <;> rfl
  · intro hkind
    rw [hkind] at hnumber
    cases hnumber

/-- Operands that stray are given back as they are. -/
theorem lenientPair_of_strays (h : strays op l r = true) : lenientPair op l r = .ok (l, r) := by
  obtain ⟨hoperation, hoperands⟩ := Bool.and_eq_true_iff.mp h
  have hcomparison : op.isComparison = false := by simpa using hoperation
  split at hoperands
  case h_1 number text =>
    obtain ⟨hadd, htext⟩ := Bool.and_eq_true_iff.mp hoperands
    rw [lenientPair_text_number (by simpa using hadd) (isNumeric_of_outreaches htext)]
    exact pairTextNumber_of_outreaches hcomparison htext
  case h_2 text _ =>
    rw [lenientPair_number_text (isNumeric_of_outreaches hoperands)]
    exact pairTextNumber_of_outreaches hcomparison hoperands
  case h_3 => cases hoperands

/-- Operands that stray suit no operation. -/
theorem not_suits_of_strays (h : strays op l r = true) : ¬ op.Suits l r l r := by
  obtain ⟨-, hoperands⟩ := Bool.and_eq_true_iff.mp h
  rintro (hkinds | ⟨-, -, hl, hr, -⟩)
  · split at hoperands
    case h_1 number text =>
      have hnumber := isNumeric_of_outreaches (Bool.and_eq_true_iff.mp hoperands).2
      rw [← hkinds] at hnumber
      cases hnumber
    case h_2 text _ =>
      have hnumber := isNumeric_of_outreaches hoperands
      rw [hkinds] at hnumber
      cases hnumber
    case h_3 => cases hoperands
  · cases l <;> cases hl <;> cases r <;> cases hr <;> cases hoperands

end Strategy

/-- What both strategies make of two operands suits the operation. The lenient one alone gives a
text and a number back that do not suit it, and it does so whenever the text writes no finite
number, the number is of a kind with infinite numbers, and the operation neither compares the two
nor adds to the text. -/
theorem Strategy.coerce_suits {op : Operation} {l r : Value} (hl : l.isNull = false)
    (hr : r.isNull = false) :
    (∀ a b, strict.coerce op l r = .ok (a, b) → op.Suits l r a b) ∧
    (∀ a b, strays op l r = false → lenient.coerce op l r = .ok (a, b) → op.Suits l r a b) ∧
    (strays op l r = true → lenient.coerce op l r = .ok (l, r) ∧ ¬ op.Suits l r l r) := by
  refine ⟨fun a b => suits_of_strictPair, fun a b hstays h => ?_,
    fun hstrays => ⟨lenientPair_of_strays hstrays, not_suits_of_strays hstrays⟩⟩
  refine (suits_of_lenientPair hl hr h).resolve_right ?_
  rintro ⟨hstrays, -⟩
  rw [hstays] at hstrays
  cases hstrays

/-- The product of the text of a number and a number. -/
theorem Strategy.coerce_suits_product :
    (Value.string "2").isNull = false ∧ (Value.double 1).isNull = false ∧
      strays .mul (.string "2") (.double 1) = false ∧
      lenient.coerce .mul (.string "2") (.double 1) = .ok (.double 2, .double 1) ∧
      Operation.mul.Suits (.string "2") (.double 1) (.double 2) (.double 1) := by
  have hstays : strays .mul (.string "2") (.double 1) = false := by decide +kernel
  have hcoerce : lenient.coerce .mul (.string "2") (.double 1) = .ok (.double 2, .double 1) := by
    rfl
  exact ⟨rfl, rfl, hstays, hcoerce, (coerce_suits rfl rfl).2.1 _ _ hstays hcoerce⟩

/-- Infinity in writing, times a number. -/
theorem Strategy.coerce_infinite_text :
    lenient.coerce .mul (.string "inf") (.double 1) = .ok (.string "inf", .double 1) ∧
      ¬ Operation.mul.Suits (.string "inf") (.double 1) (.string "inf") (.double 1) := by
  have hstrays : strays .mul (.string "inf") (.double 1) = true := by decide +kernel
  exact ⟨lenientPair_of_strays hstrays, not_suits_of_strays hstrays⟩

end Formulary
