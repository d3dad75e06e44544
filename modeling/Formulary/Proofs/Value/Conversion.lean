import Formulary.Error.Parsing
import Formulary.Strategy.Basic

/-!
# What a conversion leads to

A value that is converted has the kind that was asked for. Which kinds can be asked
for at all depends on the kind of the value: `Kind.reaches` is that table. Two numbers can always
be brought to the wider of their kinds, with the same outcome on either side of each other.
-/

namespace Formulary

/-- Whether some value of a kind has a counterpart of the target kind. -/
def Kind.reaches (source target : Kind) : Bool :=
  source == target || match target with
    | .null | .string => true
    | .integer | .long =>
      [integer, float, double, boolean, string, dateTime, duration].contains source
    | .float | .double | .boolean => source.isNumeric || [boolean, string].contains source
    | .dateTime | .duration => [integer, long, string].contains source
    | .object | .array => false

theorem of_elim_ok {ε α : Type} {x : Option α} {e : ε} {a : α}
    (h : x.elim (Except.error e) Except.ok = Except.ok a) : x = some a := by
  cases x with
  | none => cases h
  | some b => exact congrArg some (Except.ok.inj h)

theorem of_getD_ok {ε α : Type} {x : Option (Except ε α)} {e : ε} {y : α}
    (h : x.getD (.error e) = .ok y) : x = some (.ok y) := by
  cases x with
  | none => cases h
  | some z => exact congrArg some h

namespace Value

variable {v w : Value} {target : Kind}

theorem of_found_ok {α : Type} {wrap : α → Value} {x : Except Obstacle α}
    (h : v.found target (x.map wrap) = .ok w) : ∃ a, x = .ok a ∧ wrap a = w := by
  cases x with
  | error obstacle => cases h
  | ok a => exact ⟨a, rfl, Except.ok.inj h⟩

theorem found_elim {α : Type} (v : Value) (target : Kind) (wrap : α → Value) (x : Option α)
    (obstacle : Obstacle) :
    v.found target (Except.map wrap (x.elim (.error obstacle) .ok)) =
      x.elim (.error (v.refuse target obstacle)) fun a => .ok (wrap a) := by
  cases x <;> rfl

/-- A converted value is of the kind that was asked for. -/
theorem kind_of_convert (hv : v.isNull = false) (h : v.convert target = .ok w) :
    w.kind = target := by
  unfold convert at h
  split at h
  case isTrue hkind =>
    cases h
    exact hkind
  case isFalse =>
    simp only [hv, Bool.false_eq_true, if_false] at h
    cases target with
    | null | string =>
      cases h
      rfl
    | object | array => cases h
    | _ =>
      obtain ⟨a, -, rfl⟩ := of_found_ok h
      rfl

theorem reaches_of_convert (hv : v.isNull = false) (h : v.convert target = .ok w) :
    v.kind.reaches target = true := by
  cases v with
  | null => cases hv
  | _ => cases target <;> first | rfl | cases h

theorem isNumeric_of_readNumber? {text : String} (h : readNumber? text = some v) :
    v.kind.isNumeric = true := by
  unfold readNumber? at h
  dsimp only at h
  repeat' split at h
  all_goals cases h
  all_goals rfl

end Value

inductive Value.Conversion : (Value → Kind → Except EvalError Value) → Prop
  | convert : Conversion Value.convert
  | widen : Conversion Value.widen

variable {conversion : Value → Kind → Except EvalError Value} {a b l r : Value}

/-- Two numbers can be brought together, on either side of each other. -/
theorem promote_numbers (hc : Value.Conversion conversion) (hl : l.kind.isNumeric = true)
    (hr : r.kind.isNumeric = true) :
    ∃ a b : Value, promote conversion l r = some (.ok (a, b)) ∧
      promote conversion r l = some (.ok (b, a)) ∧ a.kind = b.kind := by
  cases hc <;> cases l <;> cases hl <;> cases r <;> cases hr <;> exact ⟨_, _, rfl, rfl, rfl⟩

theorem promote_eq_none (h : (l.kind.isNumeric && r.kind.isNumeric) = false) :
    promote conversion l r = none := by
  cases hl : l.kind.numericRank with
  | none => rw [promote, hl]
  | some i =>
    cases hr : r.kind.numericRank with
    | none => rw [promote, hl, hr]
    | some j => simp [Kind.isNumeric, hl, hr] at h

/-- Numbers that are brought together are of one kind. -/
theorem kinds_of_promote (hc : Value.Conversion conversion)
    (h : promote conversion l r = some (.ok (a, b))) : a.kind = b.kind := by
  cases hnumbers : l.kind.isNumeric && r.kind.isNumeric with
  | false =>
    rw [promote_eq_none hnumbers] at h
    cases h
  | true =>
    obtain ⟨hl, hr⟩ := Bool.and_eq_true_iff.mp hnumbers
    obtain ⟨c, d, hpair, -, hkinds⟩ := promote_numbers hc hl hr
    rw [hpair] at h
    cases h
    exact hkinds

end Formulary
