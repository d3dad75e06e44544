import Formulary.Error.Parsing
import Formulary.Expr.Basic
import Formulary.Strategy.Lenient
import Formulary.Strategy.Strict

/-!
# Operators on no value

An operator that finds no value as an operand gives no value, whatever the other operand is, and it
does so before it asks the coercion for anything. Equality alone always gives a truth value.
Membership gives no value only where there is no collection: in a collection, no value is looked for
like any other value.
-/

namespace Formulary

/-- The operators that give no value as soon as one of their operands is none. -/
def Operator.keepsAbsence : Operator → Bool
  | equal | notEqual | member => false
  | _ => true

def Value.holdsNull (collection : Value) : Bool := (collection.items?.getD []).any isNull

theorem Value.isNull_or_null (v : Value) : (v.isNull || null.isNull) = true := by
  rw [isNull.eq_1, Bool.or_true]

namespace Coercion

variable (c : Coercion) (v : Value)

theorem binary_null_right (op : Operation) (apply : Value → Value → Except EvalError Value) :
    c.binary op apply v .null = .ok .null := by
  rw [binary, if_pos v.isNull_or_null]

theorem ordering_null_right (op : Operation) (test : Ordering → Bool) :
    c.ordering op test v .null = .ok .null := c.binary_null_right v op _

theorem like_null_right : c.like v .null = .ok .null := by
  rw [like, if_pos v.isNull_or_null]

theorem element_null_right : c.element v .null = .ok .null := by
  rw [element, if_pos v.isNull_or_null]

theorem equal_null_left : c.equal .null v = .ok (.boolean v.isNull) := by
  cases v <;> rfl

theorem equal_null_right : c.equal v .null = .ok (.boolean v.isNull) := by
  cases v <;> rfl

theorem notEqual_null_left : c.notEqual .null v = .ok (.boolean !v.isNull) := by
  rw [notEqual, equal_null_left]
  rfl

theorem notEqual_null_right : c.notEqual v .null = .ok (.boolean !v.isNull) := by
  rw [notEqual, equal_null_right]
  rfl

theorem exists_boolean_of_equal {left right answer : Value}
    (h : c.equal left right = .ok answer) : ∃ b, answer = .boolean b := by
  unfold equal at h
  split at h
  · exact ⟨true, (Except.ok.inj h).symm⟩
  · exact ⟨false, (Except.ok.inj h).symm⟩
  · exact ⟨false, (Except.ok.inj h).symm⟩
  · obtain ⟨pair, -, hanswer⟩ := of_map_ok h
    exact ⟨_, hanswer.symm⟩

theorem equal_ne_null (left right : Value) : c.equal left right ≠ .ok .null := by
  intro h
  obtain ⟨b, hb⟩ := c.exists_boolean_of_equal h
  cases hb

theorem notEqual_ne_null (left right : Value) : c.notEqual left right ≠ .ok .null := by
  intro h
  obtain ⟨answer, hequal, hopposite⟩ := of_map_ok h
  obtain ⟨b, rfl⟩ := c.exists_boolean_of_equal hequal
  cases hopposite

/-- No item stops the search for no value with an error. -/
theorem anyEqual_null (items : List Value) :
    c.anyEqual .null items = .ok (items.any Value.isNull) := by
  induction items with
  | nil => rfl
  | cons item rest ih =>
    rw [anyEqual, equal_null_left, Except.bind, List.any_cons]
    cases hitem : item.isNull with
    | true => rfl
    | false => exact ih

theorem contains_null_right :
    c.contains v .null = .ok (if v.isNull then .null else .boolean v.holdsNull) := by
  cases v with
  | array items =>
    rw [contains, anyEqual_null]
    rfl
  | _ => rfl

/-- The strategy whose operators all follow from the coercion. -/
def strategy : Strategy := { toCoercion := c }

theorem apply_null_left {op : Operator} (h : op.keepsAbsence = true) :
    op.apply c.strategy .null v = .ok .null := by
  cases op with
  | equal | notEqual | member => cases h
  | _ => rfl

theorem apply_null_right {op : Operator} (h : op.keepsAbsence = true) :
    op.apply c.strategy v .null = .ok .null := by
  cases op with
  | equal | notEqual | member => cases h
  | like => exact c.like_null_right v
  | less | lessEqual | more | moreEqual => exact c.ordering_null_right v _ _
  | _ => exact c.binary_null_right v _ _

end Coercion

/-- In both strategies, every operator but equality and membership gives no value when an operand
is none. Equality always gives a truth value, and no value is equal to itself alone. Membership
gives no value exactly where there is no collection; elsewhere it tells whether no value is in
there. -/
theorem Strategy.apply_null {s : Strategy} (h : s = lenient ∨ s = strict) :
    (∀ op : Operator, op.keepsAbsence = true → ∀ v,
      op.apply s .null v = .ok .null ∧ op.apply s v .null = .ok .null) ∧
    (∀ v, s.element .null v = .ok .null ∧ s.element v .null = .ok .null) ∧
    s.not .null = .ok .null ∧ s.negative .null = .ok .null ∧
    (∀ left right, s.equal left right ≠ .ok .null ∧ s.notEqual left right ≠ .ok .null) ∧
    (∀ v, s.equal .null v = .ok (.boolean v.isNull) ∧ s.equal v .null = .ok (.boolean v.isNull) ∧
      s.notEqual .null v = .ok (.boolean !v.isNull) ∧
      s.notEqual v .null = .ok (.boolean !v.isNull)) ∧
    (∀ v, s.contains .null v = .ok .null ∧
      s.contains v .null = .ok (if v.isNull then .null else .boolean v.holdsNull)) := by
  obtain ⟨c, rfl⟩ : ∃ c : Coercion, s = c.strategy := by
    rcases h with rfl | rfl
    · exact ⟨lenient.toCoercion, rfl⟩
    · exact ⟨strict.toCoercion, rfl⟩
  refine ⟨?operators, ?element, rfl, rfl, ?notNull, ?equality, ?membership⟩
  case operators => exact fun op hop v => ⟨c.apply_null_left v hop, c.apply_null_right v hop⟩
  case element => exact fun v => ⟨rfl, c.element_null_right v⟩
  case notNull => exact fun l r => ⟨c.equal_ne_null l r, c.notEqual_ne_null l r⟩
  case equality =>
    exact fun v => ⟨c.equal_null_left v, c.equal_null_right v, c.notEqual_null_left v,
      c.notEqual_null_right v⟩
  case membership => exact fun v => ⟨rfl, c.contains_null_right v⟩

/-- A shift of an array by no value, and of no value by an array. -/
theorem Strategy.apply_null_shift :
    (strict = lenient ∨ strict = strict) ∧
      strict.shiftLeft (.array [.null]) .null = .ok .null ∧
      strict.shiftLeft .null (.array [.null]) = .ok .null := by
  have hall := (apply_null (.inr rfl)).1 .shiftLeft rfl (.array [.null])
  exact ⟨.inr rfl, hall.2, hall.1⟩

/-- No value is looked for in an array, and the answer is that it is not there. -/
theorem Strategy.contains_null_eq_false :
    lenient.contains (.array [.integer 1]) .null = .ok (.boolean false) ∧
      lenient.contains (.array [.integer 1]) .null ≠ .ok .null := by
  have hfalse : lenient.contains (.array [.integer 1]) .null = .ok (.boolean false) := rfl
  rw [hfalse]
  exact ⟨rfl, by rintro ⟨⟩⟩

end Formulary
