import Formulary.Proofs.Strategy.Absence

/-!
# Negated operations

Membership, matching a wildcard pattern, equality and the test for no value answer with a truth
value or with none, and each has a negated form that turns the answer over by itself. Negation in
general takes the bits of an integer apart and reads a string as a truth value, but of such an
answer it makes the same. So a negated form is the negation of what it denies.
-/

namespace Formulary

inductive Value.Verdict : Value → Prop
  | null : Verdict .null
  | boolean (b : Bool) : Verdict (.boolean b)

/-- The operator whose answer an operation turns over. -/
def BinaryOperation.denied? : BinaryOperation → Option Operator
  | notMember => some .member
  | notLike => some .like
  | operator .notEqual => some .equal
  | _ => none

namespace Coercion

variable (c : Coercion) {left right answer : Value}

/-- Negation turns a verdict over and has no error. -/
theorem not_of_verdict (h : answer.Verdict) : c.not answer = .ok answer.opposite := by
  cases h <;> rfl

theorem verdict_of_equal (h : c.equal left right = .ok answer) : answer.Verdict := by
  obtain ⟨b, rfl⟩ := c.exists_boolean_of_equal h
  exact .boolean b

theorem verdict_of_contains (h : c.contains left right = .ok answer) : answer.Verdict := by
  unfold contains at h
  split at h
  · cases h
    exact .null
  · obtain ⟨found, -, rfl⟩ := of_map_ok h
    exact .boolean found
  · exact c.verdict_of_equal h

theorem verdict_of_like (h : c.like left right = .ok answer) : answer.Verdict := by
  unfold like at h
  split at h
  · cases h
    exact .null
  · obtain ⟨text, -, h⟩ := of_bind_ok h
    obtain ⟨wildcards, -, h⟩ := of_bind_ok h
    split at h
    · obtain ⟨matched, -, rfl⟩ := of_map_ok h
      exact .boolean matched
    · cases h

/-- What a negated operation denies answers with a verdict. -/
theorem verdict_of_denied {op : BinaryOperation} {plain : Operator} (hop : op.denied? = some plain)
    (h : plain.apply c.strategy left right = .ok answer) : answer.Verdict := by
  match op, hop with
  | .notMember, rfl => exact c.verdict_of_contains h
  | .notLike, rfl => exact c.verdict_of_like h
  | .operator .notEqual, rfl => exact c.verdict_of_equal h

theorem apply_eq_map_opposite {op : BinaryOperation} {plain : Operator}
    (hop : op.denied? = some plain) (left right : Value) :
    op.apply c.strategy left right = (plain.apply c.strategy left right).map Value.opposite := by
  match op, hop with
  | .notMember, rfl | .notLike, rfl | .operator .notEqual, rfl => rfl

/-- A negated operation is the negation of what it denies, and has the same errors. -/
theorem apply_denied {op : BinaryOperation} {plain : Operator} (hop : op.denied? = some plain)
    (left right : Value) :
    op.apply c.strategy left right = (plain.apply c.strategy left right).bind c.strategy.not := by
  rw [c.apply_eq_map_opposite hop]
  cases h : plain.apply c.strategy left right with
  | error e => rfl
  | ok answer => exact (c.not_of_verdict (c.verdict_of_denied hop h)).symm

end Coercion

end Formulary
