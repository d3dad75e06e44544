import Formulary.Strategy.Basic

/-!
# The strict strategy

Numbers are widened to the wider kind of the two. Operands of different kinds are refused otherwise,
so whoever wants another kind converts first.
-/

namespace Formulary.Strategy

/-- Operands as they are when their kinds agree, and numbers of the wider kind. -/
def strictPair (op : Operation) (left right : Value) : Except EvalError (Value × Value) :=
  if left.kind = right.kind ∨ isTemporalPair op left right then .ok (left, right)
  else (promote Value.widen left right).getD (.error (Value.mismatch op left right))

/-- The strategy that only widens numbers. -/
def strict : Strategy := { convert := Value.widen, coerce := strictPair }

end Formulary.Strategy
