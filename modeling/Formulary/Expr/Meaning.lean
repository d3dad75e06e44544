import Formulary.Expr.Basic
import Formulary.Expr.Environment

/-!
# The meaning of expressions

The value of an expression by recursion on the expression: operands from left to right, then the
operation. The arguments of a call are evaluated before its function is looked up. The first error
on the way is the result.
-/

namespace Formulary.Expr

mutual

def evaluate (env : Environment) : Expr → Except EvalError Value
  | constant v _ => .ok v
  | reference name p => env.value name p
  | call name args p => do
    let values ← evaluateAll env args
    let body ← env.body name p
    body values env.strategy
  | unary op operand _ => do op.apply env.strategy (← operand.evaluate env)
  | binary op left right _ => do
    let l ← left.evaluate env
    let r ← right.evaluate env
    op.apply env.strategy l r

def evaluateAll (env : Environment) : List Expr → Except EvalError (List Value)
  | [] => .ok []
  | e :: rest => do
    let v ← e.evaluate env
    let values ← evaluateAll env rest
    return v :: values

end

end Formulary.Expr
