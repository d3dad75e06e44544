import Formulary.Strategy.Basic

/-!
# Expressions

An expression is a tree of constants, variables, calls and operations. Every node knows the place
in the text that errors about it point to. Two operations with a notation of their own, `NOT IN`
and `NOT LIKE`, and the look-up of an element stand beside those written by a single operator.
-/

namespace Formulary

inductive Operator
  | or
  | xor
  | and
  | equal
  | notEqual
  | less
  | lessEqual
  | more
  | moreEqual
  | member
  | like
  | shiftLeft
  | shiftRight
  | add
  | sub
  | mul
  | div
  | rem
  | pow
deriving DecidableEq, Repr

inductive BinaryOperation
  | operator (op : Operator)
  | notMember
  | notLike
  | element
deriving DecidableEq, Repr

inductive UnaryOperation
  | negative
  | not
  | isNull
  | isNotNull
deriving DecidableEq, Repr

/-- What an operator makes of two values. Membership asks the right operand for the left one. -/
def Operator.apply (s : Strategy) : Operator → Value → Value → Except EvalError Value
  | or => s.or
  | xor => s.xor
  | and => s.and
  | equal => s.equal
  | notEqual => s.notEqual
  | less => s.less
  | lessEqual => s.lessEqual
  | more => s.more
  | moreEqual => s.moreEqual
  | member => fun left right => s.contains right left
  | like => s.like
  | shiftLeft => s.shiftLeft
  | shiftRight => s.shiftRight
  | add => s.add
  | sub => s.sub
  | mul => s.mul
  | div => s.div
  | rem => s.rem
  | pow => s.pow

def BinaryOperation.apply (s : Strategy) (left right : Value) :
    BinaryOperation → Except EvalError Value
  | operator op => op.apply s left right
  | notMember => (s.contains right left).map Value.opposite
  | notLike => (s.like left right).map Value.opposite
  | element => s.element left right

def UnaryOperation.apply (s : Strategy) (v : Value) : UnaryOperation → Except EvalError Value
  | negative => s.negative v
  | not => s.not v
  | isNull => .ok (.boolean v.isNull)
  | isNotNull => .ok (.boolean !v.isNull)

inductive Expr
  | constant (value : Value) (position : Position)
  | reference (name : String) (position : Position)
  | call (name : String) (args : List Expr) (position : Position)
  | unary (op : UnaryOperation) (operand : Expr) (position : Position)
  | binary (op : BinaryOperation) (left right : Expr) (position : Position)

end Formulary
