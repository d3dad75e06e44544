import Formulary.Expr.Basic

/-!
# Binding powers

Between two operators, an operand belongs to the one that holds it tighter. `OR` and `XOR` bind
loosest, then `AND`, `NOT`, comparisons, shifts, sums, products, signs in front, powers and indices.
-/

namespace Formulary

/-- How tight an operator holds the operand on its left. -/
def Operator.leftPower : Operator → Nat
  | or | xor => 1
  | and => 3
  | equal | notEqual | less | lessEqual | more | moreEqual | member | like => 7
  | shiftLeft | shiftRight => 9
  | add | sub => 11
  | mul | div | rem => 13
  | pow => 18

/-- How tight an operator holds the operand on its right: tighter than on its left, so that equals
are grouped from the left. The power alone is grouped from the right. -/
def Operator.rightPower : Operator → Nat
  | pow => 17
  | op => op.leftPower + 1

def BinaryOperation.leftPower : BinaryOperation → Nat
  | operator op => op.leftPower
  | notMember => Operator.leftPower .member
  | notLike => Operator.leftPower .like
  | element => 19

/-- How tight an operation holds the operand on its right. An index stands in brackets and can be
anything. -/
def BinaryOperation.rightPower : BinaryOperation → Nat
  | operator op => op.rightPower
  | notMember => Operator.rightPower .member
  | notLike => Operator.rightPower .like
  | element => 0

def testPower : Nat := 7

def notPower : Nat := 5

def unaryPower : Nat := 15

end Formulary
