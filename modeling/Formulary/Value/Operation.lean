/-!
# Operations on values

The operations that a strategy can be asked to bring operands together for, with the signs that
messages show for them.
-/

namespace Formulary

inductive Operation
  | add
  | sub
  | mul
  | div
  | mod
  | pow
  | shiftLeft
  | shiftRight
  | and
  | or
  | xor
  | not
  | negate
  | equal
  | notEqual
  | less
  | lessEqual
  | more
  | moreEqual
  | member
  | like
  | element
deriving DecidableEq, Repr, Inhabited

namespace Operation

def symbol : Operation → String
  | add => "+"
  | sub => "-"
  | mul => "*"
  | div => "/"
  | mod => "%"
  | pow => "^"
  | shiftLeft => "<<"
  | shiftRight => ">>"
  | and => "AND"
  | or => "OR"
  | xor => "XOR"
  | not => "NOT"
  | negate => "unary -"
  | equal => "="
  | notEqual => "<>"
  | less => "<"
  | lessEqual => "<="
  | more => ">"
  | moreEqual => ">="
  | member => "IN"
  | like => "LIKE"
  | element => "[]"

/-- Whether the operation compares its operands and does not compute with them. -/
def isComparison : Operation → Bool
  | equal | notEqual | less | lessEqual | more | moreEqual | member => true
  | _ => false

def isLogical : Operation → Bool
  | and | or | xor | not => true
  | _ => false

end Operation

end Formulary
