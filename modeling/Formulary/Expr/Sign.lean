import Formulary.Error
import Formulary.Expr.Basic
import Formulary.Expr.Lexicon

/-!
# Signs

A sign is what a token means in an expression: a bracket, a comma, an operator, a literal or a
name. A whole number is of the narrower kind that holds it, and a decimal has to be finite. The word
`NULL` names a function in front of a parenthesis and is a literal elsewhere.
-/

namespace Formulary

/-- What a token means in an expression. -/
inductive Sign
  | openParenthesis
  | closeParenthesis
  | openBracket
  | closeBracket
  | comma
  | operator (op : Operator)
  | not
  | is
  | constant (value : Value)
  | name (text : String)

def Operator.title : Operator → String
  | or => "Or"
  | xor => "Xor"
  | and => "And"
  | equal => "Equal"
  | notEqual => "NotEqual"
  | less => "Less"
  | lessEqual => "EqualLess"
  | more => "More"
  | moreEqual => "EqualMore"
  | member => "In"
  | like => "Like"
  | shiftLeft => "ShiftLeft"
  | shiftRight => "ShiftRight"
  | add => "Plus"
  | sub => "Minus"
  | mul => "Star"
  | div => "Slash"
  | rem => "Procent"
  | pow => "Power"

namespace Sign

def title : Sign → String
  | openParenthesis => "LeftBrace"
  | closeParenthesis => "RightBrace"
  | openBracket => "LeftSquareBrace"
  | closeBracket => "RightSquareBrace"
  | comma => "Comma"
  | operator op => op.title
  | not => "Not"
  | is => "Is"
  | constant _ => "Constant"
  | name _ => "Variable"

def ofKeyword : List (String × Sign) := [
  ("AND", operator .and), ("OR", operator .or), ("XOR", operator .xor), ("NOT", not), ("IS", is),
  ("IN", operator .member), ("LIKE", operator .like), ("NULL", constant .null),
  ("TRUE", constant (.boolean true)), ("FALSE", constant (.boolean false))]

def ofSymbol : List (String × Sign) := [
  ("(", openParenthesis), (")", closeParenthesis), ("[", openBracket), ("]", closeBracket),
  (",", comma), ("+", operator .add), ("-", operator .sub), ("*", operator .mul),
  ("/", operator .div), ("%", operator .rem), ("^", operator .pow), ("=", operator .equal),
  ("<>", operator .notEqual), ("!=", operator .notEqual), (">", operator .more),
  ("<", operator .less), (">=", operator .moreEqual), ("<=", operator .lessEqual),
  ("<<", operator .shiftLeft), (">>", operator .shiftRight)]

def unknown (token : Token) : Except Error Sign :=
  .error (.parse ⟨.unknownSymbol token.text, token.position⟩)

def orUnknown (token : Token) (meaning : Option (String × Sign)) : Except Error Sign :=
  match meaning with
  | some (_, sign) => .ok sign
  | none => unknown token

/-- The literal that a number stands for. -/
def ofNumber (token : Token) (value : Option Value) : Except Error Sign :=
  match value with
  | some v => .ok (constant v)
  | none => .error (.lex (.invalidNumber token.text token.position))

/-- The value of a whole number, of the narrower kind that holds it. -/
def wholeNumber (cs : List Char) : Option Value :=
  ((readInt32? cs).map Value.integer).or ((readInt64? cs).map Value.long)

/-- The value of a decimal, which has to be finite. -/
def decimal (cs : List Char) : Option Value :=
  ((readDouble? cs).filter fun x => (Binary.ofDouble x).isFinite).map Value.double

def ofToken (token : Token) : Except Error Sign :=
  match token.kind with
  | .integer => ofNumber token (wholeNumber token.text.toList)
  | .float => ofNumber token (decimal token.text.toList)
  | .quoted => .ok (constant (.string token.text))
  | .word => .ok (name token.text)
  | .keyword =>
    orUnknown token (ofKeyword.find? fun word =>
      Text.equalIgnoringCase word.1.toList token.text.toList)
  | .symbol => orUnknown token (ofSymbol.find? (·.1 == token.text))
  | _ => unknown token

def isNullWord (token : Token) : Bool :=
  token.kind == .keyword && Text.equalIgnoringCase "NULL".toList token.text.toList

/-- What a token means in front of others. -/
def ofTokenBefore (token : Token) (rest : List Token) : Except Error Sign :=
  let called := rest.head?.any (·.is .symbol "(")
  if called && isNullWord token then .ok (name token.text) else ofToken token

def ofTokens : List Token → Except Error (List (Placed Sign))
  | [] => .ok []
  | token :: rest => do
    let sign ← ofTokenBefore token rest
    let signs ← ofTokens rest
    return ⟨sign, token.position⟩ :: signs

end Sign

end Formulary
