import Formulary.Text.Position

/-!
# Tokens

A token is a stretch of a text with the sort of thing it is and the place of its first character.
-/

namespace Formulary

inductive TokenKind
  | unknown
  | eof
  | eol
  | integer
  | float
  | number
  | symbol
  | quoted
  | word
  | keyword
  | whitespace
  | comment
  | special
deriving DecidableEq, Repr, Inhabited

/-- A stretch of a text. The token for the end of the text is empty. -/
structure Token where
  kind : TokenKind
  text : String
  position : Position
deriving DecidableEq, Repr

def Token.is (token : Token) (kind : TokenKind) (text : String) : Bool :=
  token.kind == kind && token.text == text

end Formulary
