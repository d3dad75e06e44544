import Formulary.Text.Position

/-!
# What can go wrong while reading characters

A text that cannot be divided into tokens is reported with the place of the token that failed.
-/

namespace Formulary

/-- Why a text has no next token. -/
inductive LexError
  | unterminatedQuote (position : Position)
  | unterminatedComment (position : Position)
  | invalidNumber (text : String) (position : Position)
  | missingSymbolState (position : Position)
deriving DecidableEq, Repr

namespace LexError

/-- The place of the token that failed. -/
def position : LexError → Position
  | unterminatedQuote p | unterminatedComment p | invalidNumber _ p | missingSymbolState p => p

def message : LexError → String
  | unterminatedQuote p => "unterminated quote at " ++ p.text
  | unterminatedComment p => "unterminated comment at " ++ p.text
  | invalidNumber text p => "invalid number '" ++ text ++ "' at " ++ p.text
  | missingSymbolState p => "tokenizer has no symbol state to fall back to at " ++ p.text

end LexError

end Formulary
