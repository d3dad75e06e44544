import Formulary.Lex.Preset

/-!
# The lexicon of expressions

Expressions are made of words, numbers without a sign, quoted strings, comments in both styles,
and operators of one or two characters. Ten words are reserved, in whatever case they are written.
-/

namespace Formulary.Expr

def keywords : List String :=
  ["AND", "OR", "XOR", "NOT", "IS", "IN", "LIKE", "NULL", "TRUE", "FALSE"]

def isKeyword (word : String) : Bool := Text.isOneOf keywords word.toList

def operators : List String := ["<=", ">=", "<>", "!=", "<<", ">>"]

/-- The characters of names: letters, digits and underscore. -/
def nameChars : CharMap Bool := CharMap.wordChars.insert '-' false

/-- The rules of the language, with whitespace, comments and the end dropped and strings decoded. -/
def lexicon : Rules :=
  let symbol := State.symbol (SymbolTree.ofList operators)
  let number := State.number ⟨false, true⟩
  let whitespace := State.whitespace .controlsAndSpace
  let word := State.word ⟨nameChars, keywords⟩
  let comment := State.comment .lineAndBlock
  { Rules.empty with flags := .ofList [.skipWhitespaces, .skipComments, .skipEof, .decodeStrings] }
    |>.routeAll [
      (Char.ofNat 0, CharMap.lastChar, symbol),
      (Char.ofNat 0, ' ', whitespace),
      ('a', 'z', word),
      ('A', 'Z', word),
      ('_', '_', word),
      (firstWideLetter, CharMap.lastChar, word),
      ('0', '9', number),
      ('.', '.', number),
      ('\x22', '\x22', .quote),
      ('\x27', '\x27', .quote),
      ('/', '/', comment)]
    |>.fillAll [symbol, number, .quote, whitespace, word, comment]

def tokenizer : Tokenizer := .ofRules lexicon

end Formulary.Expr
