import Formulary.Lex.Tokenizer

/-!
# Ready-made rules

The usual sets of characters, and the rules for free text: words, signed numbers, quoted strings,
comments from `#` to the end of the line, and the comparison signs of two characters.
-/

namespace Formulary

def CharMap.controlsAndSpace : CharMap Bool := CharMap.empty.insertRange (Char.ofNat 0) ' ' true

/-- The first of the letters beyond ASCII. -/
def firstWideLetter : Char := Char.ofNat 0xC0

/-- Letters, digits, hyphen, underscore and everything from the first wide letter on. -/
def CharMap.wordChars : CharMap Bool :=
  CharMap.empty
    |>.insertRange 'a' 'z' true
    |>.insertRange 'A' 'Z' true
    |>.insertRange '0' '9' true
    |>.insert '-' true
    |>.insert '_' true
    |>.insertRange firstWideLetter CharMap.lastChar true

def SymbolTree.ofList (symbols : List String) : SymbolTree :=
  symbols.foldl (fun tree symbol => tree.insert symbol .symbol) SymbolTree.empty

namespace Rules

def routeAll (rules : Rules) (routes : List (Char × Char × State)) : Rules :=
  routes.foldl (fun rules route => rules.route route.1 route.2.1 route.2.2) rules

def fillAll (rules : Rules) (states : List State) : Rules := states.foldl fill rules

/-- Rules for free text. No flag is set. -/
def general : Rules :=
  let symbol := State.symbol (SymbolTree.ofList ["<>", "<=", ">="])
  let number := State.number ⟨true, false⟩
  let whitespace := State.whitespace .controlsAndSpace
  let word := State.word ⟨.wordChars, []⟩
  let comment := State.comment .line
  Rules.empty
    |>.routeAll [
      (Char.ofNat 0, Char.ofNat 0xFF, symbol),
      (Char.ofNat 0, ' ', whitespace),
      ('a', 'z', word),
      ('A', 'Z', word),
      (firstWideLetter, CharMap.lastChar, word),
      ('-', '-', number),
      ('0', '9', number),
      ('.', '.', number),
      ('\x22', '\x22', .quote),
      ('\x27', '\x27', .quote),
      ('#', '#', comment)]
    |>.fillAll [symbol, number, .quote, whitespace, word, comment]

end Rules

end Formulary
