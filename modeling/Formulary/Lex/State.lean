import Formulary.Error.Lexical
import Formulary.Lex.CharMap
import Formulary.Lex.Comment
import Formulary.Lex.Number
import Formulary.Lex.Quoted
import Formulary.Lex.SymbolTree
import Formulary.Text.Casing

/-!
# Lexical states

A state reads the tokens of one sort from a cursor. `State.read` answers with the sort and the
characters of the token and leaves the cursor behind them; `State.scan` says what the token is as a
function of the text in front of the cursor. A number state that finds no number and a comment state
that finds no comment leave the text to the symbols of the tokenizer.
-/

namespace Formulary

/-- The characters of words and the words that are reserved, whatever their case. -/
structure WordRule where
  chars : CharMap Bool
  reserved : List String

/-- How the tokens of one sort are read. -/
inductive State
  | symbol (symbols : SymbolTree)
  | number (rule : NumberRule)
  | quote
  | whitespace (chars : CharMap Bool)
  | word (rule : WordRule)
  | comment (style : CommentStyle)

/-- Why a state has no token. -/
inductive LexFault
  | unterminatedQuote
  | unterminatedComment
  | missingSymbols
deriving DecidableEq, Repr

def LexFault.at (fault : LexFault) (p : Position) : LexError :=
  match fault with
  | unterminatedQuote => .unterminatedQuote p
  | unterminatedComment => .unterminatedComment p
  | missingSymbols => .missingSymbolState p

structure Lexeme where
  kind : TokenKind
  chars : List Char
deriving DecidableEq, Repr

namespace State

def scanSymbol (symbols : SymbolTree) (cs : List Char) : Lexeme :=
  match symbols.next? cs with
  | some (kind, chars) => ⟨kind, chars⟩
  | none => ⟨.symbol, []⟩

/-- The symbol in front of a text, if there are symbols at all. -/
def scanAnySymbol (symbols : Option SymbolTree) (cs : List Char) : Except LexFault Lexeme :=
  match symbols with
  | some tree => .ok (scanSymbol tree cs)
  | none => .error .missingSymbols

/-- The word in front of a text. Its first character is taken as it is. -/
def scanWord (rule : WordRule) (cs : List Char) : Lexeme :=
  let chars := match cs with
    | c :: rest => c :: rest.takeWhile rule.chars.holds
    | [] => []
  ⟨if Text.isOneOf rule.reserved chars then .keyword else .word, chars⟩

/-- The token in front of a text. `symbols` are what a state that finds nothing of its own falls
back to. -/
def scan (symbols : Option SymbolTree) (state : State) (cs : List Char) :
    Except LexFault Lexeme :=
  match state with
  | symbol tree => .ok (scanSymbol tree cs)
  | number rule =>
    match rule.scan cs with
    | some (kind, chars) => .ok ⟨kind, chars⟩
    | none => scanAnySymbol symbols cs
  | quote =>
    match Quoted.scan? cs with
    | some chars => .ok ⟨.quoted, chars⟩
    | none => .error .unterminatedQuote
  | whitespace chars => .ok ⟨.whitespace, cs.takeWhile chars.holds⟩
  | word rule => .ok (scanWord rule cs)
  | comment style =>
    match Comment.scan style cs with
    | .comment chars => .ok ⟨.comment, chars⟩
    | .unterminated => .error .unterminatedComment
    | .none => scanAnySymbol symbols cs

/-! Reading from a cursor -/

def readSymbol (symbols : SymbolTree) (cursor : Cursor) : Lexeme × Cursor :=
  match symbols.read cursor with
  | (some (kind, chars), after) => (⟨kind, chars⟩, after)
  | (none, after) => (⟨.symbol, []⟩, after)

def readAnySymbol (symbols : Option SymbolTree) (cursor : Cursor) :
    Except LexFault Lexeme × Cursor :=
  match symbols with
  | some tree =>
    let (lexeme, after) := readSymbol tree cursor
    (.ok lexeme, after)
  | none => (.error .missingSymbols, cursor)

/-- Reads a token. `symbols` are what a state that finds nothing of its own falls back to. A token
without an end is read to the end of the text. -/
def read (symbols : Option SymbolTree) (state : State) (cursor : Cursor) :
    Except LexFault Lexeme × Cursor :=
  match state with
  | symbol tree => readAnySymbol (some tree) cursor
  | number rule =>
    match rule.read cursor with
    | (some (kind, chars), after) => (.ok ⟨kind, chars⟩, after)
    | (none, after) => readAnySymbol symbols after
  | quote =>
    match Quoted.scan? cursor.ahead with
    | some chars => (.ok ⟨.quoted, chars⟩, cursor.skip chars.length)
    | none => (.error .unterminatedQuote, cursor.skip cursor.ahead.length)
  | whitespace chars => (.ok ⟨.whitespace, cursor.run chars.holds⟩, cursor.skipWhile chars.holds)
  | word rule =>
    (.ok (scanWord rule cursor.ahead), cursor.skip (scanWord rule cursor.ahead).chars.length)
  | comment style =>
    match Comment.scan style cursor.ahead with
    | .comment chars => (.ok ⟨.comment, chars⟩, cursor.skip chars.length)
    | .unterminated => (.error .unterminatedComment, cursor.skip cursor.ahead.length)
    | .none => readAnySymbol symbols cursor

/-- The cursor behind what was read: a token, or the rest of the text if it has no end. Without
symbols to fall back to nothing is read. -/
def behind (cursor : Cursor) : Except LexFault Lexeme → Cursor
  | .ok lexeme => cursor.skip lexeme.chars.length
  | .error .unterminatedQuote | .error .unterminatedComment => cursor.skip cursor.ahead.length
  | .error .missingSymbols => cursor

theorem readSymbol_eq (symbols : SymbolTree) (cursor : Cursor) : readSymbol symbols cursor =
    (scanSymbol symbols cursor.ahead,
      cursor.skip (scanSymbol symbols cursor.ahead).chars.length) := by
  rw [readSymbol, SymbolTree.read_eq, scanSymbol]
  cases symbols.next? cursor.ahead <;> rfl

theorem readAnySymbol_eq (symbols : Option SymbolTree) (cursor : Cursor) :
    readAnySymbol symbols cursor =
      (scanAnySymbol symbols cursor.ahead, behind cursor (scanAnySymbol symbols cursor.ahead)) := by
  cases symbols with
  | none => rfl
  | some tree =>
    rw [readAnySymbol, readSymbol_eq]
    rfl

/-- A token is read from a cursor as it stands in the text in front, and the cursor is behind it. -/
theorem read_eq (symbols : Option SymbolTree) (state : State) (cursor : Cursor) :
    state.read symbols cursor =
      (state.scan symbols cursor.ahead, behind cursor (state.scan symbols cursor.ahead)) := by
  cases state with
  | symbol tree => exact readAnySymbol_eq (some tree) cursor
  | number rule =>
    rw [read, scan, NumberRule.read_eq]
    cases rule.scan cursor.ahead with
    | none => exact readAnySymbol_eq symbols cursor
    | some found => rfl
  | quote =>
    rw [read, scan]
    cases Quoted.scan? cursor.ahead <;> rfl
  | whitespace chars => rfl
  | word rule => rfl
  | comment style =>
    rw [read, scan]
    cases Comment.scan style cursor.ahead with
    | none => exact readAnySymbol_eq symbols cursor
    | _ => rfl

end State

end Formulary
