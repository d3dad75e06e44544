import Formulary.Lex.Preset

/-!
# The tokenizer of templates

Text outside tags is taken as it stands up to the next `{{`. Inside a tag the rules of
`Template.lexicon` divide the text, except that an exclamation mark right behind the opening
brackets makes the rest of the tag a comment.
-/

namespace Formulary.Template

def openBrackets : String := "\x7b\x7b"

def closeBrackets : String := "\x7d\x7d"

def openRawBrackets : String := "\x7b\x7b\x7b"

def closeRawBrackets : String := "\x7d\x7d\x7d"

/-- The rules inside tags, with whitespace, comments and the end dropped. -/
def lexicon : Rules :=
  let symbol := State.symbol
    (SymbolTree.ofList [openBrackets, closeBrackets, openRawBrackets, closeRawBrackets])
  let whitespace := State.whitespace .controlsAndSpace
  let word := State.word ⟨CharMap.wordChars.insert '.' true, []⟩
  { Rules.empty with flags := .ofList [.skipWhitespaces, .skipComments, .skipEof] }
    |>.routeAll [
      (Char.ofNat 0, CharMap.lastChar, symbol),
      (Char.ofNat 0, ' ', whitespace),
      ('a', 'z', word),
      ('A', 'Z', word),
      ('0', '9', word),
      ('_', '_', word),
      ('.', '.', word),
      (firstWideLetter, CharMap.lastChar, word),
      ('\x22', '\x22', .quote),
      ('\x27', '\x27', .quote)]
    |>.fillAll [symbol, .quote, whitespace, word]

/-- The characters before the first pair of a character. -/
def beforePair (c : Char) : List Char → List Char
  | [] => []
  | [d] => [d]
  | d :: e :: rest => if d = c ∧ e = c then [] else d :: beforePair c (e :: rest)

/-- The text before the next tag. -/
def literal (cs : List Char) : List Char := beforePair '\x7b' cs

/-- The comment before the end of its tag. -/
def remark (cs : List Char) : List Char := beforePair '\x7d' cs

/-- A tokenizer of templates: the tokenizer inside tags, whether literal text comes next, whether a
tag was just opened, and a token that was read ahead. -/
structure Lexer where
  tags : Tokenizer
  inText : Bool
  opened : Bool
  lookahead : Option Token

namespace Lexer

def ofRules (rules : Rules) : Lexer := ⟨.ofRules rules, true, false, none⟩

def start (s : Lexer) (cursor : Cursor) : Lexer := ⟨s.tags.start cursor, true, false, none⟩

def reset (s : Lexer) : Lexer := ⟨s.tags.reset, true, false, none⟩

/-- Characters taken from the cursor as one token. -/
def take (s : Lexer) (cursor : Cursor) (kind : TokenKind) (chars : List Char) :
    Except LexError (Option Token) × Lexer :=
  (.ok (some ⟨kind, String.ofList chars, cursor.nextPlace⟩),
    { s with tags := { s.tags with cursor := some (cursor.skip chars.length) }, opened := false })

/-- Reads a token inside a tag. Closing brackets lead back to literal text. -/
def readTag (s : Lexer) : Except LexError (Option Token) × Lexer :=
  match s.tags.read with
  | (.ok (some token), tags) =>
    (.ok (some token),
      { s with
        tags := tags
        inText := token.text == closeBrackets || token.text == closeRawBrackets
        opened := token.text == openBrackets || token.text == openRawBrackets })
  | (answer, tags) => (answer, { s with tags := tags, inText := false, opened := false })

/-- Reads a token from the text, whether or not one was read ahead. -/
def read (s : Lexer) : Except LexError (Option Token) × Lexer :=
  match s.tags.cursor with
  | none => (.ok none, { s with opened := false })
  | some cursor =>
    if s.inText then
      if (literal cursor.ahead).isEmpty then s.readTag
      else s.take cursor .special (literal cursor.ahead)
    else if s.opened && cursor.peek? == some '!' then
      s.take cursor .comment (remark cursor.ahead)
    else s.readTag

def next (s : Lexer) : Except LexError (Option Token) × Lexer :=
  match s.lookahead with
  | some token => (.ok (some token), { s with lookahead := none })
  | none => s.read

def hasNext (s : Lexer) : Except LexError Bool × Lexer :=
  match s.lookahead with
  | some _ => (.ok true, s)
  | none =>
    match s.read with
    | (.ok token, s') => (.ok token.isSome, { s' with lookahead := token })
    | (.error e, s') => (.error e, s')

def left (s : Lexer) : Nat := s.tags.left + (if s.lookahead.isSome then 1 else 0)

theorem left_take_lt {s s' : Lexer} {cursor : Cursor} {kind : TokenKind} {chars : List Char}
    {token : Token} (hcursor : s.tags.cursor = some cursor) (hahead : cursor.ahead ≠ [])
    (hchars : chars ≠ []) (h : s.take cursor kind chars = (.ok (some token), s')) :
    s'.left < s.left := by
  cases h
  have h1 := List.length_pos_iff.mpr hahead
  have h2 := List.length_pos_iff.mpr hchars
  simp only [left, Tokenizer.left, hcursor, Cursor.ahead_skip, List.length_drop]
  omega

theorem left_readTag_lt {s s' : Lexer} {token : Token}
    (h : s.readTag = (.ok (some token), s')) : s'.left < s.left := by
  unfold readTag at h
  split at h
  · rename_i token' tags hread
    have := Tokenizer.left_read_lt hread
    cases h
    simp only [left]
    omega
  · cases h
    rename_i hne _
    exact (hne _ rfl).elim

theorem beforePair_of_nil {c : Char} {cs : List Char} (h : beforePair c cs ≠ []) : cs ≠ [] := by
  intro hcs
  subst hcs
  exact h rfl

theorem remark_ne_nil {cs : List Char} (h : cs.head? = some '!') : remark cs ≠ [] := by
  match cs with
  | [] => cases h
  | [d] => simp [remark, beforePair]
  | d :: e :: rest =>
    simp only [List.head?_cons, Option.some.injEq] at h
    subst h
    simp [remark, beforePair]

/-- A token from the text leaves less to hand out. -/
theorem left_read_lt {s s' : Lexer} {token : Token}
    (h : s.read = (.ok (some token), s')) : s'.left < s.left := by
  unfold read at h
  split at h
  · cases h
  · rename_i cursor hcursor
    split at h
    · split at h
      · exact left_readTag_lt h
      · rename_i hchars
        have hne : literal cursor.ahead ≠ [] := by simpa using hchars
        exact left_take_lt hcursor (beforePair_of_nil hne) hne h
    · split at h
      · rename_i hpeek
        have hhead : cursor.ahead.head? = some '!' := by
          simp only [Bool.and_eq_true, beq_iff_eq] at hpeek
          exact hpeek.2
        have hne := remark_ne_nil hhead
        exact left_take_lt hcursor (beforePair_of_nil hne) hne h
      · exact left_readTag_lt h

theorem left_next_lt {s s' : Lexer} {token : Token}
    (h : s.next = (.ok (some token), s')) : s'.left < s.left := by
  unfold next at h
  split at h
  · rename_i token' hlook
    cases h
    simp [left, hlook]
  · exact left_read_lt h

instance : Source Lexer := ⟨next, left, left_next_lt⟩

/-- All tokens of a text, or the first error. -/
def tokenize (s : Lexer) (text : String) : Source.Drained Lexer :=
  Source.drain (s.start (Cursor.ofText text))

end Lexer

def lexer : Lexer := .ofRules lexicon

end Formulary.Template
