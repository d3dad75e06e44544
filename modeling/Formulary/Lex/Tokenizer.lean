import Formulary.Lex.Rules
import Formulary.Lex.Source

/-!
# Tokenizers

A tokenizer reads tokens from a text by its rules. It can look one token ahead and start over. The
end of the text is a token of its own, handed out once, unless the flags drop it.
-/

namespace Formulary

/-- Rules at work on a text: the cursor, a token that was read ahead, and the kind of the last token
that was read. -/
structure Tokenizer where
  rules : Rules
  cursor : Option Cursor
  lookahead : Option Token
  lastKind : Option TokenKind

namespace Tokenizer

def ofRules (rules : Rules) : Tokenizer := ⟨rules, none, none, none⟩

def start (t : Tokenizer) (cursor : Cursor) : Tokenizer :=
  { t with cursor := some cursor, lookahead := none, lastKind := none }

def reset (t : Tokenizer) : Tokenizer :=
  { t with cursor := t.cursor.map Cursor.reset, lookahead := none, lastKind := none }

/-- Reads a token from the text, whether or not one was read ahead. -/
def read (t : Tokenizer) : Except LexError (Option Token) × Tokenizer :=
  match t.cursor with
  | none => (.ok none, t)
  | some cursor =>
    match t.rules.next cursor with
    | (.error e, after) => (.error e, { t with cursor := some after })
    | (.ok (some token), after) =>
      (.ok (some token), { t with cursor := some after, lastKind := some token.kind })
    | (.ok none, after) =>
      if t.rules.flags.holds .skipEof ∨ t.lastKind = some .eof then
        (.ok none, { t with cursor := some after })
      else
        (.ok (some ⟨.eof, "", after.nextPlace⟩),
          { t with cursor := some after, lastKind := some .eof })

/-- The next token: the one that was read ahead, or else one from the text. -/
def next (t : Tokenizer) : Except LexError (Option Token) × Tokenizer :=
  match t.lookahead with
  | some token => (.ok (some token), { t with lookahead := none })
  | none => t.read

/-- Whether there is a next token, which is read ahead to find out. -/
def hasNext (t : Tokenizer) : Except LexError Bool × Tokenizer :=
  match t.lookahead with
  | some _ => (.ok true, t)
  | none =>
    match t.read with
    | (.ok token, t') => (.ok token.isSome, { t' with lookahead := token })
    | (.error e, t') => (.error e, t')

/-- How much a tokenizer can still hand out: two for each character, one for the token that was read
ahead and one for the end of the text. -/
def left (t : Tokenizer) : Nat :=
  (match t.cursor with
    | some cursor => 2 * cursor.ahead.length
    | none => 0)
  + (if t.lookahead.isSome then 1 else 0) + (if t.lastKind = some .eof then 0 else 1)

/-- A token from the text leaves less to hand out. -/
theorem left_read_lt {t t' : Tokenizer} {token : Token}
    (h : t.read = (.ok (some token), t')) : t'.left < t.left := by
  unfold read at h
  split at h
  · cases h
  · rename_i cursor hcursor
    split at h
    · cases h
    · rename_i token' after hnext
      have hlt := Rules.ahead_length_next_lt hnext
      cases h
      simp only [left, hcursor]
      split <;> split <;> omega
    · rename_i after hnext
      split at h
      · cases h
      · rename_i hflags
        cases h
        simp only [left, hcursor, Rules.ahead_next_none hnext,
          if_neg (fun hk => hflags (Or.inr hk))]
        split <;> simp

theorem left_next_lt {t t' : Tokenizer} {token : Token}
    (h : t.next = (.ok (some token), t')) : t'.left < t.left := by
  unfold next at h
  split at h
  · rename_i token' hlook
    cases h
    simp [left, hlook]
  · exact left_read_lt h

instance : Source Tokenizer := ⟨next, left, left_next_lt⟩

/-- All tokens of a text, or the first error. -/
def tokenize (t : Tokenizer) (text : String) : Source.Drained Tokenizer :=
  Source.drain (t.start (Cursor.ofText text))

end Tokenizer

end Formulary
