import Formulary.Lex.Cursor
import Formulary.Lex.Flags
import Formulary.Lex.State

/-!
# Rules of a tokenizer

The rules say which state reads the token that begins with a character, which state stands in each
slot, and what becomes of the tokens. `Rules.next` reads one token from a cursor. A character that
no state takes is a token of its own, so that reading always moves on.
-/

namespace Formulary

/-- The states of a tokenizer by sort. Each slot may be empty. -/
structure Slots where
  symbol : Option SymbolTree
  number : Option NumberRule
  quote : Bool
  whitespace : Option (CharMap Bool)
  word : Option WordRule
  comment : Option CommentStyle

inductive Slot
  | symbol
  | number
  | quote
  | whitespace
  | word
  | comment
deriving DecidableEq, Repr

namespace Slots

def empty : Slots := ⟨none, none, false, none, none, none⟩

def get? (slots : Slots) : Slot → Option State
  | .symbol => slots.symbol.map .symbol
  | .number => slots.number.map .number
  | .quote => if slots.quote then some .quote else none
  | .whitespace => slots.whitespace.map .whitespace
  | .word => slots.word.map .word
  | .comment => slots.comment.map .comment

def fill (slots : Slots) : State → Slots
  | .symbol symbols => { slots with symbol := some symbols }
  | .number rule => { slots with number := some rule }
  | .quote => { slots with quote := true }
  | .whitespace chars => { slots with whitespace := some chars }
  | .word rule => { slots with word := some rule }
  | .comment style => { slots with comment := some style }

def clear (slots : Slots) : Slot → Slots
  | .symbol => { slots with symbol := none }
  | .number => { slots with number := none }
  | .quote => { slots with quote := false }
  | .whitespace => { slots with whitespace := none }
  | .word => { slots with word := none }
  | .comment => { slots with comment := none }

end Slots

/-- How a text is divided into tokens. -/
structure Rules where
  flags : Flags
  routes : CharMap State
  slots : Slots

namespace Rules

def empty : Rules := ⟨.none, .empty, .empty⟩

def route (rules : Rules) (first last : Char) (state : State) : Rules :=
  { rules with routes := rules.routes.insertRange first last state }

def fill (rules : Rules) (state : State) : Rules :=
  { rules with slots := rules.slots.fill state }

/-- The token in front of a text that begins with `c`. -/
def scan (rules : Rules) (c : Char) (rest : List Char) : Except LexFault Lexeme :=
  match rules.routes.get? c with
  | none => .ok ⟨.unknown, [c]⟩
  | some state =>
    match state.scan rules.slots.symbol (c :: rest) with
    | .error fault => .error fault
    | .ok lexeme => .ok (if lexeme.chars.isEmpty then ⟨.unknown, [c]⟩ else lexeme)

/-- No token is empty. -/
theorem scan_chars_ne_nil {rules : Rules} {c : Char} {rest : List Char} {lexeme : Lexeme}
    (h : rules.scan c rest = .ok lexeme) : lexeme.chars ≠ [] := by
  unfold scan at h
  split at h
  · cases h; simp
  · split at h
    · cases h
    · cases h
      split
      · simp
      · simp_all

/-- Reads the token that begins with `c` at a cursor. A character that no state takes is a token of
its own. -/
def read (rules : Rules) (c : Char) (cursor : Cursor) : Except LexFault Lexeme × Cursor :=
  match rules.routes.get? c with
  | none => (.ok ⟨.unknown, [c]⟩, cursor.advance)
  | some state =>
    match state.read rules.slots.symbol cursor with
    | (.error fault, after) => (.error fault, after)
    | (.ok lexeme, after) =>
      if lexeme.chars.isEmpty then (.ok ⟨.unknown, [c]⟩, after.advance) else (.ok lexeme, after)

variable {rules : Rules} {cursor after : Cursor} {c : Char} {rest : List Char}

/-- A token is read from a cursor as it stands in the text in front, and the cursor is behind it. -/
theorem read_eq (rules : Rules) (hahead : cursor.ahead = c :: rest) :
    rules.read c cursor = (rules.scan c rest, State.behind cursor (rules.scan c rest)) := by
  unfold read scan
  cases rules.routes.get? c with
  | none =>
    rw [Cursor.advance_eq_skip]
    rfl
  | some state =>
    dsimp only
    rw [State.read_eq, hahead]
    cases state.scan rules.slots.symbol (c :: rest) with
    | error fault => rfl
    | ok lexeme =>
      dsimp only [State.behind]
      split
      · next hempty =>
        rw [List.isEmpty_iff.mp hempty, Cursor.advance_eq_skip, Cursor.skip_skip]
        rfl
      · rfl

theorem ahead_length_behind_lt {lexeme : Lexeme} (hahead : cursor.ahead = c :: rest)
    (hscan : rules.scan c rest = .ok lexeme) :
    (cursor.skip lexeme.chars.length).ahead.length < cursor.ahead.length := by
  have hne := List.length_pos_iff.mpr (scan_chars_ne_nil hscan)
  simp only [Cursor.ahead_skip, hahead, List.length_drop, List.length_cons]
  omega

/-- The next token that is kept, none at the end of the text, and the cursor behind it. -/
def next (rules : Rules) (cursor : Cursor) : Except LexError (Option Token) × Cursor :=
  match _ : cursor.ahead with
  | [] => (.ok none, cursor)
  | c :: _ =>
    match _ : rules.read c cursor with
    | (.error fault, after) => (.error (fault.at cursor.nextPlace), after)
    | (.ok lexeme, after) =>
      match rules.flags.apply ⟨lexeme.kind, String.ofList lexeme.chars, cursor.nextPlace⟩ with
      | some token => (.ok (some token), after)
      | none => rules.next after
termination_by cursor.ahead.length
decreasing_by
  have hread := ‹rules.read c cursor = (.ok lexeme, after)›
  rw [rules.read_eq ‹cursor.ahead = c :: _›] at hread
  obtain ⟨hscan, hafter⟩ := Prod.mk.inj hread
  rw [← hafter, hscan]
  exact ahead_length_behind_lt ‹_› hscan

theorem next_of_end (h : cursor.ahead = []) : rules.next cursor = (.ok none, cursor) := by
  rw [next]
  split
  · rfl
  · next hahead => cases h.symm.trans hahead

/-- A state that has no token ends reading with its fault, at the place of the next character. -/
theorem next_of_fault {fault : LexFault} (hahead : cursor.ahead = c :: rest)
    (hscan : rules.scan c rest = .error fault) : rules.next cursor =
      (.error (fault.at cursor.nextPlace), State.behind cursor (.error fault)) := by
  have hread := rules.read_eq hahead
  rw [hscan] at hread
  rw [next]
  split
  · next hend => cases hahead.symm.trans hend
  · next hahead' =>
    cases hahead.symm.trans hahead'
    split
    · next hfault =>
      cases hread.symm.trans hfault
      rfl
    · next hlexeme => cases hread.symm.trans hlexeme

/-- A token that is found is handed out or, if the flags drop it, the one behind it. -/
theorem next_of_scan {lexeme : Lexeme} (hahead : cursor.ahead = c :: rest)
    (hscan : rules.scan c rest = .ok lexeme) : rules.next cursor =
      match rules.flags.apply ⟨lexeme.kind, String.ofList lexeme.chars, cursor.nextPlace⟩ with
      | some token => (.ok (some token), cursor.skip lexeme.chars.length)
      | none => rules.next (cursor.skip lexeme.chars.length) := by
  have hread := rules.read_eq hahead
  rw [hscan] at hread
  rw [next]
  split
  · next hend => cases hahead.symm.trans hend
  · next hahead' =>
    cases hahead.symm.trans hahead'
    split
    · next hfault => cases hread.symm.trans hfault
    · next hlexeme =>
      cases hread.symm.trans hlexeme
      rfl

/-- What reading can come to: the end of the text, a fault, or a token that is kept or dropped. -/
theorem next_cases (rules : Rules) (cursor : Cursor) :
    (cursor.ahead = [] ∧ rules.next cursor = (.ok none, cursor)) ∨
    (∃ c rest fault, cursor.ahead = c :: rest ∧ rules.scan c rest = .error fault ∧
      rules.next cursor = (.error (fault.at cursor.nextPlace), State.behind cursor (.error fault))) ∨
    ∃ c rest lexeme, cursor.ahead = c :: rest ∧ rules.scan c rest = .ok lexeme ∧
      rules.next cursor =
        match rules.flags.apply ⟨lexeme.kind, String.ofList lexeme.chars, cursor.nextPlace⟩ with
        | some token => (.ok (some token), cursor.skip lexeme.chars.length)
        | none => rules.next (cursor.skip lexeme.chars.length) := by
  cases hahead : cursor.ahead with
  | nil => exact .inl ⟨rfl, next_of_end hahead⟩
  | cons c rest =>
    cases hscan : rules.scan c rest with
    | error fault => exact .inr (.inl ⟨c, rest, fault, rfl, hscan, next_of_fault hahead hscan⟩)
    | ok lexeme => exact .inr (.inr ⟨c, rest, lexeme, rfl, hscan, next_of_scan hahead hscan⟩)

/-- A token that is read has used up characters. -/
theorem ahead_length_next_lt {token : Token} (h : rules.next cursor = (.ok (some token), after)) :
    after.ahead.length < cursor.ahead.length := by
  induction hn : cursor.ahead.length using Nat.strongRecOn generalizing cursor with
  | _ n ih =>
    rcases rules.next_cases cursor with
      ⟨-, hnext⟩ | ⟨c, rest, fault, -, -, hnext⟩ | ⟨c, rest, lexeme, hahead, hscan, hnext⟩
    · cases hnext.symm.trans h
    · cases hnext.symm.trans h
    · have hskip := ahead_length_behind_lt hahead hscan
      rw [hn] at hskip
      rw [hnext] at h
      split at h
      · cases h
        exact hskip
      · exact Nat.lt_trans (ih _ hskip h rfl) hskip

/-- Without a token, nothing is left to read. -/
theorem ahead_next_none (h : rules.next cursor = (.ok none, after)) : after.ahead = [] := by
  induction hn : cursor.ahead.length using Nat.strongRecOn generalizing cursor with
  | _ n ih =>
    rcases rules.next_cases cursor with
      ⟨hahead, hnext⟩ | ⟨c, rest, fault, -, -, hnext⟩ | ⟨c, rest, lexeme, hahead, hscan, hnext⟩
    · cases hnext.symm.trans h
      exact hahead
    · cases hnext.symm.trans h
    · rw [hnext] at h
      split at h
      · cases h
      · exact ih _ (hn ▸ ahead_length_behind_lt hahead hscan) h rfl

end Rules

end Formulary
