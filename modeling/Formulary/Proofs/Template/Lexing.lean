import Formulary.Proofs.Lex.Draining
import Formulary.Proofs.Template.Draft

/-!
# Dividing written tags into tokens

The tokenizer of templates goes through a text in three modes: it takes literal text, it stands
right behind opening brackets, where an exclamation mark makes a comment, or it is further inside a
tag. A text splits into the kinds and the texts of the tokens that it hands out.
-/

namespace Formulary

namespace Template

/-- Where a tokenizer of templates stands. -/
inductive Mode
  | text
  | opened
  | inside
deriving DecidableEq

def Mode.behind (text : String) : Mode :=
  if text = closeBrackets ∨ text = closeRawBrackets then .text
  else if text = openBrackets ∨ text = openRawBrackets then .opened
  else .inside

/-- The rules inside tags read a token in front of a text, and leave the rest of it. -/
def Finds (cs : List Char) (content : TokenKind × String) (rest : List Char) : Prop :=
  ∀ cursor : Cursor, cursor.ahead = cs → ∃ token after,
    lexicon.next cursor = (.ok (some token), after) ∧ token.content = content ∧ after.ahead = rest

/-- How a text splits into tokens from a mode on. -/
inductive Splits : Mode → List Char → List (TokenKind × String) → Prop
  | finish {mode} : Splits mode [] []
  | text {chars rest contents} (whole : literal (chars ++ rest) = chars) (ne : chars ≠ [])
    (others : Splits .text rest contents) :
    Splits .text (chars ++ rest) ((.special, String.ofList chars) :: contents)
  | remark {chars rest contents} (whole : remark ('!' :: chars ++ rest) = '!' :: chars)
    (others : Splits .inside rest contents) :
    Splits .opened ('!' :: chars ++ rest) ((.comment, String.ofList ('!' :: chars)) :: contents)
  | token {mode cs content rest contents} (tag : mode = .text → literal cs = [])
    (plain : mode = .opened → cs.head? ≠ some '!') (finds : Finds cs content rest)
    (others : Splits (Mode.behind content.2) rest contents) : Splits mode cs (content :: contents)

/-! The tokenizer hands out the tokens that a text splits into. -/

namespace Lexer

/-- A tokenizer of templates with nothing read ahead, in a mode and in front of a text. -/
structure Stands (s : Lexer) (mode : Mode) (cs : List Char) : Prop where
  rules : s.tags.rules = lexicon
  lookahead : s.lookahead = none
  mode : (if s.inText then Mode.text else if s.opened then .opened else .inside) = mode
  cursor : ∃ cursor, s.tags.cursor = some cursor ∧ cursor.ahead = cs

/-- The tokenizer hands out a token, and stands in a mode and in front of a text then. -/
def Yields (s : Lexer) (content : TokenKind × String) (mode : Mode) (cs : List Char) : Prop :=
  ∃ token s', Source.next s = (.ok (some token), s') ∧ token.content = content ∧ s'.Stands mode cs

variable {s : Lexer} {mode : Mode} {cs rest : List Char} {content : TokenKind × String}

/-- Where the mode asks for neither literal text nor a comment, the rules inside tags read on. -/
theorem Stands.read_eq_readTag (h : s.Stands mode cs) (htext : mode = .text → literal cs = [])
    (hplain : mode = .opened → cs.head? ≠ some '!') : s.read = s.readTag := by
  obtain ⟨cursor, hcursor, hahead⟩ := h.cursor
  have hmode := h.mode
  rw [read, hcursor]
  dsimp only
  rw [Cursor.peek?, hahead]
  split
  · next hin =>
    rw [if_pos hin] at hmode
    rw [if_pos (by rw [htext hmode.symm]; rfl)]
  · next hin =>
    rw [if_neg hin] at hmode
    rw [if_neg]
    intro hboth
    rw [Bool.and_eq_true, beq_iff_eq] at hboth
    rw [if_pos hboth.1] at hmode
    exact hplain hmode.symm hboth.2

/-- What the rules inside tags find is handed out. -/
theorem Stands.yields_of_finds (h : s.Stands mode cs) (htext : mode = .text → literal cs = [])
    (hplain : mode = .opened → cs.head? ≠ some '!') (hfinds : Finds cs content rest) :
    s.Yields content (Mode.behind content.2) rest := by
  obtain ⟨cursor, hcursor, hahead⟩ := h.cursor
  obtain ⟨token, after, hnext, hcontent, hafter⟩ := hfinds cursor hahead
  have hread : s.tags.read =
      (.ok (some token), { s.tags with cursor := some after, lastKind := some token.kind }) := by
    rw [Tokenizer.read, hcursor]
    dsimp only
    rw [h.rules, hnext]
  rw [Yields, next_eq_read h.lookahead, h.read_eq_readTag htext hplain, readTag, hread]
  refine ⟨token, _, rfl, hcontent, h.rules, h.lookahead, ?_, after, rfl, hafter⟩
  rw [← hcontent]
  simp only [Bool.or_eq_true, beq_iff_eq]
  rfl

/-- Literal text is handed out as a whole. -/
theorem Stands.yields_literal {chars : List Char} (h : s.Stands .text (chars ++ rest))
    (hwhole : literal (chars ++ rest) = chars) (hne : chars ≠ []) :
    s.Yields (.special, String.ofList chars) .text rest := by
  obtain ⟨cursor, hcursor, hahead⟩ := h.cursor
  have hin : s.inText = true := by
    have hmode := h.mode
    split at hmode
    · assumption
    · split at hmode <;> cases hmode
  have hread : s.read = s.take cursor .special chars := by
    rw [read, hcursor]
    dsimp only
    rw [hahead, hwhole, if_pos hin, if_neg (by simpa using hne)]
  rw [Yields, next_eq_read h.lookahead, hread]
  refine ⟨_, _, rfl, rfl, h.rules, h.lookahead, if_pos hin, _, rfl, ?_⟩
  rw [Cursor.ahead_skip, hahead, List.drop_left]

/-- A comment is handed out as a whole. -/
theorem Stands.yields_remark {chars : List Char} (h : s.Stands .opened ('!' :: chars ++ rest))
    (hwhole : remark ('!' :: chars ++ rest) = '!' :: chars) :
    s.Yields (.comment, String.ofList ('!' :: chars)) .inside rest := by
  obtain ⟨cursor, hcursor, hahead⟩ := h.cursor
  have hmode : ¬ s.inText = true ∧ s.opened = true := by
    have hmode := h.mode
    split at hmode
    · cases hmode
    · split at hmode
      · exact ⟨‹_›, ‹_›⟩
      · cases hmode
  have hread : s.read = s.take cursor .comment ('!' :: chars) := by
    rw [read, hcursor]
    dsimp only
    rw [if_neg hmode.1, Cursor.peek?, hahead, hwhole, hmode.2]
    rfl
  rw [Yields, next_eq_read h.lookahead, hread]
  refine ⟨_, _, rfl, rfl, h.rules, h.lookahead, if_neg hmode.1, _, rfl, ?_⟩
  rw [Cursor.ahead_skip, hahead, List.drop_left]

theorem Stands.next_at_end (h : s.Stands mode []) : ∃ s', Source.next s = (.ok none, s') := by
  obtain ⟨cursor, hcursor, hahead⟩ := h.cursor
  have hread : s.tags.read = (.ok none, { s.tags with cursor := some cursor }) := by
    rw [Tokenizer.read, hcursor]
    dsimp only
    rw [h.rules, Rules.next_of_end hahead]
    exact if_pos (.inl rfl)
  have hplain : mode = .opened → ([] : List Char).head? ≠ some '!' :=
    fun _ => (Option.some_ne_none '!').symm
  rw [next_eq_read h.lookahead, h.read_eq_readTag (fun _ => rfl) hplain, readTag, hread]
  exact ⟨_, rfl⟩

/-- What is handed out first stands in front of what is handed out then. -/
theorem Yields.tokens {contents : List (TokenKind × String)} (h : s.Yields content mode rest)
    (others : ∀ s' : Lexer, s'.Stands mode rest →
      ∃ tokens, (Source.drain s').result = .ok tokens ∧ tokens.map Token.content = contents) :
    ∃ tokens, (Source.drain s).result = .ok tokens ∧
      tokens.map Token.content = content :: contents := by
  obtain ⟨token, s', hnext, hcontent, hs'⟩ := h
  obtain ⟨tokens, hresult, hcontents⟩ := others s' hs'
  refine ⟨token :: tokens, ?_, ?_⟩
  · rw [Source.result_of_token hnext, hresult]
    rfl
  · rw [List.map_cons, hcontent, hcontents]

end Lexer

/-- The tokens of a text are those that it splits into. -/
theorem Splits.tokens {mode : Mode} {cs : List Char} {contents : List (TokenKind × String)}
    (h : Splits mode cs contents) {s : Lexer} (hs : s.Stands mode cs) :
    ∃ tokens, (Source.drain s).result = .ok tokens ∧ tokens.map Token.content = contents := by
  -- Every step leaves the tokenizer in the mode in which the others split.
  induction h generalizing s with
  | finish =>
    obtain ⟨s', hnext⟩ := hs.next_at_end
    exact ⟨[], Source.result_of_none hnext, rfl⟩
  | text whole ne _ ih => exact (hs.yields_literal whole ne).tokens fun s' hs' => ih hs'
  | remark whole _ ih => exact (hs.yields_remark whole).tokens fun s' hs' => ih hs'
  | token tag plain finds _ ih =>
    exact (hs.yields_of_finds tag plain finds).tokens fun s' hs' => ih hs'

/-! What the rules inside tags find -/

/-- Words and symbols are handed out as they are. -/
theorem finds_of_scan {c : Char} {rest chars after : List Char} {kind : TokenKind}
    (hscan : lexicon.scan c rest = .ok ⟨kind, chars⟩) (hrest : c :: rest = chars ++ after)
    (hkind : kind = .word ∨ kind = .symbol) :
    Finds (c :: rest) (kind, String.ofList chars) after := by
  intro cursor hahead
  have happly : lexicon.flags.apply ⟨kind, String.ofList chars, cursor.nextPlace⟩ =
      some ⟨kind, String.ofList chars, cursor.nextPlace⟩ := by
    rcases hkind with rfl | rfl <;> rfl
  have hafter : (cursor.skip chars.length).ahead = after := by
    rw [Cursor.ahead_skip, hahead, hrest, List.drop_left]
  refine ⟨⟨kind, String.ofList chars, cursor.nextPlace⟩, _, ?_, rfl, hafter⟩
  rw [Rules.next_of_scan hahead hscan]
  dsimp only
  rw [happly]

/-- A blank in front is left out. -/
theorem finds_blank {c : Char} {cs rest : List Char} {content : TokenKind × String}
    (hc : CharMap.controlsAndSpace.holds c = false) (h : Finds (c :: cs) content rest) :
    Finds (' ' :: c :: cs) content rest := by
  intro cursor hahead
  have hscan : lexicon.scan ' ' (c :: cs) = .ok ⟨.whitespace, [' ']⟩ := by
    have hblank : (' ' :: c :: cs).takeWhile CharMap.controlsAndSpace.holds = [' '] := by
      have hspace : CharMap.controlsAndSpace.holds ' ' = true := rfl
      rw [List.takeWhile_cons, hspace, List.takeWhile_cons, hc]
      rfl
    have hroute : lexicon.routes.get? ' ' = some (.whitespace .controlsAndSpace) := rfl
    rw [Rules.scan, hroute]
    dsimp only [State.scan]
    rw [hblank]
    rfl
  have hafter : (cursor.skip 1).ahead = c :: cs := by
    rw [Cursor.ahead_skip, hahead]
    rfl
  obtain ⟨token, after, hnext, hcontent, hrest⟩ := h (cursor.skip 1) hafter
  exact ⟨token, after, (Rules.next_of_scan hahead hscan).trans hnext, hcontent, hrest⟩

end Template

end Formulary
