import Formulary.Error.Parsing
import Formulary.Template.Lexer
import Formulary.Text.Casing

/-!
# Tags

The tokens of a template are grouped to tags: a run of text, or what stands between an opening and a
closing pair of brackets. Some tags stand alone; others open or close a section.
-/

namespace Formulary.Template

inductive Leaf
  | literal (text : String)
  | raw (name : String)
  | escaped (name : String)
  | inclusion (name : String)
  | comment (text : String)
deriving DecidableEq, Repr

/-- The start of a section for a name: shown as often as the name has values, or, if it is inverted,
shown where the name has none. It may be written with a helper. -/
structure Opening where
  inverted : Bool
  name : String
  helper : Option String
deriving DecidableEq, Repr

/-- Whether the end of a section with a name closes this one. An end without a name closes any
section. A section with a helper is closed by the name of the helper. -/
def Opening.isClosedBy (opening : Opening) (name : Option String) : Bool :=
  name.all fun name => Text.equalIgnoringCase (opening.helper.getD opening.name).toList name.toList

inductive Tag
  | leaf (leaf : Leaf)
  | opening (opening : Opening)
  | closing (name : Option String)
deriving DecidableEq, Repr

namespace Tag

def name : List Token → Reading Token String
  | [] => .error ⟨.unterminatedTag, []⟩
  | token :: rest =>
    if token.kind = .word then .ok (token.text, rest)
    else .error ⟨.expectedName token.text, token :: rest⟩

def close (brackets : String) : List Token → Except (Stuck Token) (List Token)
  | [] => .error ⟨.unterminatedTag, []⟩
  | token :: rest =>
    if token.text = brackets then .ok rest
    else if token.text = closeBrackets ∨ token.text = closeRawBrackets then
      .error ⟨.mismatchedBrackets brackets token.text, token :: rest⟩
    else .error ⟨.expectedBrackets brackets token.text, token :: rest⟩

/-- The name in front, if there is one, and the tokens behind it. -/
def nameAhead : List Token → Option String × List Token
  | [] => (none, [])
  | token :: rest => if token.kind = .word then (some token.text, rest) else (none, token :: rest)

/-- Whether a section with a helper of this name is inverted; nothing for other names. -/
def helper? (name : String) : Option Bool :=
  if Text.equalIgnoringCase "if".toList name.toList then some false
  else if Text.equalIgnoringCase "unless".toList name.toList then some true
  else none

/-- The section opened by a name. The name of a helper makes way for a second name. -/
def openingOf (first : String) (rest : List Token) : Tag × List Token :=
  match helper? first, nameAhead rest with
  | some inverted, (some second, rest) => (opening ⟨inverted, second, some first⟩, rest)
  | _, _ => (opening ⟨false, first, none⟩, rest)

/-- The text of a comment without the mark in front. -/
def commentText (text : String) : String :=
  match text.toList with
  | '!' :: rest => String.ofList rest
  | _ => text

/-- Reads what stands between the brackets of a tag. -/
def contents : List Token → Reading Token Tag
  | [] => .error ⟨.unterminatedTag, []⟩
  | token :: rest =>
    if token.kind = .comment then .ok (leaf (.comment (commentText token.text)), rest)
    else if token.is .symbol "#" then (name rest).map fun read => openingOf read.1 read.2
    else if token.is .symbol "^" then
      (name rest).map fun read => (opening ⟨true, read.1, none⟩, read.2)
    else if token.is .symbol "/" then .ok ((nameAhead rest).map closing id)
    else if token.is .symbol ">" then
      (name rest).map fun read => (leaf (.inclusion read.1), read.2)
    else (name (token :: rest)).map fun read => (leaf (.escaped read.1), read.2)

/-- Reads a run of text or a tag that starts with a token. -/
def next (token : Token) (rest : List Token) : Reading Token Tag :=
  if token.kind = .special then .ok (leaf (.literal token.text), rest)
  else if token.is .symbol openRawBrackets then
    (name rest).bind fun read =>
      (close closeRawBrackets read.2).map fun rest => (leaf (.raw read.1), rest)
  else if token.is .symbol openBrackets then
    (contents rest).bind fun read =>
      (close closeBrackets read.2).map fun rest => (read.1, rest)
  else .error ⟨.outsideTag token.text, token :: rest⟩

theorem name_le {tokens rest : List Token} {text : String} (h : name tokens = .ok (text, rest)) :
    rest.length ≤ tokens.length := by
  unfold name at h
  split at h
  · cases h
  · split at h <;> cases h
    simp

theorem close_le {brackets : String} {tokens rest : List Token}
    (h : close brackets tokens = .ok rest) : rest.length ≤ tokens.length := by
  unfold close at h
  split at h
  · cases h
  · split at h
    · cases h
      simp
    · split at h <;> cases h

theorem nameAhead_le (tokens : List Token) : (nameAhead tokens).2.length ≤ tokens.length := by
  unfold nameAhead
  split
  · simp
  · split <;> simp

theorem openingOf_le (first : String) (tokens : List Token) :
    (openingOf first tokens).2.length ≤ tokens.length := by
  have := nameAhead_le tokens
  unfold openingOf
  split
  · rename_i heq
    rw [heq] at this
    exact this
  · exact Nat.le_refl _

theorem contents_le {tokens rest : List Token} {tag : Tag}
    (h : contents tokens = .ok (tag, rest)) : rest.length ≤ tokens.length := by
  unfold contents at h
  split at h
  · cases h
  · rename_i token rest'
    have hname {text : String} {after : List Token} (hn : name rest' = .ok (text, after)) :
        after.length ≤ rest'.length := name_le hn
    simp only [List.length_cons]
    split at h
    · cases h
      omega
    split at h
    · obtain ⟨⟨text, after⟩, hn, heq⟩ := of_map_ok h
      have hlt := openingOf_le text after
      have := hname hn
      rw [heq] at hlt
      exact Nat.le_succ_of_le (Nat.le_trans hlt this)
    split at h
    · obtain ⟨⟨text, after⟩, hn, heq⟩ := of_map_ok h
      cases heq
      exact Nat.le_succ_of_le (hname hn)
    split at h
    · cases h
      exact Nat.le_succ_of_le (nameAhead_le rest')
    split at h
    · obtain ⟨⟨text, after⟩, hn, heq⟩ := of_map_ok h
      cases heq
      exact Nat.le_succ_of_le (hname hn)
    · obtain ⟨⟨text, after⟩, hn, heq⟩ := of_map_ok h
      cases heq
      exact name_le hn

theorem next_le {token : Token} {tokens rest : List Token} {tag : Tag}
    (h : next token tokens = .ok (tag, rest)) : rest.length ≤ tokens.length := by
  unfold next at h
  split at h
  · cases h
    exact Nat.le_refl _
  split at h
  · obtain ⟨⟨text, after⟩, hname, hclose⟩ := of_bind_ok h
    obtain ⟨after', hclose, heq⟩ := of_map_ok hclose
    cases heq
    exact Nat.le_trans (close_le hclose) (name_le hname)
  split at h
  · obtain ⟨⟨inner, after⟩, hcontents, hclose⟩ := of_bind_ok h
    obtain ⟨after', hclose, heq⟩ := of_map_ok hclose
    cases heq
    exact Nat.le_trans (close_le hclose) (contents_le hcontents)
  · cases h

/-- All tags that tokens make, each at the place of its first token. -/
def ofTokens (tokens : List Token) : Except (Stuck Token) (List (Placed Tag)) :=
  match tokens with
  | [] => .ok []
  | token :: rest =>
    match _ : next token rest with
    | .error s => .error s
    | .ok (tag, after) => (ofTokens after).map (⟨tag, token.position⟩ :: ·)
termination_by tokens.length
decreasing_by exact Nat.lt_succ_of_le (next_le ‹_›)

end Tag

end Formulary.Template
