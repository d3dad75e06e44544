import Formulary.Template
import Mathlib.Data.List.Chain

/-!
# Templates before they are written

A draft is a template as its author thinks of it: things that stand alone, and sections of which
each may be ended by a name or by a bare end. It is written tag by tag. What is written can be told
apart again if every tag is clean by itself and no literal text touches a tag with a brace of its
own.
-/

namespace Formulary.Template

/-- A name that the rules inside tags read as one word. -/
def IsName (name : String) : Prop :=
  ∃ c rest, name.toList = c :: rest ∧ lexicon.scan c rest = .ok ⟨.word, c :: rest⟩

namespace Tag

def text : Tag → String
  | leaf (.literal text) => text
  | leaf (.raw name) => openRawBrackets ++ name ++ closeRawBrackets
  | leaf (.escaped name) => openBrackets ++ name ++ closeBrackets
  | leaf (.inclusion name) => openBrackets ++ "> " ++ name ++ closeBrackets
  | leaf (.comment text) => openBrackets ++ "!" ++ text ++ closeBrackets
  | opening ⟨false, name, none⟩ => openBrackets ++ "#" ++ name ++ closeBrackets
  | opening ⟨true, name, none⟩ => openBrackets ++ "^" ++ name ++ closeBrackets
  | opening ⟨_, name, some helper⟩ => openBrackets ++ "#" ++ helper ++ " " ++ name ++ closeBrackets
  | closing name => openBrackets ++ "/" ++ name.getD "" ++ closeBrackets

/-- What can be written by itself: literal text that is not empty and opens no tag, names that are
words, comments that close no tag, and helpers that say whether their section is inverted. -/
def Clean : Tag → Prop
  | leaf (.literal text) => text ≠ "" ∧ ¬ openBrackets.toList <:+: text.toList
  | leaf (.raw name) | leaf (.escaped name) | leaf (.inclusion name) => IsName name
  | leaf (.comment text) =>
    ¬ closeBrackets.toList <:+: text.toList ∧ text.toList.getLast? ≠ some '\x7d'
  | opening o => IsName o.name ∧ ∀ helper ∈ o.helper, helper? helper = some o.inverted
  | closing name => ∀ n ∈ name, IsName n

/-- What can be written side by side: two literal texts cannot, a literal text in front of a tag
does not end with an opening brace, and one behind a tag with two closing brackets does not begin
with a closing brace. -/
def Meets : Tag → Tag → Prop
  | leaf (.literal _), leaf (.literal _) => False
  | leaf (.literal text), _ => text.toList.getLast? ≠ some '\x7b'
  | leaf (.raw _), _ => True
  | _, leaf (.literal text) => text.toList.head? ≠ some '\x7d'
  | _, _ => True

end Tag

/-- Something that stands alone, or a section with the name at its end, if it is written. -/
inductive Draft
  | leaf (leaf : Leaf)
  | block (opening : Opening) (closing : Option String) (body : List Draft)

namespace Draft

mutual

def tags : Draft → List Tag
  | leaf l => [.leaf l]
  | block o closing body => .opening o :: (tagsOfAll body ++ [.closing closing])

def tagsOfAll : List Draft → List Tag
  | [] => []
  | draft :: rest => draft.tags ++ tagsOfAll rest

end

def textOfAll (drafts : List Draft) : String := String.join ((tagsOfAll drafts).map Tag.text)

mutual

/-- Every section is closed by its end. -/
def Closed : Draft → Prop
  | leaf _ => True
  | block o closing body => o.isClosedBy closing = true ∧ AllClosed body

def AllClosed : List Draft → Prop
  | [] => True
  | draft :: rest => draft.Closed ∧ AllClosed rest

end

/-- Drafts that can be told apart again when they are written. -/
structure Writable (drafts : List Draft) : Prop where
  clean : ∀ tag ∈ tagsOfAll drafts, tag.Clean
  apart : (tagsOfAll drafts).IsChain Tag.Meets
  closed : AllClosed drafts

mutual

def bare : Draft → Draft
  | leaf l => leaf l
  | block o _ body => block o none (bareOfAll body)

def bareOfAll : List Draft → List Draft
  | [] => []
  | draft :: rest => draft.bare :: bareOfAll rest

end

end Draft

namespace Node

mutual

/-- A node without its places, each section with a bare end. -/
def draft : Node → Draft
  | leaf l => .leaf l.content
  | block o body => .block o.content none (draftOfAll body)

def draftOfAll : List Node → List Draft
  | [] => []
  | node :: rest => node.draft :: draftOfAll rest

end

end Node

end Formulary.Template
