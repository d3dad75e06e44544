import Formulary.Text.Regex

/-!
# Wildcard patterns

In a pattern `%` stands for any run of characters, the empty one included, and `_` for exactly one
character. Every other character stands for itself, and a text matches only as a whole. `Matches`
says this as a relation. `like` decides it by turning the pattern into a regular expression that is
tied to both ends of the text and whose points take line breaks too.
-/

namespace Formulary.Text

/-- What one character of a pattern stands for. -/
inductive Wildcard
  | run
  | one
  | exactly (c : Char)
deriving DecidableEq, Repr

namespace Wildcard

def ofChar (c : Char) : Wildcard :=
  if c = '%' then .run else if c = '_' then .one else .exactly c

def pattern (s : String) : List Wildcard := s.toList.map ofChar

inductive Matches : List Wildcard → List Char → Prop
  | nil : Matches [] []
  | run (skipped : List Char) {p t} : Matches p t → Matches (.run :: p) (skipped ++ t)
  | one (c : Char) {p t} : Matches p t → Matches (.one :: p) (c :: t)
  | exactly (c : Char) {p t} : Matches p t → Matches (.exactly c :: p) (c :: t)

variable (engine : Regex.Engine)

def written (c : Char) : String :=
  if c = '%' then ".*" else if c = '_' then "." else engine.escape (String.singleton c)

def expression (pattern : String) : String :=
  pattern.toList.foldl (fun expression c => expression ++ written engine c) "^(?s:" ++ ")$"

/-- Whether a pattern describes the whole text. -/
def like (text pattern : String) : Except Regex.Fault Bool :=
  (engine.prepare (expression engine pattern)).map fun search => search text

end Wildcard

end Formulary.Text
