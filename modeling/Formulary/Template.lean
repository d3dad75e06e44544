import Formulary.Desk
import Formulary.Template.Work

/-!
# Templates

A template is a text with the nodes that its tags make. A text that cannot be read leaves a template
of the text alone, which is rendered as nothing.
-/

namespace Formulary

/-- A text with its tokens, its tags and its nodes. -/
structure Template where
  text : String
  tokens : List Token
  tags : List (Placed Template.Tag)
  nodes : List Template.Node

namespace Template

def blank (text : String) : Template := ⟨text, [], [], []⟩

def read (text : String) : Except Error Template := do
  let tokens ← (lexer.tokenize text).result.mapError .lex
  let finish := (tokens.getLast?.map (·.position)).getD .first
  let tags ← (Tag.ofTokens tokens).mapError fun stuck => .parse (stuck.error Token.position finish)
  let nodes ← (Node.ofTags tags).mapError .parse
  return ⟨text, tokens, tags, nodes⟩

/-- The names of the variables, each once and as it is first spelled, in the order of their use. -/
def variableNames (t : Template) : List String :=
  Variables.spellings (t.tags.filterMap fun tag => tag.content.root?)

/-- The text of the template for variables, of which some take the place of others. -/
def render (t : Template) (overrides : Option Variables) (defaults : Variables) :
    Except Error String :=
  (renderNodes ⟨[], overrides, defaults⟩ t.nodes).mapError .eval

def stages : Parser.Stage Tag Node Unit := do
  let tokens ← (lexer.tokenize (← get).text).result.mapError Error.lex
  modify fun p => { p with tokens := tokens }
  let finish := (tokens.getLast?.map (·.position)).getD .first
  let tags ← (Tag.ofTokens tokens).mapError fun stuck =>
    Error.parse (stuck.error Token.position finish)
  modify fun p => { p with signs := tags }
  let nodes ← (Node.ofTags tags).mapError Error.parse
  modify fun p => { p with result := nodes }
  modify fun p => { p with
    names := Variables.spellings (p.signs.filterMap fun tag => tag.content.root?) }

def parser (t : Template) : Parser Tag Node := ⟨t.text, t.tokens, t.tags, t.nodes, t.variableNames⟩

instance : Document Template Tag Node := ⟨read, blank, stages, parser⟩

end Template

end Formulary
