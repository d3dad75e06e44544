import Formulary.Template.Tag

/-!
# Sections

Tags nest: what stands between the start and the end of a section is its body. Ends are checked
against the innermost section that is open. In the outline of a template every node has the number
at which its tag comes among those that do not close a section.
-/

namespace Formulary.Template

/-- Something that stands alone, or a section with its body. -/
inductive Node
  | leaf (leaf : Placed Leaf)
  | block (opening : Placed Opening) (body : List Node)

/-- A section that is open, and the nodes in front of it, the last one first. -/
structure Frame where
  opening : Placed Opening
  before : List Node

namespace Node

/-- Nests tags. `done` are the nodes of the innermost open section so far, the last one first. -/
def nest (done : List Node) (frames : List Frame) :
    List (Placed Tag) → Except ParseError (List Node)
  | [] =>
    match frames with
    | [] => .ok done.reverse
    | frame :: _ => .error ⟨.notClosed frame.opening.content.name, frame.opening.position⟩
  | ⟨.leaf l, p⟩ :: rest => nest (.leaf ⟨l, p⟩ :: done) frames rest
  | ⟨.opening o, p⟩ :: rest => nest [] (⟨⟨o, p⟩, done⟩ :: frames) rest
  | ⟨.closing name, p⟩ :: rest =>
    match frames with
    | [] => .error ⟨.closesNothing (name.getD ""), p⟩
    | frame :: outer =>
      if frame.opening.content.isClosedBy name then
        nest (.block frame.opening done.reverse :: frame.before) outer rest
      else .error ⟨.closesAnother (name.getD "") frame.opening.content.name, p⟩

def ofTags (tags : List (Placed Tag)) : Except ParseError (List Node) := nest [] [] tags

mutual

def size : Node → Nat
  | leaf _ => 1
  | block _ body => 1 + sizeOfAll body

def sizeOfAll : List Node → Nat
  | [] => 0
  | node :: rest => node.size + sizeOfAll rest

end

def tag : Node → Placed Tag
  | leaf l => ⟨.leaf l.content, l.position⟩
  | block o _ => ⟨.opening o.content, o.position⟩

/-- The numbers of nodes side by side, the first of which has the given number. -/
def numbers (first : Nat) : List Node → List Nat
  | [] => []
  | node :: rest => first :: numbers (first + node.size) rest

end Node

/-- A node in an outline: its tag, and the numbers of the nodes in its body. The template as a whole
has no tag. -/
structure Heading where
  tag : Option (Placed Tag)
  body : List Nat
deriving DecidableEq, Repr

namespace Node

mutual

/-- The headings of a node of the given number and of the nodes in it. -/
def headings (number : Nat) : Node → List Heading
  | leaf l => [⟨some (leaf l).tag, []⟩]
  | block o body =>
    ⟨some (block o body).tag, numbers (number + 1) body⟩ :: headingsOfAll (number + 1) body

def headingsOfAll (first : Nat) : List Node → List Heading
  | [] => []
  | node :: rest => node.headings first ++ headingsOfAll (first + node.size) rest

end

/-- The outline of nodes: the whole has the number 0. -/
def outline (nodes : List Node) : List Heading :=
  ⟨none, numbers 1 nodes⟩ :: headingsOfAll 1 nodes

end Node

end Formulary.Template
