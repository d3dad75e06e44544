import Formulary.Parser
import Formulary.Variables

/-!
# Desks

A desk has a document on it together with the variables that the document is used with. A new
document has its variables declared unless that is turned off. A text that cannot be read takes the
document away and changes nothing else.
-/

namespace Formulary

/-- What texts are read as, in one go and by the stages of a parser. A document can be looked at as
what the parser has of it. -/
class Document (δ : Type) (σ ρ : outParam Type) where
  read : String → Except Error δ
  blank : String → δ
  stages : Parser.Stage σ ρ Unit
  parser : δ → Parser σ ρ

/-- A document and the variables that it is used with. -/
structure Desk (δ : Type) where
  document : δ
  vars : Variables
  declares : Bool

namespace Desk

variable {δ σ ρ : Type} [Document δ σ ρ]

def new : Desk δ := ⟨Document.blank "", .empty, true⟩

def parser (d : Desk δ) : Parser σ ρ := Document.parser d.document

def declare (d : Desk δ) : Desk δ := { d with vars := d.vars.locateAll d.parser.names }

/-- The desk with the document of a text, and the error if the text cannot be read. -/
def setText (d : Desk δ) (text : String) : Except Error Unit × Desk δ :=
  match Document.read text with
  | .ok document =>
    let changed := { d with document := document }
    (.ok (), if d.declares then changed.declare else changed)
  | .error e => (.error e, { d with document := Document.blank text })

end Desk

end Formulary
