import Formulary.Error
import Formulary.Lex.Token

/-!
# Parsers

A parser keeps the text that it was given last and what the stages of reading have made of it: the
tokens, what they mean, what is made of their meanings, and the names of the variables. Each stage
fills in its part. When a stage fails, the parts that are filled in by then are taken away again and
only the text is left. No part of an earlier text outlives the next one.
-/

namespace Formulary

/-- A text with what its tokens mean and what their meanings make. -/
structure Parser (σ ρ : Type) where
  text : String
  tokens : List Token
  signs : List (Placed σ)
  result : List ρ
  names : List String

namespace Parser

variable {σ ρ : Type}

def blank (text : String) : Parser σ ρ := ⟨text, [], [], [], []⟩

/-- A stage of reading. When it fails, the parts of those before it are filled in. -/
abbrev Stage (σ ρ : Type) := ExceptT Error (StateM (Parser σ ρ))

def clear (_ : Parser σ ρ) : Parser σ ρ := blank ""

/-- Takes everything but the text away again when a stage failed. -/
def settle : Except Error Unit × Parser σ ρ → Except Error Unit × Parser σ ρ
  | (.ok (), read) => (.ok (), read)
  | (.error e, partly) => (.error e, { partly.clear with text := partly.text })

/-- Takes up a text in the place of the one before, and the error if the text cannot be read. -/
def set (stages : Stage σ ρ Unit) (p : Parser σ ρ) (text : String) :
    Except Error Unit × Parser σ ρ :=
  settle (stages.run.run { p.clear with text := text })

end Parser

end Formulary
