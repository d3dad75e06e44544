/-!
# Places in a text

A place is counted the way an editor counts it: lines from one, columns from one within a line.
Column 0 stands before the first character of a line.
-/

namespace Formulary

/-- The line and the column of a character. Both are counted without a limit; a counter of 32 bits
agrees with them in every text of fewer than `2 ^ 32 - 1` characters. -/
structure Position where
  line : Nat
  column : Nat
deriving DecidableEq, Repr, Inhabited

namespace Position

def start : Position := ⟨1, 0⟩

def first : Position := ⟨1, 1⟩

/-- The written form `line:column`. -/
def text (p : Position) : String := toString p.line ++ ":" ++ toString p.column

/-- Reading order: by line, and within a line by column. -/
def before (p q : Position) : Bool :=
  p.line < q.line || (p.line == q.line && p.column < q.column)

end Position

/-- Something that stands at a place in a text. -/
structure Placed (α : Type) where
  content : α
  position : Position
deriving DecidableEq, Repr

end Formulary
