import Formulary.Template

/-!
# Letters

A letter is a template on a desk, with the variables that it is written with.
-/

namespace Formulary

/-- A template on a desk. -/
abbrev Letter := Desk Template

namespace Letter

/-- The text of the letter, with other variables in front of its own where they are given. -/
def render (l : Letter) (overrides : Option Variables) : Except Error String :=
  l.document.render overrides l.vars

end Letter

end Formulary
