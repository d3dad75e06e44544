/-!
# Text in markup

Values of ordinary tags are written so that they carry no markup: the five characters with a meaning
in markup are written as entities.
-/

namespace Formulary.Template

def escapeChar (c : Char) : List Char :=
  if c = '&' then "&amp;".toList
  else if c = '<' then "&lt;".toList
  else if c = '>' then "&gt;".toList
  else if c = '\x22' then "&quot;".toList
  else if c = '\x27' then "&#39;".toList
  else [c]

def escape (s : String) : String := String.ofList (s.toList.flatMap escapeChar)

end Formulary.Template
