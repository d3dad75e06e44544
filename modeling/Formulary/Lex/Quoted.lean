/-!
# Quoted strings

A quoted string begins and ends with the same quote. The quote itself is written twice inside.
-/

namespace Formulary.Quoted

/-- The rest of a quoted string through its closing quote. -/
def close? (quote : Char) : List Char → Option (List Char)
  | [] => none
  | [c] => if c = quote then some [quote] else none
  | c :: d :: rest =>
    if c = quote then
      if d = quote then (close? quote rest).map (quote :: quote :: ·) else some [quote]
    else (close? quote (d :: rest)).map (c :: ·)

/-- The quoted string in front of a text, whose first character is the quote. -/
def scan? : List Char → Option (List Char)
  | [] => some []
  | quote :: rest => (close? quote rest).map (quote :: ·)

/-- The characters with each pair of quotes made one. -/
def collapse (quote : Char) : List Char → List Char
  | [] => []
  | [c] => [c]
  | c :: d :: rest =>
    if c = quote ∧ d = quote then quote :: collapse quote rest
    else c :: collapse quote (d :: rest)

def double (quote : Char) : List Char → List Char
  | [] => []
  | c :: rest => if c = quote then quote :: quote :: double quote rest else c :: double quote rest

/-- The string that a quoted string stands for. Characters that are not enclosed in the first of
them stand for themselves. -/
def decode : List Char → List Char
  | [] => []
  | [c] => [c]
  | quote :: rest =>
    if rest.getLast? = some quote then collapse quote rest.dropLast else quote :: rest

def encode (quote : Char) (s : List Char) : List Char := quote :: double quote s ++ [quote]

end Formulary.Quoted
