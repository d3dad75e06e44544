/-!
# Comments

A line comment reaches to the end of its line, a block comment from `/*` to the next `*/`.
-/

namespace Formulary

inductive CommentStyle
  | line
  | lineAndBlock
  | block
deriving DecidableEq, Repr

namespace Comment

/-- The rest of the line in front of a text. -/
def line (cs : List Char) : List Char := cs.takeWhile fun c => c != '\n' && c != '\r'

/-- The rest of a block comment through its closing mark. -/
def close? : List Char → Option (List Char)
  | [] => none
  | [_] => none
  | c :: d :: rest =>
    if c = '*' ∧ d = '/' then some ['*', '/'] else (close? (d :: rest)).map (c :: ·)

/-- How a text begins as far as comments are concerned. -/
inductive Opening
  | none
  | comment (text : List Char)
  | unterminated
deriving DecidableEq, Repr

/-- The comment in front of a text. In the style of line comments alone, whatever stands in front
opens one. -/
def scan (style : CommentStyle) (cs : List Char) : Opening :=
  match style, cs with
  | .line, cs => .comment (line cs)
  | .lineAndBlock, '/' :: '/' :: _ => .comment (line cs)
  | _, '/' :: '*' :: rest =>
    match close? rest with
    | some closed => .comment ('/' :: '*' :: closed)
    | none => .unterminated
  | _, _ => .none

end Comment

end Formulary
