import Formulary.Library.Builtin

/-!
# Functions of what values hold
-/

namespace Formulary.Library

def holdsNothing : Value → Bool
  | .null => true
  | .string text => text.isEmpty
  | .array items => items.isEmpty
  | .object fields => fields.isEmpty
  | _ => false

def empty : Builtin := .unary "Empty" fun _ v => .ok (.boolean (holdsNothing v))

def null : Builtin := .value "Null" .null

/-- Whether characters stand side by side somewhere in a text. -/
def occurs (part : List Char) : List Char → Bool
  | [] => part.isEmpty
  | c :: rest => part.isPrefixOf (c :: rest) || occurs part rest

/-- Whether a text has another as a part; never without a value. -/
def contains : Builtin where
  name := "Contains"
  arity := .exactly 2
  apply args s :=
    let text := argument args 0
    let part := argument args 1
    if text.isNull || part.isNull then .ok (.boolean false)
    else do
      let text ← s.convert text .string
      let part ← s.convert part .string
      let chars (v : Value) : List Char := (v.string?.getD "").toList
      return .boolean (occurs (chars part) (chars text))

def array : Builtin := ⟨"Array", .any, fun args _ => .ok (.array args)⟩

end Formulary.Library
