import Formulary.Lex.Quoted
import Formulary.Lex.Token

/-!
# What becomes of tokens

Flags drop tokens of some sorts and change the text or the sort of others. They look at one token at
a time and do not influence how the text is divided.
-/

namespace Formulary

inductive Flag
  | skipUnknown
  | skipWhitespaces
  | skipComments
  | skipEof
  | mergeWhitespaces
  | unifyNumbers
  | decodeStrings
deriving DecidableEq, Repr

structure Flags where
  holds : Flag → Bool

namespace Flags

def none : Flags := ⟨fun _ => false⟩

def set (flags : Flags) (flag : Flag) (on : Bool) : Flags :=
  ⟨fun f => if f = flag then on else flags.holds f⟩

def ofList (members : List Flag) : Flags := ⟨fun f => members.contains f⟩

def all : List Flag :=
  [.skipUnknown, .skipWhitespaces, .skipComments, .skipEof, .mergeWhitespaces, .unifyNumbers,
    .decodeStrings]

def toList (flags : Flags) : List Flag := all.filter flags.holds

/-- Whether a token of this sort is dropped. -/
def drops (flags : Flags) : TokenKind → Bool
  | .unknown => flags.holds .skipUnknown
  | .comment => flags.holds .skipComments
  | .whitespace => flags.holds .skipWhitespaces
  | _ => false

/-- The token as it is handed out when it is kept. -/
def polish (flags : Flags) (token : Token) : Token :=
  match token.kind with
  | .whitespace => if flags.holds .mergeWhitespaces then { token with text := " " } else token
  | .integer | .float =>
    if flags.holds .unifyNumbers then { token with kind := .number } else token
  | .quoted =>
    if flags.holds .decodeStrings then
      { token with text := String.ofList (Quoted.decode token.text.toList) }
    else token
  | _ => token

/-- The token as it is handed out, if it is kept. -/
def apply (flags : Flags) (token : Token) : Option Token :=
  if flags.drops token.kind then Option.none else some (flags.polish token)

end Flags

end Formulary
