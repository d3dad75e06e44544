import Formulary.Text.Position

/-!
# What can go wrong between tokens

Expressions and templates share one list of faults. Each belongs to a sort, and most say more about
what was found.
-/

namespace Formulary

inductive FaultSort
  | unexpectedEnd
  | unknownSymbol
  | unexpectedToken
  | missingCloseParenthesis
  | missingCloseBracket
  | misplacedComma
  | missingOperator
  | mismatchedBrackets
  | sectionMismatch
  | nestingTooDeep
deriving DecidableEq, Repr

def FaultSort.text : FaultSort → String
  | unexpectedEnd => "unexpected end of input"
  | unknownSymbol => "unknown symbol"
  | unexpectedToken => "unexpected token"
  | missingCloseParenthesis => "missing ')'"
  | missingCloseBracket => "missing ']'"
  | misplacedComma => "misplaced comma"
  | missingOperator => "missing operator"
  | mismatchedBrackets => "mismatched brackets"
  | sectionMismatch => "section mismatch"
  | nestingTooDeep => "nesting too deep"

/-- Why tokens do not make an expression or a template. -/
inductive ParseFault
  | unexpectedEnd
  | unterminatedTag
  | unknownSymbol (text : String)
  | unbalanced (bracket : String)
  | unexpected (title : String)
  | notAnOperand (title : String)
  | expectedNull
  | missingCloseParenthesis
  | missingCloseBracket
  | misplacedComma
  | missingOperator
  | nestingTooDeep (limit : Nat)
  | outsideTag (text : String)
  | expectedName (found : String)
  | expectedBrackets (expected found : String)
  | mismatchedBrackets (expected found : String)
  | closesNothing (name : String)
  | closesAnother (name opened : String)
  | notClosed (name : String)
deriving DecidableEq, Repr

namespace ParseFault

def sort : ParseFault → FaultSort
  | unexpectedEnd | unterminatedTag => .unexpectedEnd
  | unknownSymbol _ => .unknownSymbol
  | unbalanced _ | unexpected _ | notAnOperand _ | expectedNull | outsideTag _ | expectedName _
  | expectedBrackets .. => .unexpectedToken
  | missingCloseParenthesis => .missingCloseParenthesis
  | missingCloseBracket => .missingCloseBracket
  | misplacedComma => .misplacedComma
  | missingOperator => .missingOperator
  | nestingTooDeep _ => .nestingTooDeep
  | mismatchedBrackets .. => .mismatchedBrackets
  | closesNothing _ | closesAnother .. | notClosed _ => .sectionMismatch

def quoted (text : String) : String := "'" ++ text ++ "'"

/-- What a fault says beyond its sort. -/
def detail? : ParseFault → Option String
  | unterminatedTag => some "unterminated tag"
  | unknownSymbol text => some (quoted text)
  | unbalanced bracket => some ("unbalanced " ++ quoted bracket)
  | unexpected title => some title
  | notAnOperand title => some (title ++ " cannot start an operand")
  | expectedNull => some "expected NULL after IS"
  | nestingTooDeep limit => some ("more than " ++ toString limit ++ " nested sub-expressions")
  | outsideTag text => some (quoted text ++ " outside of a tag")
  | expectedName found => some ("expected a name, found " ++ quoted found)
  | expectedBrackets expected found | mismatchedBrackets expected found =>
    some ("expected " ++ quoted expected ++ ", found " ++ quoted found)
  | closesNothing name => some (quoted name ++ " closes no open section")
  | closesAnother name opened => some (quoted name ++ " cannot close section " ++ quoted opened)
  | notClosed name => some ("section " ++ quoted name ++ " is not closed")
  | _ => none

end ParseFault

/-- A fault with the place of the token where it shows. -/
structure ParseError where
  fault : ParseFault
  position : Position
deriving DecidableEq, Repr

def ParseError.message (e : ParseError) : String :=
  let place := e.fault.sort.text ++ " at " ++ e.position.text
  match e.fault.detail? with
  | some detail => place ++ ": " ++ detail
  | none => place

/-- A fault, and the tokens from the one where it shows. -/
structure Stuck (τ : Type) where
  fault : ParseFault
  rest : List τ

/-- The error at the first token that is left, or at the end of the text. -/
def Stuck.error {τ : Type} (s : Stuck τ) (place : τ → Position) (finish : Position) : ParseError :=
  ⟨s.fault, (s.rest.head?.map place).getD finish⟩

/-- Something read and the tokens behind it. -/
abbrev Reading (τ α : Type) := Except (Stuck τ) (α × List τ)

theorem of_map_ok {ε α β : Type} {f : α → β} {x : Except ε α} {b : β} (h : x.map f = .ok b) :
    ∃ a, x = .ok a ∧ f a = b := by
  cases x with
  | error e => cases h
  | ok a => exact ⟨a, rfl, by cases h; rfl⟩

theorem ok_of_toOption {ε α : Type} {result : Except ε α} {a : α}
    (h : result.toOption = some a) : result = .ok a := by
  cases result with
  | error e => cases h
  | ok b => exact congrArg Except.ok (Option.some.inj h)

theorem exists_ok_of_any {ε α : Type} {result : Except ε α} {p : α → Bool}
    (h : result.toOption.any p = true) : ∃ a, result = .ok a ∧ p a = true := by
  obtain ⟨a, ha, hp⟩ := (Option.any_eq_true ..).mp h
  exact ⟨a, ok_of_toOption ha, hp⟩

theorem of_bind_ok {ε α β : Type} {f : α → Except ε β} {x : Except ε α} {b : β}
    (h : x.bind f = .ok b) : ∃ a, x = .ok a ∧ f a = .ok b := by
  cases x with
  | error e => cases h
  | ok a => exact ⟨a, rfl, h⟩

theorem of_map_error {ε α β : Type} {f : α → β} {x : Except ε α} {e : ε}
    (h : x.map f = .error e) : x = .error e := by
  cases x with
  | error _ => exact congrArg Except.error (Except.error.inj h)
  | ok a => cases h

theorem of_bind_error {ε α β : Type} {f : α → Except ε β} {x : Except ε α} {e : ε}
    (h : x.bind f = .error e) : x = .error e ∨ ∃ a, x = .ok a ∧ f a = .error e := by
  cases x with
  | error _ => exact .inl (congrArg Except.error (Except.error.inj h))
  | ok a => exact .inr ⟨a, rfl, h⟩

end Formulary
