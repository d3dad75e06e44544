import Formulary.Strategy.Basic

/-!
# The lenient strategy

Operands are brought together wherever that makes sense:

* text that writes a number is that number beside a number, and so are two such texts;
* a string plus anything is the string followed by the text of the other;
* a truth value makes the other a truth value;
* otherwise the right operand becomes one of the left kind, or else the left one of the right kind;
* what cannot be brought together is compared as text.
-/

namespace Formulary.Strategy

def asTexts (left right : Value) : Value × Value := (.string left.text, .string right.text)

/-- Two strings under an operation other than joining: as numbers when both write one, as truth
values for the logical operations, and as they are for a comparison. -/
def pairTexts (op : Operation) (left right : String) : Except EvalError (Value × Value) :=
  let unread : Except EvalError (Value × Value) :=
    if op.isLogical then
      (Value.convert (.string left) .boolean).bind fun a =>
        (Value.convert (.string right) .boolean).map fun b => (a, b)
    else if op.isComparison then .ok (.string left, .string right)
    else .error (Value.mismatch op (.string left) (.string right))
  match Value.readNumber? left, Value.readNumber? right with
  | some a, some b => (promote Value.convert a b).getD unread
  | _, _ => unread

/-- A string beside a number: `withNumber` pairs the number that the string writes with the other
operand. Text that writes no finite number is compared as text, and must convert otherwise. -/
def pairTextNumber (op : Operation) (left right : Value) (text : String) (number : Value)
    (withNumber : Value → Value × Value) : Except EvalError (Value × Value) :=
  match Value.readNumber? text with
  | some n =>
    let pair := withNumber n
    (promote Value.convert pair.1 pair.2).getD (.error (Value.mismatch op left right))
  | none =>
    if op.isComparison then .ok (asTexts left right)
    else (Value.convert (.string text) number.kind).map fun _ => (left, right)

/-- Operands of two kinds by conversion: to truth values beside a truth value, else to the left
kind, else to the right kind, else to text for a comparison. -/
def pairByKind (op : Operation) (left right : Value) : Except EvalError (Value × Value) :=
  let byKind : Except EvalError (Value × Value) :=
    match right.convert left.kind with
    | .ok b => .ok (left, b)
    | .error _ => match left.convert right.kind with
      | .ok a => .ok (a, right)
      | .error _ =>
        if op.isComparison then .ok (asTexts left right)
        else .error (Value.mismatch op left right)
  if left.kind = .boolean ∨ right.kind = .boolean then
    match left.convert .boolean, right.convert .boolean with
    | .ok a, .ok b => .ok (a, b)
    | _, _ => byKind
  else byKind

def pairMixed (op : Operation) (left right : Value) : Except EvalError (Value × Value) :=
  if left.kind = right.kind then .ok (left, right)
  else match promote Value.convert left right with
    | some result => result
    | none =>
      match left, right with
      | .string text, number =>
        if number.kind.isNumeric then
          pairTextNumber op left right text number fun n => (n, number)
        else pairByKind op left right
      | number, .string text =>
        if number.kind.isNumeric then
          pairTextNumber op left right text number fun n => (number, n)
        else pairByKind op left right
      | _, _ => pairByKind op left right

/-- Operands brought together wherever that makes sense. -/
def lenientPair (op : Operation) (left right : Value) : Except EvalError (Value × Value) :=
  if isTemporalPair op left right then .ok (left, right)
  else match left, right with
    | .string a, .string b =>
      if op = .add then .ok (left, right) else pairTexts op a b
    | .string _, _ =>
      if op = .add then .ok (left, .string right.text) else pairMixed op left right
    | _, _ => pairMixed op left right

/-- The strategy that converts freely. -/
def lenient : Strategy := { convert := Value.convert, coerce := lenientPair }

end Formulary.Strategy
