import Formulary.Expr.Parser
import Formulary.Expr.Program

/-!
# Assembling programs

A program can be assembled while its tokens are read, with no tree in between: an operand is written
down where it stands, and an operation behind its operands. The assembler has a cursor in the
tokens, a counter for the level it is at, and the instructions so far. It also notes how many
sub-expressions were begun and the largest value that the counter had.

Each reading is a pass over the assembler. It may get stuck, and then the assembler is left as it is
at that point. A pass that does not get stuck leaves fewer tokens; this lets the passes end.
-/

namespace Formulary

open Formulary.Expr

/-- Tokens on their way to a program. -/
structure Assembler where
  tokens : List (Placed Sign)
  place : Nat
  depth : Nat
  output : Program
  calls : Nat
  deepest : Nat

namespace Assembler

def ofTokens (tokens : List (Placed Sign)) : Assembler := ⟨tokens, 0, 0, [], 0, 0⟩

def ahead (a : Assembler) : List (Placed Sign) := a.tokens.drop a.place

def left (a : Assembler) : Nat := a.tokens.length - a.place

def skip (a : Assembler) (count : Nat) : Assembler := { a with place := a.place + count }

def emit (a : Assembler) (instructions : Program) : Assembler :=
  { a with output := a.output ++ instructions }

def begun (a : Assembler) : Assembler := { a with calls := a.calls + 1 }

def enter (a : Assembler) : Assembler :=
  { a with depth := a.depth + 1, deepest := max a.deepest (a.depth + 1) }

def leave (a : Assembler) : Assembler := { a with depth := a.depth - 1 }

theorem length_ahead (a : Assembler) : a.ahead.length = a.left := List.length_drop

theorem left_enter (a : Assembler) : a.begun.enter.left = a.left := rfl

theorem left_pos {a : Assembler} {token : Placed Sign} {rest : List (Placed Sign)}
    (h : a.ahead = token :: rest) : 0 < a.left := by
  rw [← a.length_ahead, h]
  exact Nat.succ_pos _

theorem left_skip (a : Assembler) (count : Nat) : (a.skip count).left = a.left - count :=
  Nat.sub_add_eq ..

theorem left_skip_lt {a : Assembler} {token : Placed Sign} {rest : List (Placed Sign)}
    {count : Nat} (h : a.ahead = token :: rest) (hcount : 0 < count := by decide) :
    (a.skip count).left < a.left := by
  have := left_pos h
  rw [left_skip]
  omega

/-- An answer, or what stands in its way, with the assembler that is left. With an answer, fewer
tokens than a bound are left. -/
structure Pass (α : Type) (bound : Nat) where
  answer : Except (Stuck (Placed Sign)) α
  after : Assembler
  fewer : ∀ {x}, answer = .ok x → after.left < bound

namespace Pass

variable {α β : Type} {bound inner : Nat}

def stuck (s : Stuck (Placed Sign)) (a : Assembler) : Pass α bound := ⟨.error s, a, nofun⟩

def done (x : α) (a : Assembler) (h : a.left < bound) : Pass α bound := ⟨.ok x, a, fun _ => h⟩

/-- A pass that goes on behind another one, unless that got stuck. -/
def bind (pass : Pass α inner) (next : α → (a : Assembler) → a.left < inner → Pass β bound) :
    Pass β bound :=
  match h : pass.answer with
  | .error s => stuck s pass.after
  | .ok x => next x pass.after (pass.fewer h)

/-- The pass seen under a larger bound. -/
def within (pass : Pass α inner) (h : inner ≤ bound) : Pass α bound :=
  ⟨pass.answer, pass.after, fun hx => Nat.lt_of_lt_of_le (pass.fewer hx) h⟩

/-- The pass with the level left behind it, stuck or not. -/
def leaving (pass : Pass α bound) : Pass α bound := ⟨pass.answer, pass.after.leave, pass.fewer⟩

end Pass

def close (a : Assembler)
    (take : List (Placed Sign) → Except (Stuck (Placed Sign)) (List (Placed Sign)))
    (shrinks : ∀ {tokens rest}, take tokens = .ok rest → rest.length < tokens.length) :
    Pass Unit a.left :=
  match h : take a.ahead with
  | .error s => .stuck s a
  | .ok _ => .done () (a.skip 1) <| by
    have := shrinks h
    rw [left_skip, ← a.length_ahead]
    omega

/-- Reads the rest of a test for no value behind `IS`. -/
def nullTest (a : Assembler) : Pass UnaryOperation a.left :=
  match a.ahead with
  | ⟨.not, _⟩ :: _ => value (a.skip 1) .isNotNull (by rw [left_skip]; omega)
  | _ => value a .isNull (Nat.le_refl _)
where
  /-- Takes the `NULL` of the test, or anything else that stands in its place. -/
  value (a : Assembler) (op : UnaryOperation) {bound : Nat} (hbound : a.left ≤ bound) :
      Pass UnaryOperation bound :=
    match h : a.ahead with
    | ⟨.constant .null, _⟩ :: _ => .done op (a.skip 1) (Nat.lt_of_lt_of_le (left_skip_lt h) hbound)
    | [] => .stuck ⟨.unexpectedEnd, []⟩ a
    | token :: rest => .stuck ⟨.expectedNull, token :: rest⟩ (a.skip 1)

end Assembler

/-- How many tokens an operation between two operands is written with. -/
def BinaryOperation.words : BinaryOperation → Nat
  | .notMember | .notLike => 2
  | _ => 1

theorem BinaryOperation.words_pos (op : BinaryOperation) : 0 < op.words := by
  cases op <;> exact Nat.succ_pos _

namespace Assembler

mutual

/-- Reads an expression whose operators reach a power, one level further in. -/
def expression (power : Nat) (a : Assembler) : Pass Unit a.left :=
  if levels ≤ a.depth then .stuck ⟨.nestingTooDeep levels, a.ahead⟩ a.begun
  else
    ((operand a.begun.enter).bind fun _ b hb =>
      (extend power b).within (Nat.le_trans hb (Nat.le_of_eq a.left_enter))).leaving
termination_by (a.left, 3)
decreasing_by
  · rw [left_enter]
    exact .right _ (by decide)
  · exact .left _ _ (Nat.lt_of_lt_of_eq hb a.left_enter)

/-- Reads an operand with the operators in front of it. -/
def operand (a : Assembler) : Pass Unit a.left :=
  match h : a.ahead with
  | [] => .stuck ⟨.unexpectedEnd, []⟩ a
  | ⟨.constant v, p⟩ :: _ => .done () ((a.skip 1).emit [⟨.constant v, p⟩]) (left_skip_lt h)
  | ⟨.name name, p⟩ :: ⟨.openParenthesis, _⟩ :: _ =>
    (arguments (a.skip 2)).bind fun count b hb =>
      .done () (b.emit [⟨.constant (.integer (Int32.ofNat count)), p⟩, ⟨.call name, p⟩])
        (Nat.lt_trans hb (left_skip_lt h))
  | ⟨.name name, p⟩ :: _ => .done () ((a.skip 1).emit [⟨.reference name, p⟩]) (left_skip_lt h)
  | ⟨.openParenthesis, _⟩ :: _ =>
    (expression 0 (a.skip 1)).bind fun _ b hb =>
      (b.close closeParenthesis closeParenthesis_lt).within
        (Nat.le_of_lt (Nat.lt_trans hb (left_skip_lt h)))
  | ⟨.operator .sub, p⟩ :: _ =>
    (expression unaryPower (a.skip 1)).bind fun _ b hb =>
      .done () (b.emit [⟨.unary .negative, p⟩]) (Nat.lt_trans hb (left_skip_lt h))
  | ⟨.operator .add, _⟩ :: _ =>
    (expression unaryPower (a.skip 1)).within (Nat.le_of_lt (left_skip_lt h))
  | ⟨.not, p⟩ :: _ =>
    (expression notPower (a.skip 1)).bind fun _ b hb =>
      .done () (b.emit [⟨.unary .not, p⟩]) (Nat.lt_trans hb (left_skip_lt h))
  | ⟨.comma, p⟩ :: rest => .stuck ⟨.misplacedComma, ⟨.comma, p⟩ :: rest⟩ (a.skip 1)
  | ⟨sign, p⟩ :: rest => .stuck ⟨.notAnOperand sign.title, ⟨sign, p⟩ :: rest⟩ (a.skip 1)
termination_by (a.left, 0)
decreasing_by
  all_goals exact .left _ _ (left_skip_lt h)

/-- Reads the arguments of a call, with the parenthesis behind them, and counts them. -/
def arguments (a : Assembler) : Pass Nat a.left :=
  match h : a.ahead with
  | ⟨.closeParenthesis, _⟩ :: _ => .done 0 (a.skip 1) (left_skip_lt h)
  | _ => further 0 a
termination_by (a.left, 5)
decreasing_by exact .right _ (by decide)

/-- Reads at least one more argument behind those that were counted. -/
def further (count : Nat) (a : Assembler) : Pass Nat a.left :=
  (expression 0 a).bind fun _ b hb =>
    match h : b.ahead with
    | ⟨.comma, _⟩ :: _ =>
      (further (count + 1) (b.skip 1)).within (Nat.le_of_lt (Nat.lt_trans (left_skip_lt h) hb))
    | _ =>
      (b.close closeParenthesis closeParenthesis_lt).bind fun _ c hc =>
        .done (count + 1) c (Nat.lt_trans hc hb)
termination_by (a.left, 4)
decreasing_by
  · exact .right _ (by decide)
  · exact .left _ _ (Nat.lt_trans (left_skip_lt h) hb)

/-- Reads what extends an expression by one operation that reaches a power, if there is one. -/
def extendOnce (power : Nat) (a : Assembler) : Option (Pass Unit a.left) :=
  match h : a.ahead with
  | [] => none
  | ⟨.openBracket, p⟩ :: _ =>
    if BinaryOperation.leftPower .element < power then none
    else some <| (expression (BinaryOperation.rightPower .element) (a.skip 1)).bind fun _ b hb =>
      (b.close closeBracket closeBracket_lt).bind fun _ c hc =>
        .done () (c.emit [⟨.binary .element, p⟩])
          (Nat.lt_trans hc (Nat.lt_trans hb (left_skip_lt h)))
  | ⟨.is, p⟩ :: _ =>
    if testPower < power then none
    else some <| (a.skip 1).nullTest.bind fun op b hb =>
      .done () (b.emit [⟨.unary op, p⟩]) (Nat.lt_trans hb (left_skip_lt h))
  | ⟨sign, p⟩ :: rest =>
    match binaryAhead? (⟨sign, p⟩ :: rest) with
    | none => none
    | some (op, _) =>
      if op.leftPower < power then none
      else some <| (expression op.rightPower (a.skip op.words)).bind fun _ b hb =>
        .done () (b.emit [⟨.binary op, p⟩]) (Nat.lt_trans hb (left_skip_lt h op.words_pos))
termination_by (a.left, 0)
decreasing_by
  · exact .left _ _ (left_skip_lt h)
  · exact .left _ _ (left_skip_lt h op.words_pos)

/-- Extends an expression by all the operations behind it that reach a power. -/
def extend (power : Nat) (a : Assembler) : Pass Unit (a.left + 1) :=
  match extendOnce power a with
  | none => .done () a (Nat.lt_succ_self _)
  | some pass => pass.bind fun _ b hb => (extend power b).within (Nat.le_succ_of_le hb)
termination_by (a.left, 1)
decreasing_by
  · exact .right _ (by decide)
  · exact .left _ _ hb

end

/-- The program that all tokens together write. No tokens write no instructions. -/
def assemble (tokens : List (Placed Sign)) : Except (Stuck (Placed Sign)) Program :=
  if tokens.isEmpty then .ok []
  else
    let pass := (ofTokens tokens).expression 0
    match pass.answer, pass.after.ahead with
    | .error s, _ => .error s
    | .ok _, [] => .ok pass.after.output
    | .ok _, token :: rest => .error ⟨unexpected token.content, token :: rest⟩

end Assembler

end Formulary
