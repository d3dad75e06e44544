import Formulary.Expr.Binding
import Formulary.Expr.Sign

/-!
# Reading expressions

An operand is extended by every operation behind it whose left power reaches a given power, and the
right operand is read with the operation's right power. A sub-expression inside another one takes a
level, and there are `levels` of them.

A reader for one level is made of the reader for the level inside it. Whatever it reads, it leaves
fewer tokens; this lets the loops along a level end. Where reading fails, it says which tokens were
left at that point.
-/

namespace Formulary

namespace Expr

/-- How many sub-expressions can stand inside each other, the outermost included. -/
def levels : Nat := 256

/-- A way to read an expression whose operators reach a power. -/
structure Reader where
  read : Nat → List (Placed Sign) → Reading (Placed Sign) Expr
  shrinks : ∀ {power tokens e rest}, read power tokens = .ok (e, rest) →
    rest.length < tokens.length

/-- Whether a token can be the first of an operand. -/
def startsOperand : Sign → Bool
  | .openParenthesis | .constant _ | .name _ | .not | .operator .sub | .operator .add => true
  | _ => false

/-- What is wrong with a token in the place of an operator. -/
def unexpected (sign : Sign) : ParseFault :=
  match sign with
  | .comma => .misplacedComma
  | .closeParenthesis => .unbalanced ")"
  | .closeBracket => .unbalanced "]"
  | sign => if startsOperand sign then .missingOperator else .unexpected sign.title

def closeParenthesis : List (Placed Sign) → Except (Stuck (Placed Sign)) (List (Placed Sign))
  | [] => .error ⟨.missingCloseParenthesis, []⟩
  | token :: rest =>
    match token.content with
    | .closeParenthesis => .ok rest
    | .closeBracket => .error ⟨.missingCloseParenthesis, token :: rest⟩
    | sign => .error ⟨unexpected sign, token :: rest⟩

def closeBracket : List (Placed Sign) → Except (Stuck (Placed Sign)) (List (Placed Sign))
  | [] => .error ⟨.missingCloseBracket, []⟩
  | token :: rest =>
    match token.content with
    | .closeBracket => .ok rest
    | .closeParenthesis => .error ⟨.missingCloseBracket, token :: rest⟩
    | sign => .error ⟨unexpected sign, token :: rest⟩

/-- Reads the arguments of a call, at least one, with the parenthesis behind them. -/
def arguments (r : Reader) (tokens : List (Placed Sign)) : Reading (Placed Sign) (List Expr) :=
  match _ : r.read 0 tokens with
  | .error s => .error s
  | .ok (first, rest) =>
    match rest with
    | ⟨.comma, _⟩ :: more => (arguments r more).map fun read => (first :: read.1, read.2)
    | rest => (closeParenthesis rest).map fun rest => ([first], rest)
termination_by tokens.length
decreasing_by
  have := r.shrinks ‹_›
  simp only [List.length_cons] at this
  omega

/-- Reads an operand with the operators in front of it. -/
def operand (r : Reader) : List (Placed Sign) → Reading (Placed Sign) Expr
  | [] => .error ⟨.unexpectedEnd, []⟩
  | ⟨.constant v, p⟩ :: rest => .ok (.constant v p, rest)
  | ⟨.name name, p⟩ :: ⟨.openParenthesis, _⟩ :: ⟨.closeParenthesis, _⟩ :: rest =>
    .ok (.call name [] p, rest)
  | ⟨.name name, p⟩ :: ⟨.openParenthesis, _⟩ :: rest =>
    (arguments r rest).map fun read => (.call name read.1 p, read.2)
  | ⟨.name name, p⟩ :: rest => .ok (.reference name p, rest)
  | ⟨.openParenthesis, _⟩ :: rest =>
    (r.read 0 rest).bind fun read => (closeParenthesis read.2).map fun rest => (read.1, rest)
  | ⟨.operator .sub, p⟩ :: rest =>
    (r.read unaryPower rest).map fun read => (.unary .negative read.1 p, read.2)
  | ⟨.operator .add, _⟩ :: rest => r.read unaryPower rest
  | ⟨.not, p⟩ :: rest => (r.read notPower rest).map fun read => (.unary .not read.1 p, read.2)
  | ⟨.comma, p⟩ :: rest => .error ⟨.misplacedComma, ⟨.comma, p⟩ :: rest⟩
  | ⟨sign, p⟩ :: rest => .error ⟨.notAnOperand sign.title, ⟨sign, p⟩ :: rest⟩

/-- Reads the rest of a test for no value behind `IS`. -/
def nullTest : List (Placed Sign) → Reading (Placed Sign) UnaryOperation
  | ⟨.not, _⟩ :: ⟨.constant .null, _⟩ :: rest => .ok (.isNotNull, rest)
  | ⟨.constant .null, _⟩ :: rest => .ok (.isNull, rest)
  | ⟨.not, _⟩ :: rest => .error ⟨missing rest, rest⟩
  | rest => .error ⟨missing rest, rest⟩
where
  /-- What is wrong with anything else. -/
  missing (rest : List (Placed Sign)) : ParseFault :=
    if rest.isEmpty then .unexpectedEnd else .expectedNull

/-- The operation that is written between two operands by the next tokens, and the tokens behind. -/
def binaryAhead? : List (Placed Sign) → Option (BinaryOperation × List (Placed Sign))
  | ⟨.operator op, _⟩ :: rest => some (.operator op, rest)
  | ⟨.not, _⟩ :: ⟨.operator .member, _⟩ :: rest => some (.notMember, rest)
  | ⟨.not, _⟩ :: ⟨.operator .like, _⟩ :: rest => some (.notLike, rest)
  | _ => none

/-- Reads what extends an expression by one operation that reaches a power. Nothing is read where no
such operation follows. -/
def extendOnce (r : Reader) (power : Nat) (left : Expr) :
    List (Placed Sign) → Option (Reading (Placed Sign) Expr)
  | [] => none
  | ⟨.openBracket, p⟩ :: rest =>
    if BinaryOperation.leftPower .element < power then none
    else some ((r.read (BinaryOperation.rightPower .element) rest).bind fun read =>
      (closeBracket read.2).map fun rest => (.binary .element left read.1 p, rest))
  | ⟨.is, p⟩ :: rest =>
    if testPower < power then none
    else some ((nullTest rest).map fun read => (.unary read.1 left p, read.2))
  | ⟨sign, p⟩ :: rest =>
    match binaryAhead? (⟨sign, p⟩ :: rest) with
    | none => none
    | some (op, rest) =>
      if op.leftPower < power then none
      else some ((r.read op.rightPower rest).map fun read => (.binary op left read.1 p, read.2))

theorem closeParenthesis_lt {tokens rest : List (Placed Sign)}
    (h : closeParenthesis tokens = .ok rest) : rest.length < tokens.length := by
  unfold closeParenthesis at h
  split at h
  · cases h
  · split at h <;> cases h
    simp

theorem closeBracket_lt {tokens rest : List (Placed Sign)}
    (h : closeBracket tokens = .ok rest) : rest.length < tokens.length := by
  unfold closeBracket at h
  split at h
  · cases h
  · split at h <;> cases h
    simp

/-- Reading arguments leaves fewer tokens. -/
theorem arguments_lt {r : Reader} {tokens rest : List (Placed Sign)} {args : List Expr}
    (h : arguments r tokens = .ok (args, rest)) : rest.length < tokens.length := by
  fun_induction arguments r tokens generalizing args rest with
  | case1 => cases h
  | case2 tokens first p more hread _ ih =>
    obtain ⟨⟨others, rest'⟩, hmore, heq⟩ := of_map_ok h
    cases heq
    have hrest : rest'.length < more.length := ih hmore
    have := r.shrinks hread
    simp only [List.length_cons] at this
    exact Nat.lt_trans hrest (by omega)
  | case3 tokens first rest' hread =>
    obtain ⟨rest'', hclose, heq⟩ := of_map_ok h
    cases heq
    have := closeParenthesis_lt hclose
    have := r.shrinks hread
    omega

/-- Reading an operand leaves fewer tokens. -/
theorem operand_lt {r : Reader} {tokens rest : List (Placed Sign)} {e : Expr}
    (h : operand r tokens = .ok (e, rest)) : rest.length < tokens.length := by
  unfold operand at h
  split at h
  all_goals try (cases h; done)
  · cases h; simp
  · cases h; simp; omega
  · obtain ⟨⟨args, rest'⟩, hargs, heq⟩ := of_map_ok h
    cases heq
    have := arguments_lt hargs
    simp only [List.length_cons]
    omega
  · cases h; simp
  · obtain ⟨⟨inner, rest'⟩, hread, hclose⟩ := of_bind_ok h
    obtain ⟨rest'', hclose, heq⟩ := of_map_ok hclose
    cases heq
    have hclosed : rest.length < rest'.length := closeParenthesis_lt hclose
    have := r.shrinks hread
    simp only [List.length_cons]
    omega
  · obtain ⟨⟨inner, rest'⟩, hread, heq⟩ := of_map_ok h
    cases heq
    have := r.shrinks hread
    simp only [List.length_cons]
    omega
  · have := r.shrinks h
    simp only [List.length_cons]
    omega
  · obtain ⟨⟨inner, rest'⟩, hread, heq⟩ := of_map_ok h
    cases heq
    have := r.shrinks hread
    simp only [List.length_cons]
    omega

theorem nullTest_lt {tokens rest : List (Placed Sign)} {op : UnaryOperation}
    (h : nullTest tokens = .ok (op, rest)) : rest.length < tokens.length := by
  unfold nullTest at h
  split at h <;> cases h <;> simp only [List.length_cons] <;> omega

theorem binaryAhead?_lt {tokens rest : List (Placed Sign)} {op : BinaryOperation}
    (h : binaryAhead? tokens = some (op, rest)) : rest.length < tokens.length := by
  unfold binaryAhead? at h
  split at h <;> cases h <;> simp only [List.length_cons] <;> omega

/-- Extending an expression once leaves fewer tokens. -/
theorem extendOnce_lt {r : Reader} {power : Nat} {left e : Expr}
    {tokens rest : List (Placed Sign)}
    (h : extendOnce r power left tokens = some (.ok (e, rest))) : rest.length < tokens.length := by
  unfold extendOnce at h
  split at h
  · cases h
  · split at h
    · cases h
    · obtain ⟨⟨index, rest'⟩, hread, hclose⟩ := of_bind_ok (Option.some.inj h)
      obtain ⟨rest'', hclose, heq⟩ := of_map_ok hclose
      cases heq
      have hclosed : rest.length < rest'.length := closeBracket_lt hclose
      have := r.shrinks hread
      simp only [List.length_cons]
      omega
  · split at h
    · cases h
    · obtain ⟨⟨op, rest'⟩, htest, heq⟩ := of_map_ok (Option.some.inj h)
      cases heq
      have := nullTest_lt htest
      simp only [List.length_cons]
      omega
  · split at h
    · cases h
    · split at h
      · cases h
      · obtain ⟨⟨right, rest'⟩, hread, heq⟩ := of_map_ok (Option.some.inj h)
        cases heq
        have := binaryAhead?_lt ‹_›
        have := r.shrinks hread
        exact Nat.lt_trans ‹_› ‹_›

/-- Extends an expression by all the operations behind it that reach a power. -/
def extend (r : Reader) (power : Nat) (left : Expr) (tokens : List (Placed Sign)) :
    Reading (Placed Sign) Expr :=
  match _ : extendOnce r power left tokens with
  | none => .ok (left, tokens)
  | some (.error s) => .error s
  | some (.ok (e, rest)) => extend r power e rest
termination_by tokens.length
decreasing_by exact extendOnce_lt ‹_›

theorem extend_le {r : Reader} {power : Nat} {left e : Expr} {tokens rest : List (Placed Sign)}
    (h : extend r power left tokens = .ok (e, rest)) : rest.length ≤ tokens.length := by
  fun_induction extend r power left tokens generalizing e rest with
  | case1 => cases h; omega
  | case2 => cases h
  | case3 left tokens e' rest' hstep ih =>
    have := extendOnce_lt hstep
    have := ih h
    omega

def operations (r : Reader) (power : Nat) (tokens : List (Placed Sign)) :
    Reading (Placed Sign) Expr :=
  (operand r tokens).bind fun read => extend r power read.1 read.2

theorem operations_lt {r : Reader} {power : Nat} {e : Expr} {tokens rest : List (Placed Sign)}
    (h : operations r power tokens = .ok (e, rest)) : rest.length < tokens.length := by
  obtain ⟨⟨first, rest'⟩, hfirst, hextend⟩ := of_bind_ok h
  have := operand_lt hfirst
  have hextended : rest.length ≤ rest'.length := extend_le hextend
  omega

/-- The reader that may go down a number of levels, itself included. -/
def reader : Nat → Reader
  | 0 => ⟨fun _ tokens => .error ⟨.nestingTooDeep levels, tokens⟩, fun h => by cases h⟩
  | depth + 1 => ⟨operations (reader depth), operations_lt⟩

/-- The expression that all tokens together write. No tokens write no expression. -/
def ofSigns (tokens : List (Placed Sign)) : Except (Stuck (Placed Sign)) (Option Expr) :=
  if tokens.isEmpty then .ok none
  else
    match (reader levels).read 0 tokens with
    | .error s => .error s
    | .ok (e, []) => .ok (some e)
    | .ok (_, token :: rest) => .error ⟨unexpected token.content, token :: rest⟩

end Expr

end Formulary
