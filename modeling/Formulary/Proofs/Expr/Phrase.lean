import Formulary.Expr.Binding
import Formulary.Expr.Program
import Formulary.Expr.Sign

/-!
# Phrases

A phrase is a derivation tree of the plain grammar of expressions: any operator may stand in front
of, behind or between any operands, whatever its power. A phrase keeps the place of every token,
and its tokens from left to right are exactly those that it was derived for. Its tree keeps what has
a meaning, and its postorder lists the instructions behind their operands; parentheses, brackets,
commas and plus signs in front leave no trace there.
-/

namespace Formulary

inductive Front
  | plus
  | minus
  | not
deriving DecidableEq, Repr

namespace Front

def sign : Front → Sign
  | plus => .operator .add
  | minus => .operator .sub
  | not => .not

def power : Front → Nat
  | plus | minus => unaryPower
  | not => notPower

/-- The operation that the operator stands for. A plus sign stands for none. -/
def operation? : Front → Option UnaryOperation
  | plus => none
  | minus => some .negative
  | not => some .not

end Front

/-- What stands between two operands, with the place of each word. -/
inductive Link
  | operator (op : Operator) (place : Position)
  | notMember (place second : Position)
  | notLike (place second : Position)
deriving DecidableEq, Repr

namespace Link

def operation : Link → BinaryOperation
  | operator op _ => .operator op
  | notMember .. => .notMember
  | notLike .. => .notLike

def place : Link → Position
  | operator _ p | notMember p _ | notLike p _ => p

def tokens : Link → List (Placed Sign)
  | operator op p => [⟨.operator op, p⟩]
  | notMember p q => [⟨.not, p⟩, ⟨.operator .member, q⟩]
  | notLike p q => [⟨.not, p⟩, ⟨.operator .like, q⟩]

end Link

/-- A test for no value, with the place of each word. -/
inductive Test
  | isNull (place null : Position)
  | isNotNull (place negation null : Position)
deriving DecidableEq, Repr

namespace Test

def operation : Test → UnaryOperation
  | isNull .. => .isNull
  | isNotNull .. => .isNotNull

def place : Test → Position
  | isNull p _ | isNotNull p _ _ => p

def tokens : Test → List (Placed Sign)
  | isNull p q => [⟨.is, p⟩, ⟨.constant .null, q⟩]
  | isNotNull p n q => [⟨.is, p⟩, ⟨.not, n⟩, ⟨.constant .null, q⟩]

end Test

mutual

/-- A derivation tree. The arguments of a call are none or some with commas between them. -/
inductive Phrase
  | constant (value : Value) (place : Position)
  | reference (name : String) (place : Position)
  | bareCall (name : String) (place opened closed : Position)
  | call (name : String) (place opened : Position) (args : Phrases) (closed : Position)
  | group (opened : Position) (inner : Phrase) (closed : Position)
  | front (op : Front) (place : Position) (operand : Phrase)
  | index (target : Phrase) (opened : Position) (position : Phrase) (closed : Position)
  | test (operand : Phrase) (words : Test)
  | joined (left : Phrase) (link : Link) (right : Phrase)

inductive Phrases
  | last (phrase : Phrase)
  | more (phrase : Phrase) (comma : Position) (others : Phrases)

end

mutual

def Phrase.tokens : Phrase → List (Placed Sign)
  | .constant v p => [⟨.constant v, p⟩]
  | .reference name p => [⟨.name name, p⟩]
  | .bareCall name p o c => [⟨.name name, p⟩, ⟨.openParenthesis, o⟩, ⟨.closeParenthesis, c⟩]
  | .call name p o args c =>
    ⟨.name name, p⟩ :: ⟨.openParenthesis, o⟩ :: (args.tokens ++ [⟨.closeParenthesis, c⟩])
  | .group o e c => ⟨.openParenthesis, o⟩ :: (e.tokens ++ [⟨.closeParenthesis, c⟩])
  | .front op p e => ⟨op.sign, p⟩ :: e.tokens
  | .index e o i c => e.tokens ++ ⟨.openBracket, o⟩ :: (i.tokens ++ [⟨.closeBracket, c⟩])
  | .test e words => e.tokens ++ words.tokens
  | .joined l link r => l.tokens ++ (link.tokens ++ r.tokens)

def Phrases.tokens : Phrases → List (Placed Sign)
  | .last e => e.tokens
  | .more e p others => e.tokens ++ ⟨.comma, p⟩ :: others.tokens

end

mutual

def Phrase.tree : Phrase → Expr
  | .constant v p => .constant v p
  | .reference name p => .reference name p
  | .bareCall name p _ _ => .call name [] p
  | .call name p _ args _ => .call name args.trees p
  | .group _ e _ => e.tree
  | .front op p e =>
    match op.operation? with
    | none => e.tree
    | some op => .unary op e.tree p
  | .index e o i _ => .binary .element e.tree i.tree o
  | .test e words => .unary words.operation e.tree words.place
  | .joined l link r => .binary link.operation l.tree r.tree link.place

def Phrases.trees : Phrases → List Expr
  | .last e => [e.tree]
  | .more e _ others => e.tree :: others.trees

end

def Phrases.count : Phrases → Nat
  | .last _ => 1
  | .more _ _ others => others.count + 1

/-- The count that stands in front of a call. -/
def argumentCount (n : Nat) (place : Position) : Placed Instruction :=
  ⟨.constant (.integer (Int32.ofNat n)), place⟩

mutual

/-- The instructions of a phrase, each behind its operands. -/
def Phrase.postorder : Phrase → Program
  | .constant v p => [⟨.constant v, p⟩]
  | .reference name p => [⟨.reference name, p⟩]
  | .bareCall name p _ _ => [argumentCount 0 p, ⟨.call name, p⟩]
  | .call name p _ args _ => args.postorder ++ [argumentCount args.count p, ⟨.call name, p⟩]
  | .group _ e _ => e.postorder
  | .front op p e => e.postorder ++ (op.operation?.map fun op => ⟨.unary op, p⟩).toList
  | .index e o i _ => e.postorder ++ i.postorder ++ [⟨.binary .element, o⟩]
  | .test e words => e.postorder ++ [⟨.unary words.operation, words.place⟩]
  | .joined l link r => l.postorder ++ r.postorder ++ [⟨.binary link.operation, link.place⟩]

def Phrases.postorder : Phrases → Program
  | .last e => e.postorder
  | .more e _ others => e.postorder ++ others.postorder

end

mutual

/-- How many readers are at work at once while a phrase is read: one for the phrase itself, and one
more inside it for an operand of a front operator, a right operand, and whatever stands in
parentheses or brackets or is an argument. A left operand is read by the reader of the whole. -/
def Phrase.nesting : Phrase → Nat
  | .constant .. | .reference .. | .bareCall .. => 1
  | .call _ _ _ args _ => args.nesting + 1
  | .group _ e _ => e.nesting + 1
  | .front _ _ e => e.nesting + 1
  | .index e _ i _ => max e.nesting (i.nesting + 1)
  | .test e _ => e.nesting
  | .joined l _ r => max l.nesting (r.nesting + 1)

def Phrases.nesting : Phrases → Nat
  | .last e => e.nesting
  | .more e _ others => max e.nesting others.nesting

end

@[simp] theorem Phrases.length_trees : ∀ args : Phrases, args.trees.length = args.count
  | .last _ => rfl
  | .more _ _ others => by simp [Phrases.trees, Phrases.count, others.length_trees]

mutual

/-- The tree of a phrase is compiled to its postorder. -/
theorem Phrase.compile_tree (rest : Program) :
    ∀ phrase : Phrase, phrase.tree.compile rest = phrase.postorder ++ rest
  | .constant .. | .reference .. | .bareCall .. => rfl
  | .call _ _ _ args _ => by
    simp [Phrase.tree, Phrase.postorder, Expr.compile, args.compileAll_trees, argumentCount]
  | .group _ e _ => e.compile_tree rest
  | .front op p e => by
    cases op <;> simp [Phrase.tree, Phrase.postorder, Front.operation?, Expr.compile,
      e.compile_tree]
  | .index e _ i _ => by
    simp [Phrase.tree, Phrase.postorder, Expr.compile, e.compile_tree, i.compile_tree]
  | .test e _ => by simp [Phrase.tree, Phrase.postorder, Expr.compile, e.compile_tree]
  | .joined l _ r => by
    simp [Phrase.tree, Phrase.postorder, Expr.compile, l.compile_tree, r.compile_tree]

theorem Phrases.compileAll_trees (rest : Program) :
    ∀ args : Phrases, Expr.compileAll rest args.trees = args.postorder ++ rest
  | .last e => by simp [Phrases.trees, Phrases.postorder, Expr.compileAll, e.compile_tree]
  | .more e _ others => by
    simp [Phrases.trees, Phrases.postorder, Expr.compileAll, e.compile_tree,
      others.compileAll_trees]

end

/-- The program of the expression that a phrase writes is the postorder of the phrase. -/
theorem Phrase.program_tree (phrase : Phrase) : phrase.tree.program = phrase.postorder := by
  rw [Expr.program, phrase.compile_tree, List.append_nil]

mutual

theorem Phrase.nesting_pos : ∀ phrase : Phrase, 0 < phrase.nesting
  | .constant .. | .reference .. | .bareCall .. => Nat.one_pos
  | .call .. | .group .. | .front .. => Nat.succ_pos _
  | .index e _ _ _ => Nat.lt_of_lt_of_le e.nesting_pos (Nat.le_max_left ..)
  | .test e _ => e.nesting_pos
  | .joined l _ _ => Nat.lt_of_lt_of_le l.nesting_pos (Nat.le_max_left ..)

theorem Phrases.nesting_pos : ∀ args : Phrases, 0 < args.nesting
  | .last e => e.nesting_pos
  | .more e _ _ => Nat.lt_of_lt_of_le e.nesting_pos (Nat.le_max_left ..)

end

end Formulary
