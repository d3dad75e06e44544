import Formulary.Expr.Basic
import Formulary.Text.Position

/-!
# Programs

An expression is flattened to a list of instructions for a machine with a stack of values, each
instruction behind those that compute its operands. A call has the number of its arguments as a
constant right in front of it.
-/

namespace Formulary

/-- A step of the stack machine. -/
inductive Instruction
  | constant (value : Value)
  | reference (name : String)
  | call (name : String)
  | unary (op : UnaryOperation)
  | binary (op : BinaryOperation)

/-- Instructions in the order of their execution, each with the place that errors point to. -/
abbrev Program := List (Placed Instruction)

def Program.references (program : Program) : List String :=
  program.filterMap fun instruction =>
    match instruction.content with
    | .reference name => some name
    | _ => none

namespace Expr

mutual

/-- The instructions that compute an expression, in front of others. -/
def compile (rest : Program) : Expr → Program
  | constant v p => ⟨.constant v, p⟩ :: rest
  | reference name p => ⟨.reference name, p⟩ :: rest
  | call name args p =>
    compileAll (⟨.constant (.integer (Int32.ofNat args.length)), p⟩ :: ⟨.call name, p⟩ :: rest) args
  | unary op operand p => operand.compile (⟨.unary op, p⟩ :: rest)
  | binary op left right p => left.compile (right.compile (⟨.binary op, p⟩ :: rest))

def compileAll (rest : Program) : List Expr → Program
  | [] => rest
  | e :: others => e.compile (compileAll rest others)

end

def program (e : Expr) : Program := e.compile []

end Expr

end Formulary
