import Formulary.Error
import Formulary.Expr.Environment
import Formulary.Expr.Program

/-!
# The stack machine

The machine takes the instructions of a program one after the other. Each takes its operands from
the stack and leaves its result there. A program that asks for operands that are not there, or
leaves more than one value, is malformed.
-/

namespace Formulary

/-- The values in use, the one on top first. -/
abbrev Stack := List Value

namespace Machine

def push (stack : Stack) (result : Except EvalError Value) : Except Error Stack :=
  match result with
  | .ok v => .ok (v :: stack)
  | .error e => .error (.eval e)

/-- Calls a function on as many values as the number on top says, the one on top of them last. -/
def call (s : Strategy) (body : FunctionBody) (position : Position) : Stack → Except Error Stack
  | [] => .error (.malformed (.underflow position))
  | count :: stack =>
    match count.int32? with
    | none => .error (.malformed (.noCount position))
    | some n =>
      if n.toInt < 0 then .error (.malformed (.noCount position))
      else if stack.length < n.toInt.toNat then .error (.malformed (.underflow position))
      else
        let args := (stack.take n.toInt.toNat).reverse
        push (stack.drop n.toInt.toNat) (body args s)

def step (env : Environment) (stack : Stack) (instruction : Placed Instruction) :
    Except Error Stack :=
  let underflow := .error (.malformed (.underflow instruction.position))
  match instruction.content with
  | .constant v => .ok (v :: stack)
  | .reference name => push stack (env.value name instruction.position)
  | .call name =>
    match env.body name instruction.position with
    | .ok body => call env.strategy body instruction.position stack
    | .error e => .error (.eval e)
  | .unary op =>
    match stack with
    | v :: rest => push rest (op.apply env.strategy v)
    | [] => underflow
  | .binary op =>
    match stack with
    | right :: left :: rest => push rest (op.apply env.strategy left right)
    | _ => underflow

def run (env : Environment) (program : Program) (stack : Stack) : Except Error Stack :=
  program.foldlM (step env) stack

variable {env : Environment} {stack : Stack}

theorem step_call (name : String) (p : Position) :
    step env stack ⟨.call name, p⟩ =
      match env.body name p with
      | .ok body => call env.strategy body p stack
      | .error e => .error (.eval e) := rfl

theorem run_cons (instruction : Placed Instruction) (rest : Program) :
    run env (instruction :: rest) stack = (step env stack instruction).bind (run env rest) := rfl

end Machine

/-- The value that a program computes. The empty program computes no value. -/
def Program.evaluate (env : Environment) (program : Program) : Except Error Value :=
  if program.isEmpty then .ok .null
  else
    match Machine.run env program [] with
    | .error e => .error e
    | .ok [v] => .ok v
    | .ok stack => .error (.malformed (.leftover stack.length))

end Formulary
