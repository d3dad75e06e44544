import Formulary.Calculator
import Formulary.Expr.Meaning
import Formulary.Proofs.Expr.Counting

/-!
# The stack machine computes the meaning

The program of an expression in front of other instructions leaves the value of the expression on
the stack and goes on with them, or ends with the error of the expression. The only thing asked of
the expression is that the number of arguments of every call can be written in front of it, and
every expression that is read from fewer than `2 ^ 31` tokens is of that kind.
-/

namespace Formulary

namespace Machine

variable (env : Environment) (rest : Program) (stack : Stack)

/-- A call takes its arguments from the stack in the order in which they were put there. -/
theorem call_reverse (s : Strategy) (body : FunctionBody) (p : Position) (values : List Value)
    (h : values.length < 2 ^ 31) :
    call s body p (.integer (Int32.ofNat values.length) :: (values.reverse ++ stack)) =
      push stack (body values s) := by
  have hcount : (Int32.ofNat values.length).toInt = values.length := Int32.toInt_ofNat_of_lt h
  have hnonneg : ¬ (values.length : Int) < 0 := by omega
  have henough : ¬ (values.reverse ++ stack).length < values.length := by
    rw [List.length_append, List.length_reverse]
    omega
  have htake : (values.reverse ++ stack).take values.length = values.reverse := by
    rw [← List.length_reverse, List.take_left]
  have hdrop : (values.reverse ++ stack).drop values.length = stack := by
    rw [← List.length_reverse, List.drop_left]
  simp only [call, Value.int32?, hcount, Int.toNat_natCast, if_neg hnonneg, if_neg henough, htake,
    hdrop, List.reverse_reverse]

/-- A call behind its arguments and their number looks up the function and applies it to them. -/
theorem run_call (name : String) (p : Position) (values : List Value)
    (h : values.length < 2 ^ 31) :
    run env (argumentCount values.length p :: ⟨.call name, p⟩ :: rest) (values.reverse ++ stack) =
      (push stack ((env.body name p).bind fun body => body values env.strategy)).bind
        (run env rest) := by
  rw [argumentCount, run_cons, step, Except.bind, run_cons, step_call]
  cases env.body name p with
  | error x => rfl
  | ok body =>
    rw [Except.bind]
    exact congrArg (Except.bind · (run env rest)) (call_reverse stack env.strategy body p values h)

end Machine

/-- Expressions have as many values as there are expressions, if they have values. -/
theorem Expr.length_evaluateAll {env : Environment} {args : List Expr} {values : List Value}
    (h : evaluateAll env args = .ok values) : values.length = args.length := by
  induction args generalizing values with
  | nil =>
    cases h
    rfl
  | cons e others ih =>
    obtain ⟨v, -, hmore⟩ := of_bind_ok h
    obtain ⟨more, hothers, hvalues⟩ := of_bind_ok hmore
    cases hvalues
    rw [List.length_cons, List.length_cons, ih hothers]

open Machine

mutual

/-- The program of an expression leaves its value on the stack or ends with its error. -/
theorem Expr.run_compile (env : Environment) (rest : Program) (stack : Stack) :
    ∀ e : Expr, e.Countable →
      run env (e.compile rest) stack = (push stack (e.evaluate env)).bind (run env rest)
  | .constant .., _ | .reference .., _ => by rw [Expr.compile, run_cons]; rfl
  | .call name args p, h => by
    -- The function is looked up only when all arguments have their values.
    rw [Expr.compile, Expr.run_compileAll env _ stack args h.2, Expr.evaluate]
    cases hargs : Expr.evaluateAll env args with
    | error x => rfl
    | ok values =>
      have hcount : args.length = values.length := (length_evaluateAll hargs).symm
      have hcall := run_call env rest stack name p values (hcount ▸ h.1)
      rw [← hcount] at hcall
      exact hcall
  | .unary op operand p, h => by
    rw [Expr.compile, operand.run_compile env _ stack h, Expr.evaluate]
    cases operand.evaluate env <;> rfl
  | .binary op left right p, h => by
    rw [Expr.compile, left.run_compile env _ stack h.1, Expr.evaluate]
    cases left.evaluate env with
    | error x => rfl
    | ok l =>
      have hright := right.run_compile env (⟨.binary op, p⟩ :: rest) (l :: stack) h.2
      refine hright.trans ?_
      cases right.evaluate env <;> rfl

/-- The programs of expressions leave their values on the stack, the last on top, or end with the
first error. -/
theorem Expr.run_compileAll (env : Environment) (rest : Program) (stack : Stack) :
    ∀ args : List Expr, Expr.AllCountable args →
      run env (Expr.compileAll rest args) stack =
        match Expr.evaluateAll env args with
        | .ok values => run env rest (values.reverse ++ stack)
        | .error x => .error (.eval x)
  | [], _ => rfl
  | e :: others, h => by
    rw [Expr.compileAll, e.run_compile env _ stack h.1, Expr.evaluateAll]
    cases e.evaluate env with
    | error x => rfl
    | ok v =>
      have hothers := Expr.run_compileAll env rest (v :: stack) others h.2
      refine hothers.trans ?_
      cases Expr.evaluateAll env others with
      | error x => rfl
      | ok values =>
        have hstack : values.reverse ++ v :: stack = (v :: values).reverse ++ stack := by
          rw [List.reverse_cons, List.append_assoc, List.singleton_append]
        exact congrArg (run env rest) hstack

end

/-- The program of an expression computes its meaning. -/
theorem Expr.evaluate_program {e : Expr} (h : e.Countable) (env : Environment) :
    e.program.evaluate env = (e.evaluate env).mapError .eval := by
  have hrun : run env e.program [] = push [] (e.evaluate env) := by
    rw [Expr.program, e.run_compile env [] [] h]
    cases e.evaluate env <;> rfl
  unfold Program.evaluate
  split
  · next hempty =>
    rw [List.isEmpty_iff.mp hempty] at hrun
    cases he : e.evaluate env <;> rw [he] at hrun <;> cases hrun
  · rw [hrun]
    cases e.evaluate env <;> rfl

/-- A calculator answers with the value or the first error of the expression that its formula
writes, and with no value if that is none. This holds as long as the calls have few enough arguments
to be counted, as they have in fewer than `2 ^ 31` tokens. -/
theorem Calculator.evaluateWith_of_ofSigns {tokens : List (Placed Sign)} {tree : Option Expr}
    (h : Expr.ofSigns tokens = .ok tree) :
    (tokens.length < 2 ^ 31 → ∀ e ∈ tree, e.Countable) ∧
    ((∀ e ∈ tree, e.Countable) → ∀ (c : Calculator) (vars : Option Variables)
      (functions : Option Functions), c.formula.tree = tree →
      c.evaluateWith vars functions = Except.mapError .eval
        (tree.elim (.ok .null) fun e =>
          e.evaluate ⟨vars.getD c.vars, functions.getD c.functions, c.strategy⟩)) := by
  constructor
  · rintro hlength e rfl
    exact Expr.countable_of_ofSigns h hlength
  · rintro hcount c vars functions rfl
    unfold Calculator.evaluateWith Formula.evaluate Formula.program
    cases htree : c.formula.tree with
    | none => rfl
    | some e => exact Expr.evaluate_program (hcount e htree) _

/-- Of the two errors in `a + f()`, the first is the answer. -/
theorem Calculator.evaluateWith_first_error :
    let tokens : List (Placed Sign) := [⟨.name "a", ⟨1, 1⟩⟩, ⟨.operator .add, ⟨1, 3⟩⟩,
      ⟨.name "f", ⟨1, 5⟩⟩, ⟨.openParenthesis, ⟨1, 6⟩⟩, ⟨.closeParenthesis, ⟨1, 7⟩⟩]
    let tree : Expr :=
      .binary (.operator .add) (.reference "a" ⟨1, 1⟩) (.call "f" [] ⟨1, 5⟩) ⟨1, 3⟩
    Expr.ofSigns tokens = .ok (some tree) ∧
      evaluateWith ⟨⟨⟨"a + f()", [], tokens, some tree⟩, .empty, true⟩, .empty, .strict⟩ none none =
        .error (.eval (.unresolvedVariable "a" ⟨1, 1⟩)) := by
  intro tokens tree
  have hread : Expr.ofSigns tokens = .ok (some tree) :=
    Expr.ofSigns_eq_some_iff.mpr ⟨.joined (.reference "a" ⟨1, 1⟩) (.operator .add ⟨1, 3⟩)
      (.bareCall "f" ⟨1, 5⟩ ⟨1, 6⟩ ⟨1, 7⟩), by decide, by decide, rfl, rfl⟩
  have hunset : Environment.value ⟨.empty, .empty, .strict⟩ "a" ⟨1, 1⟩ =
      .error (.unresolvedVariable "a" ⟨1, 1⟩) := by
    simp [Environment.value, Variables.get?, Registry.find?, Registry.position?, Registry.empty]
  have hall := evaluateWith_of_ofSigns hread
  refine ⟨hread, ?_⟩
  rw [hall.2 (hall.1 (by decide)) _ none none rfl]
  simp only [Option.elim_some, Option.getD_none, tree, Expr.evaluate, hunset]
  rfl

end Formulary
