import Mathlib.Data.List.Forall2
import Formulary.Calculator
import Formulary.Proofs.Expr.Counting

/-!
# Balanced programs

What a program does to the stack can be told without values: how many there are, and which of them
were just put there as constants. Every instruction of a balanced program finds its operands, a call
finds its own count right on top and as many values below, and a single value is left at the end. A
run of a balanced program has no error but those of its operations, and the program of every formula
is balanced.
-/

namespace Formulary

/-- What is known of the values on the stack, the one on top first: for each, the constant that put
it there, or nothing. -/
abbrev Outline := List (Option (Placed Value))

/-- The outline that an instruction leaves. A call needs a count with its own place on top. -/
def Instruction.effect (place : Position) : Instruction → Outline → Option Outline
  | constant v, outline => some (some ⟨v, place⟩ :: outline)
  | reference _, outline => some (none :: outline)
  | call _, some ⟨.integer n, q⟩ :: outline =>
    if q = place ∧ 0 ≤ n.toInt ∧ n.toInt.toNat ≤ outline.length then
      some (none :: outline.drop n.toInt.toNat)
    else none
  | unary _, _ :: outline => some (none :: outline)
  | binary _, _ :: _ :: outline => some (none :: outline)
  | _, _ => none

/-- A call takes its own count and as many values as the count says. -/
theorem Instruction.effect_call_eq_some_iff {place : Position} {name : String}
    {outline outline' : Outline} :
    (call name).effect place outline = some outline' ↔
      ∃ n below, outline = some ⟨.integer n, place⟩ :: below ∧ 0 ≤ n.toInt ∧
        n.toInt.toNat ≤ below.length ∧ outline' = none :: below.drop n.toInt.toNat := by
  constructor
  · intro h
    unfold effect at h
    split at h
    case h_3 n q below _ =>
      obtain ⟨⟨rfl, hpos, hcount⟩, hout⟩ := Option.ite_none_right_eq_some.mp h
      cases hout
      exact ⟨n, below, rfl, hpos, hcount, rfl⟩
    all_goals contradiction
  · rintro ⟨n, below, rfl, hpos, hcount, rfl⟩
    exact if_pos ⟨rfl, hpos, hcount⟩

namespace Program

/-- The outline that a program leaves, if all its instructions find what they take. -/
def effect (program : Program) (outline : Outline) : Option Outline :=
  program.foldlM (fun outline instruction =>
    instruction.content.effect instruction.position outline) outline

/-- A program that needs nothing on the stack and leaves one value, or is empty. -/
def Balanced (program : Program) : Prop :=
  program = [] ∨ ∃ top, program.effect [] = some [top]

theorem effect_cons (instruction : Placed Instruction) (rest : Program) (outline : Outline) :
    effect (instruction :: rest) outline =
      (instruction.content.effect instruction.position outline).bind (effect rest) := rfl

end Program

namespace Machine

variable {outline outline' : Outline} {stack : Stack}

def Agrees (known : Option (Placed Value)) (v : Value) : Prop :=
  ∀ constant ∈ known, constant.content = v

abbrev Fits (outline : Outline) (stack : Stack) : Prop := List.Forall₂ Agrees outline stack

/-- A stack of a given outline, or the error of an operation. -/
def Safe (outline : Outline) : Except Error Stack → Prop
  | .ok stack => Fits outline stack
  | .error e => ∃ x, e = .eval x

theorem agrees_none (v : Value) : Agrees none v := by
  intro constant h
  cases h

theorem push_safe (h : Fits outline stack) (result : Except EvalError Value) :
    Safe (none :: outline) (push stack result) := by
  cases result with
  | error x => exact ⟨x, rfl⟩
  | ok v => exact .cons (agrees_none v) h

/-- A call finds its arguments below a count that is no more than there are values. -/
theorem call_safe {n : Int32} (s : Strategy) (body : FunctionBody) (p : Position)
    (h : Fits outline stack) (hpos : 0 ≤ n.toInt) (hcount : n.toInt.toNat ≤ outline.length) :
    Safe (none :: outline.drop n.toInt.toNat) (call s body p (.integer n :: stack)) := by
  have hnonneg : ¬ n.toInt < 0 := Int.not_lt.mpr hpos
  have henough : ¬ stack.length < n.toInt.toNat := by
    rw [← h.length_eq]
    exact Nat.not_lt.mpr hcount
  simp only [call, Value.int32?, if_neg hnonneg, if_neg henough]
  exact push_safe (List.forall₂_drop _ h) _

/-- A step ends with the outline of its effect or with the error of an operation. -/
theorem step_safe (env : Environment) {instruction : Placed Instruction}
    (hstack : Fits outline stack)
    (h : instruction.content.effect instruction.position outline = some outline') :
    Safe outline' (step env stack instruction) := by
  obtain ⟨content, p⟩ := instruction
  cases content with
  | constant v =>
    cases h
    exact .cons (by rintro _ ⟨⟩; rfl) hstack
  | reference name =>
    cases h
    exact push_safe hstack _
  | call name =>
    obtain ⟨n, below, rfl, hpos, hcount, rfl⟩ := Instruction.effect_call_eq_some_iff.mp h
    cases hstack with
    | cons hn hrest =>
      obtain rfl := hn _ rfl
      rw [step_call]
      cases env.body name p with
      | error x => exact ⟨x, rfl⟩
      | ok body => exact call_safe env.strategy body p hrest hpos hcount
  | unary op =>
    cases hstack with
    | nil => cases h
    | cons hv hrest =>
      cases h
      exact push_safe hrest _
  | binary op =>
    cases hstack with
    | nil => cases h
    | cons hr hrest =>
      cases hrest with
      | nil => cases h
      | cons hl hrest =>
        cases h
        exact push_safe hrest _

/-- A run ends with the outline of its effect or with the error of an operation. -/
theorem run_safe (env : Environment) {program : Program} (hstack : Fits outline stack)
    (h : program.effect outline = some outline') : Safe outline' (run env program stack) := by
  induction program generalizing outline stack with
  | nil =>
    cases h
    exact hstack
  | cons instruction rest ih =>
    rw [Program.effect_cons] at h
    obtain ⟨between, hfirst, hrest⟩ := Option.bind_eq_some_iff.mp h
    have hstep := step_safe env hstack hfirst
    rw [run, List.foldlM_cons]
    cases hresult : step env stack instruction with
    | error e =>
      rw [hresult] at hstep
      exact hstep
    | ok next =>
      rw [hresult] at hstep
      exact ih hstep hrest

end Machine

/-- A balanced program is never found malformed, whatever its environment. -/
theorem Program.Balanced.evaluate_ne_malformed {program : Program} (h : program.Balanced)
    (env : Environment) (defect : Defect) : program.evaluate env ≠ .error (.malformed defect) := by
  intro hdefect
  unfold Program.evaluate at hdefect
  split at hdefect
  · cases hdefect
  next hnonempty =>
    rcases h with rfl | ⟨top, heffect⟩
    · exact hnonempty rfl
    have hrun := Machine.run_safe env .nil heffect
    cases hresult : Machine.run env program [] with
    | error e =>
      rw [hresult] at hrun hdefect
      obtain ⟨x, rfl⟩ := hrun
      cases hdefect
    | ok stack =>
      rw [hresult] at hrun hdefect
      cases hrun with
      | cons _ hrest =>
        cases hrest
        cases hdefect

namespace Expr

/-- What is known of the value of an expression before it is evaluated. -/
def known : Expr → Option (Placed Value)
  | constant v p => some ⟨v, p⟩
  | _ => none

/-- A call behind its arguments and their number leaves one value in their place. -/
theorem effect_counted_call {n : Nat} {args : Outline} (name : String) (p : Position)
    (rest : Program) (outline : Outline) (hargs : args.length = n) (h : n < 2 ^ 31) :
    Program.effect (argumentCount n p :: ⟨.call name, p⟩ :: rest) (args ++ outline) =
      rest.effect (none :: outline) := by
  have hcount : (Int32.ofNat n).toInt = n := Int32.toInt_ofNat_of_lt h
  have hcall : (Instruction.call name).effect p
      (some ⟨.integer (Int32.ofNat n), p⟩ :: (args ++ outline)) = some (none :: outline) := by
    refine Instruction.effect_call_eq_some_iff.mpr ⟨_, _, rfl, ?_, ?_, ?_⟩
    · omega
    · rw [hcount, List.length_append]
      omega
    · rw [hcount, Int.toNat_natCast, ← hargs, List.drop_left]
  rw [argumentCount, Program.effect_cons, Instruction.effect, Option.bind_some,
    Program.effect_cons, hcall, Option.bind_some]

mutual

/-- The program of an expression takes nothing from the stack and leaves one value. -/
theorem effect_compile (rest : Program) (outline : Outline) :
    ∀ e : Expr, e.Countable → (e.compile rest).effect outline = rest.effect (e.known :: outline)
  | .constant .., _ | .reference .., _ => rfl
  | .call name args p, h => by
    have hknown : (args.map known).reverse.length = args.length := by
      rw [List.length_reverse, List.length_map]
    rw [compile, effect_compileAll _ outline args h.2]
    exact effect_counted_call name p rest outline hknown h.1
  | .unary op operand p, h => by
    rw [compile, operand.effect_compile _ outline h]
    rfl
  | .binary op left right p, h => by
    rw [compile, left.effect_compile _ outline h.1, right.effect_compile _ _ h.2]
    rfl

theorem effect_compileAll (rest : Program) (outline : Outline) :
    ∀ args : List Expr, AllCountable args →
      (compileAll rest args).effect outline = rest.effect ((args.map known).reverse ++ outline)
  | [], _ => rfl
  | e :: others, h => by
    rw [compileAll, e.effect_compile _ outline h.1, effect_compileAll rest _ others h.2,
      List.map_cons, List.reverse_cons, List.append_assoc, List.singleton_append]

end

theorem balanced_program {e : Expr} (h : e.Countable) : e.program.Balanced :=
  .inr ⟨e.known, e.effect_compile [] [] h⟩

end Expr

/-- There are as many signs as tokens. -/
theorem Sign.length_ofTokens {tokens : List Token} {signs : List (Placed Sign)}
    (h : ofTokens tokens = .ok signs) : signs.length = tokens.length := by
  induction tokens generalizing signs with
  | nil =>
    cases h
    rfl
  | cons token rest ih =>
    obtain ⟨sign, -, hmore⟩ := of_bind_ok h
    obtain ⟨more, hrest, hsigns⟩ := of_bind_ok hmore
    cases hsigns
    rw [List.length_cons, List.length_cons, ih hrest]

namespace Formula

variable {text : String} {f : Formula}

/-- A text is read as the phrase that its tokens mean. -/
theorem read_of_tokens {raw tokens : List Token} {place : Position} {phrase : Phrase}
    (htokenize : tokenize text = .ok raw) (hsplit : splitEnd raw = (tokens, place))
    (hsigns : Sign.ofTokens tokens = .ok phrase.tokens) (hclear : phrase.clear 0 = true)
    (hnesting : phrase.nesting ≤ Expr.levels) :
    read text = .ok ⟨text, tokens, phrase.tokens, some phrase.tree⟩ := by
  have hread := (Expr.ofSigns_attains hclear).reached hnesting
  simp only [read, htokenize, bind, Except.bind, hsplit, hsigns, hread, Except.mapError, pure,
    Except.pure]

/-- A text with a token that means nothing is refused for it. -/
theorem read_of_fault {raw tokens : List Token} {place : Position} {e : Error}
    (htokenize : tokenize text = .ok raw) (hsplit : splitEnd raw = (tokens, place))
    (hsigns : Sign.ofTokens tokens = .error e) : read text = .error e := by
  simp only [read, htokenize, bind, Except.bind, hsplit, hsigns]

/-- A formula that is read has the expression of its signs, of which there are as many as tokens. -/
theorem of_read (h : read text = .ok f) :
    Expr.ofSigns f.signs = .ok f.tree ∧ f.signs.length = f.tokens.length := by
  obtain ⟨tokens, -, hsigns⟩ := of_bind_ok h
  obtain ⟨signs, hofTokens, htree⟩ := of_bind_ok hsigns
  obtain ⟨tree, hofSigns, hformula⟩ := of_bind_ok htree
  cases hformula
  refine ⟨?_, Sign.length_ofTokens hofTokens⟩
  cases hresult : Expr.ofSigns signs with
  | error stuck =>
    rw [hresult] at hofSigns
    cases hofSigns
  | ok read =>
    rw [hresult] at hofSigns
    cases hofSigns
    rfl

/-- The program of every formula is balanced, if its tokens can be counted in 32 bits. -/
theorem balanced_program (h : read text = .ok f) (hlength : f.tokens.length < 2 ^ 31) :
    f.program.Balanced := by
  obtain ⟨htree, hsigns⟩ := of_read h
  unfold program
  cases he : f.tree with
  | none => exact .inl rfl
  | some e =>
    rw [he] at htree
    exact Expr.balanced_program (Expr.countable_of_ofSigns htree (hsigns ▸ hlength))

end Formula

/-- The program of a text of fewer than `2 ^ 31` tokens is balanced, and no calculator with its
formula ever answers that the program is malformed, whatever its variables, functions and
strategy are. There are no instructions for brackets, commas or the word `IS` in the first place. -/
theorem Calculator.evaluateWith_ne_malformed {text : String} {f : Formula}
    (h : Formula.read text = .ok f) (hlength : f.tokens.length < 2 ^ 31) :
    f.program.Balanced ∧
    ∀ (c : Calculator) (vars : Option Variables) (functions : Option Functions) (defect : Defect),
      c.formula = f → c.evaluateWith vars functions ≠ .error (.malformed defect) := by
  have hbalanced := Formula.balanced_program h hlength
  refine ⟨hbalanced, ?_⟩
  rintro c vars functions defect rfl
  exact hbalanced.evaluate_ne_malformed _ defect

/-- The five tokens of `-f(x)` make a balanced program. -/
theorem Calculator.evaluateWith_ne_malformed_negated_call :
    ∃ f, Formula.read "-f(x)" = .ok f ∧ f.tokens.length = 5 ∧ f.program.Balanced ∧
      evaluateWith ⟨⟨f, .empty, true⟩, .empty, .strict⟩ none none ≠
        .error (.malformed (.underflow ⟨1, 1⟩)) := by
  have hread : (Formula.read "-f(x)").toOption.any (·.tokens.length == 5) = true := by
    decide +kernel
  obtain ⟨f, hf, htokens⟩ := exists_ok_of_any hread
  have hlength : f.tokens.length = 5 := of_decide_eq_true htokens
  have hall := evaluateWith_ne_malformed hf (by rw [hlength]; decide)
  exact ⟨f, hf, hlength, hall.1, hall.2 _ none none _ rfl⟩

end Formulary
