import Formulary.Formula
import Formulary.Proofs.Expr.Reading

/-!
# What reading and evaluating overlook

Reading does not look at how a name is spelled or at where a token stands. With names and places
replaced, the same expression is read up to names and places, or reading gets stuck at the same
token with the same fault. Evaluating looks a name up, so names may be replaced by those that are
found alike.
-/

namespace Formulary

/-- Outcomes that are the same up to what is overlooked are both successes or both failures. -/
theorem of_map_mapError_eq {ε δ α β : Type} {f : α → β} {g : ε → δ} {x y : Except ε α}
    (h : (x.map f).mapError g = (y.map f).mapError g) :
    (∃ a b, x = .ok a ∧ y = .ok b ∧ f a = f b) ∨
      ∃ e e', x = .error e ∧ y = .error e' ∧ g e = g e' := by
  cases x with
  | ok a =>
    cases y with
    | ok b => exact .inl ⟨a, b, rfl, rfl, Except.ok.inj h⟩
    | error e => cases h
  | error e =>
    cases y with
    | ok b => cases h
    | error e' => exact .inr ⟨e, e', rfl, rfl, Except.error.inj h⟩

theorem of_map_eq {ε α β : Type} {f : α → β} {x y : Except ε α} (h : x.map f = y.map f) :
    (∃ a b, x = .ok a ∧ y = .ok b ∧ f a = f b) ∨ ∃ e, x = .error e ∧ y = .error e := by
  rcases of_map_mapError_eq (congrArg (Except.mapError id) h) with hread | ⟨e, _, rfl, rfl, rfl⟩
  · exact .inl hread
  · exact .inr ⟨e, rfl, rfl⟩

/-- A way to overlook the case of letters in names and where tokens stand: a spelling that stands
for all that count as the same, and so for places. -/
structure Blur where
  spell : String → String
  move : Position → Position
  spell_spell : ∀ name, spell (spell name) = spell name
  move_move : ∀ place, move (move place) = move place
  equal_spell : ∀ name, Text.equalIgnoringCase (spell name).toList name.toList = true

namespace Blur

variable (g : Blur)

def token : Placed Sign → Placed Sign
  | ⟨.name word, p⟩ => ⟨.name (g.spell word), g.move p⟩
  | ⟨sign, p⟩ => ⟨sign, g.move p⟩

def instruction : Placed Instruction → Placed Instruction
  | ⟨.reference name, p⟩ => ⟨.reference (g.spell name), g.move p⟩
  | ⟨.call name, p⟩ => ⟨.call (g.spell name), g.move p⟩
  | ⟨instruction, p⟩ => ⟨instruction, g.move p⟩

def program (program : Program) : Program := program.map g.instruction

mutual

def expr : Expr → Expr
  | .constant v p => .constant v (g.move p)
  | .reference name p => .reference (g.spell name) (g.move p)
  | .call name args p => .call (g.spell name) (exprs args) (g.move p)
  | .unary op operand p => .unary op (expr operand) (g.move p)
  | .binary op left right p => .binary op (expr left) (expr right) (g.move p)

def exprs : List Expr → List Expr
  | [] => []
  | e :: others => expr e :: exprs others

end

def stuck (s : Stuck (Placed Sign)) : Stuck (Placed Sign) := ⟨s.fault, s.rest.map g.token⟩

def outcome {α : Type} (f : α → α) (x : Except (Stuck (Placed Sign)) α) :
    Except (Stuck (Placed Sign)) α :=
  (x.map f).mapError g.stuck

abbrev reading {α : Type} (f : α → α) : Reading (Placed Sign) α → Reading (Placed Sign) α :=
  g.outcome fun read => (f read.1, read.2.map g.token)

def defect : Defect → Defect
  | .underflow p => .underflow (g.move p)
  | .noCount p => .noCount (g.move p)
  | .leftover count => .leftover count

/-- An error of evaluation with the name that it mentions and its place replaced. -/
def evalError : EvalError → EvalError
  | .unresolvedVariable name p => .unresolvedVariable (g.spell name) (g.move p)
  | .unknownFunction name p => .unknownFunction (g.spell name) (g.move p)
  | e => e

/-- An error of reading characters with the number that it quotes and its place replaced. -/
def lexError : LexError → LexError
  | .unterminatedQuote p => .unterminatedQuote (g.move p)
  | .unterminatedComment p => .unterminatedComment (g.move p)
  | .invalidNumber text p => .invalidNumber (g.spell text) (g.move p)
  | .missingSymbolState p => .missingSymbolState (g.move p)

def fault : ParseFault → ParseFault
  | .unknownSymbol text => .unknownSymbol (g.spell text)
  | fault => fault

def error : Error → Error
  | .lex e => .lex (g.lexError e)
  | .parse e => .parse ⟨g.fault e.fault, g.move e.position⟩
  | .eval e => .eval (g.evalError e)
  | .malformed defect => .malformed (g.defect defect)

variable {g : Blur} {α β : Type}

theorem outcome_map {f : α → α} {f' : β → β} {k k' : α → β} (x : Except (Stuck (Placed Sign)) α)
    (h : ∀ a, f' (k a) = k' (f a)) : g.outcome f' (x.map k) = (g.outcome f x).map k' := by
  cases x with
  | error s => rfl
  | ok a => exact congrArg Except.ok (h a)

theorem outcome_bind {f : α → α} {f' : β → β} {k k' : α → Except (Stuck (Placed Sign)) β}
    (x : Except (Stuck (Placed Sign)) α) (h : ∀ a, g.outcome f' (k a) = k' (f a)) :
    g.outcome f' (x.bind k) = (g.outcome f x).bind k' := by
  cases x with
  | error s => rfl
  | ok a => exact h a

end Blur

namespace Expr

variable {g : Blur} {r : Reader} {power : Nat}

/-! Reading -/

theorem closeParenthesis_blur (tokens : List (Placed Sign)) :
    closeParenthesis (tokens.map g.token) =
      g.outcome (List.map g.token) (closeParenthesis tokens) := by
  match tokens with
  | [] => rfl
  | ⟨sign, p⟩ :: rest =>
    cases sign <;> rfl

theorem closeBracket_blur (tokens : List (Placed Sign)) :
    closeBracket (tokens.map g.token) = g.outcome (List.map g.token) (closeBracket tokens) := by
  match tokens with
  | [] => rfl
  | ⟨sign, p⟩ :: rest =>
    cases sign <;> rfl

theorem callAhead_blur (tokens : List (Placed Sign)) :
    callAhead (tokens.map g.token) = callAhead tokens := by
  match tokens with
  | [] => rfl
  | ⟨sign, p⟩ :: rest => cases sign <;> rfl

theorem binaryAhead?_blur (tokens : List (Placed Sign)) :
    binaryAhead? (tokens.map g.token) =
      (binaryAhead? tokens).map fun ahead => (ahead.1, ahead.2.map g.token) := by
  match tokens with
  | [] => rfl
  | [⟨sign, p⟩] => cases sign <;> rfl
  | ⟨sign, p⟩ :: ⟨next, q⟩ :: rest =>
    cases sign with
    | not =>
      cases next with
      | operator op => cases op <;> rfl
      | _ => rfl
    | _ => rfl

theorem nullTest_blur (tokens : List (Placed Sign)) :
    nullTest (tokens.map g.token) = g.reading id (nullTest tokens) := by
  match tokens with
  | [] => rfl
  | [⟨sign, p⟩] =>
    cases sign with
    | constant v => cases v <;> rfl
    | _ => rfl
  | ⟨sign, p⟩ :: ⟨next, q⟩ :: rest =>
    cases sign with
    | not =>
      cases next with
      | constant v => cases v <;> rfl
      | _ => rfl
    | constant v => cases v <;> rfl
    | _ => rfl

/-- A reader that overlooks what is replaced. -/
def Reader.Overlooks (r : Reader) (g : Blur) : Prop :=
  ∀ power tokens, r.read power (tokens.map g.token) = g.reading g.expr (r.read power tokens)

theorem arguments_blur (hr : r.Overlooks g) (tokens : List (Placed Sign)) :
    arguments r (tokens.map g.token) = g.reading g.exprs (arguments r tokens) := by
  fun_induction arguments r tokens with
  | case1 tokens s hread =>
    rw [arguments_eq, hr, hread]
    rfl
  | case2 tokens first p more hread _ ih =>
    rw [arguments_eq, hr, hread]
    show (arguments r (more.map g.token)).map _ = _
    rw [ih]
    exact Eq.symm (Blur.outcome_map _ fun read => rfl)
  | case3 tokens first rest hread hcomma =>
    have hlast : arguments r (tokens.map g.token) =
        (closeParenthesis (rest.map g.token)).map fun rest => ([g.expr first], rest) := by
      rw [arguments_eq, hr, hread]
      cases rest with
      | nil => rfl
      | cons token more =>
        obtain ⟨sign, p⟩ := token
        cases sign with
        | comma => exact (hcomma p more hread rfl HEq.rfl).elim
        | _ => rfl
    rw [hlast, closeParenthesis_blur]
    exact Eq.symm (Blur.outcome_map _ fun rest => rfl)

theorem operand_called_blur (hr : r.Overlooks g) (word : String) (p : Position)
    {rest : List (Placed Sign)} (h : callAhead rest = true) :
    operand r (⟨.name (g.spell word), g.move p⟩ :: rest.map g.token) =
      g.reading g.expr (operand r (⟨.name word, p⟩ :: rest)) := by
  have hargs (o : Position) {more : List (Placed Sign)}
      (hmore : ∀ q others, more ≠ ⟨.closeParenthesis, q⟩ :: others)
      (hother : ∀ q others, more.map g.token ≠ ⟨.closeParenthesis, q⟩ :: others) :
      operand r (⟨.name (g.spell word), g.move p⟩ :: ⟨.openParenthesis, g.move o⟩ ::
          more.map g.token) =
        g.reading g.expr (operand r (⟨.name word, p⟩ :: ⟨.openParenthesis, o⟩ :: more)) := by
    rw [operand_call _ _ _ hmore, operand_call _ _ _ hother, arguments_blur hr]
    exact Eq.symm (Blur.outcome_map _ fun read => rfl)
  match rest with
  | [] => cases h
  | ⟨.openParenthesis, o⟩ :: [] => exact hargs o nofun nofun
  | ⟨.openParenthesis, o⟩ :: ⟨sign, q⟩ :: more =>
    cases sign with
    | closeParenthesis => rfl
    | _ => exact hargs o nofun nofun

theorem operand_blur (hr : r.Overlooks g) (tokens : List (Placed Sign)) :
    operand r (tokens.map g.token) = g.reading g.expr (operand r tokens) := by
  match tokens with
  | [] => rfl
  | ⟨sign, p⟩ :: rest =>
    cases sign with
    | name word =>
      cases hcall : callAhead rest with
      | false =>
        have hother : callAhead (rest.map g.token) = false := (callAhead_blur rest).trans hcall
        rw [operand_reference word p hcall]
        exact operand_reference (g.spell word) (g.move p) hother
      | true => exact operand_called_blur hr word p hcall
    | openParenthesis =>
      show (r.read 0 (rest.map g.token)).bind _ = _
      rw [hr]
      refine (Blur.outcome_bind _ fun read => ?_).symm
      rw [closeParenthesis_blur]
      exact Blur.outcome_map _ fun rest => rfl
    | not =>
      show (r.read notPower (rest.map g.token)).map _ = _
      rw [hr]
      exact Eq.symm (Blur.outcome_map _ fun read => rfl)
    | operator op =>
      cases op with
      | add => exact hr unaryPower rest
      | sub =>
        show (r.read unaryPower (rest.map g.token)).map _ = _
        rw [hr]
        exact Eq.symm (Blur.outcome_map _ fun read => rfl)
      | _ => rfl
    | _ => rfl

theorem extendOnce_binary {sign : Sign} (hbracket : sign ≠ .openBracket) (his : sign ≠ .is)
    (left : Expr) (p : Position) (rest : List (Placed Sign)) :
    extendOnce r power left (⟨sign, p⟩ :: rest) =
      (binaryAhead? (⟨sign, p⟩ :: rest)).bind fun ahead =>
        if ahead.1.leftPower < power then none
        else some ((r.read ahead.1.rightPower ahead.2).map fun read =>
          (.binary ahead.1 left read.1 p, read.2)) := by
  rw [extendOnce]
  · cases binaryAhead? (⟨sign, p⟩ :: rest) <;> rfl
  · exact hbracket
  · exact his

theorem extendOnce_binary_blur (hr : r.Overlooks g) {sign : Sign} (hbracket : sign ≠ .openBracket)
    (his : sign ≠ .is) (hsign : ∀ p, g.token ⟨sign, p⟩ = ⟨sign, g.move p⟩) (left : Expr)
    (p : Position) (rest : List (Placed Sign)) :
    extendOnce r power (g.expr left) ((⟨sign, p⟩ :: rest).map g.token) =
      (extendOnce r power left (⟨sign, p⟩ :: rest)).map (g.reading g.expr) := by
  have hahead := binaryAhead?_blur (g := g) (⟨sign, p⟩ :: rest)
  rw [List.map_cons, hsign] at hahead ⊢
  rw [extendOnce_binary hbracket his, extendOnce_binary hbracket his, hahead]
  cases binaryAhead? (⟨sign, p⟩ :: rest) with
  | none => rfl
  | some ahead =>
    dsimp only [Option.map_some, Option.bind_some]
    split
    · rfl
    · rw [hr, Option.map_some]
      exact congrArg some (Eq.symm (Blur.outcome_map _ fun read => rfl))

/-- The operation that extends an expression is found whatever is replaced. -/
theorem extendOnce_blur (hr : r.Overlooks g) (left : Expr) (tokens : List (Placed Sign)) :
    extendOnce r power (g.expr left) (tokens.map g.token) =
      (extendOnce r power left tokens).map (g.reading g.expr) := by
  match tokens with
  | [] => rfl
  | ⟨sign, p⟩ :: rest =>
    cases sign with
    | openBracket =>
      show extendOnce r power (g.expr left) (⟨.openBracket, g.move p⟩ :: rest.map g.token) = _
      rw [extendOnce, extendOnce]
      split
      · rfl
      · rw [hr, Option.map_some]
        refine congrArg some (Blur.outcome_bind _ fun read => ?_).symm
        rw [closeBracket_blur]
        exact Blur.outcome_map _ fun rest => rfl
    | is =>
      show extendOnce r power (g.expr left) (⟨.is, g.move p⟩ :: rest.map g.token) = _
      rw [extendOnce, extendOnce]
      split
      · rfl
      · rw [nullTest_blur, Option.map_some]
        exact congrArg some (Eq.symm (Blur.outcome_map _ fun read => rfl))
    | operator op =>
      exact extendOnce_binary_blur hr Sign.noConfusion Sign.noConfusion (fun _ => rfl) left p rest
    | not =>
      exact extendOnce_binary_blur hr Sign.noConfusion Sign.noConfusion (fun _ => rfl) left p rest
    | _ => rfl

theorem extend_blur (hr : r.Overlooks g) (left : Expr) (tokens : List (Placed Sign)) :
    extend r power (g.expr left) (tokens.map g.token) =
      g.reading g.expr (extend r power left tokens) := by
  fun_induction extend r power left tokens with
  | case1 left tokens hstep =>
    have hother : extendOnce r power (g.expr left) (tokens.map g.token) = _ :=
      extendOnce_blur hr left tokens
    rw [hstep] at hother
    exact extend_of_none hother
  | case2 left tokens s hstep =>
    have hother : extendOnce r power (g.expr left) (tokens.map g.token) = _ :=
      extendOnce_blur hr left tokens
    rw [hstep] at hother
    exact extend_of_error hother
  | case3 left tokens e rest hstep ih =>
    have hother : extendOnce r power (g.expr left) (tokens.map g.token) = _ :=
      extendOnce_blur hr left tokens
    rw [hstep] at hother
    exact (extend_of_ok hother).trans ih

/-- A reader of any depth overlooks what is replaced. -/
theorem reader_overlooks (g : Blur) (depth : Nat) : (reader depth).Overlooks g := by
  induction depth with
  | zero =>
    intro power tokens
    rfl
  | succ depth ih =>
    intro power tokens
    show (operand (reader depth) (tokens.map g.token)).bind _ = _
    rw [operand_blur ih]
    exact (Blur.outcome_bind _ fun read => (extend_blur ih read.1 read.2).symm).symm

/-- Whatever names and places are replaced by, the same is read or gets stuck. -/
theorem ofSigns_blur (g : Blur) (tokens : List (Placed Sign)) :
    ofSigns (tokens.map g.token) = g.outcome (Option.map g.expr) (ofSigns tokens) := by
  rw [ofSigns, ofSigns, List.isEmpty_map]
  split
  · rfl
  · rw [reader_overlooks g levels]
    cases (reader levels).read 0 tokens with
    | error s => rfl
    | ok read =>
      obtain ⟨e, rest⟩ := read
      cases rest with
      | nil => rfl
      | cons token more =>
        obtain ⟨sign, p⟩ := token
        cases sign <;> rfl

/-! Programs -/

theorem length_exprs : ∀ es : List Expr, (g.exprs es).length = es.length
  | [] => rfl
  | _ :: others => congrArg Nat.succ (length_exprs others)

mutual

/-- Names and places can be replaced before compiling or behind it. -/
theorem compile_blur (rest : Program) :
    ∀ e : Expr, (g.expr e).compile (g.program rest) = g.program (e.compile rest)
  | constant .. | reference .. => rfl
  | call name args p => by
    rw [Blur.expr, compile, compile, length_exprs]
    exact compileAll_blur (⟨.constant (.integer (Int32.ofNat args.length)), p⟩ :: ⟨.call name, p⟩ ::
      rest) args
  | unary op operand p => compile_blur (⟨.unary op, p⟩ :: rest) operand
  | binary op left right p => by
    rw [compile, ← compile_blur, ← compile_blur]
    rfl

theorem compileAll_blur (rest : Program) :
    ∀ es : List Expr, compileAll (g.program rest) (g.exprs es) = g.program (compileAll rest es)
  | [] => rfl
  | e :: others => by
    rw [Blur.exprs, compileAll, compileAll, compileAll_blur, compile_blur]

end

theorem program_blur (e : Expr) : (g.expr e).program = g.program e.program := compile_blur [] e

end Expr

/-! Evaluation -/

/-- An environment in which every name is found as the one that stands for it. -/
structure Environment.Overlooks (env : Environment) (g : Blur) : Prop where
  vars : ∀ name, env.vars.get? (g.spell name) = env.vars.get? name
  functions : ∀ name, env.functions.find? (g.spell name) = env.functions.find? name

theorem of_mapError_eq {ε δ α : Type} {f : ε → δ} {x y : Except ε α}
    (h : x.mapError f = y.mapError f) :
    (∃ a, x = .ok a ∧ y = .ok a) ∨ ∃ e e', x = .error e ∧ y = .error e' ∧ f e = f e' := by
  have hmap (x : Except ε α) : x.map id = x := congrFun Except.map_id x
  rw [← hmap x, ← hmap y] at h
  rcases of_map_mapError_eq h with ⟨a, b, rfl, rfl, rfl⟩ | hfailed
  · exact .inl ⟨_, rfl, rfl⟩
  · exact .inr hfailed

namespace Machine

variable {g : Blur} {env : Environment}

theorem push_blur {stack : Stack} {x y : Except EvalError Value}
    (h : x.mapError g.evalError = y.mapError g.evalError) :
    (push stack x).mapError g.error = (push stack y).mapError g.error := by
  rcases of_mapError_eq h with ⟨v, rfl, rfl⟩ | ⟨e, e', rfl, rfl, he⟩
  · rfl
  · exact congrArg (Except.error ∘ Error.eval) he

/-- A variable is found under the name that stands for its own. -/
theorem value_blur (h : env.Overlooks g) (name : String) (p : Position) :
    (env.value (g.spell name) (g.move p)).mapError g.evalError =
      (env.value name p).mapError g.evalError := by
  rw [Environment.value, Environment.value, h.vars]
  cases env.vars.get? name with
  | some v => rfl
  | none =>
    show Except.error (EvalError.unresolvedVariable _ _) = _
    rw [g.spell_spell, g.move_move]
    rfl

theorem body_blur (h : env.Overlooks g) (name : String) (p : Position) :
    (env.body (g.spell name) (g.move p)).mapError g.evalError =
      (env.body name p).mapError g.evalError := by
  rw [Environment.body, Environment.body, h.functions]
  cases env.functions.find? name with
  | some entry => rfl
  | none =>
    show Except.error (EvalError.unknownFunction _ _) = _
    rw [g.spell_spell, g.move_move]
    rfl

theorem error_underflow (p : Position) :
    g.error (.malformed (.underflow (g.move p))) = g.error (.malformed (.underflow p)) :=
  congrArg (Error.malformed ∘ Defect.underflow) (g.move_move p)

theorem error_noCount (p : Position) :
    g.error (.malformed (.noCount (g.move p))) = g.error (.malformed (.noCount p)) :=
  congrArg (Error.malformed ∘ Defect.noCount) (g.move_move p)

theorem call_blur (s : Strategy) (body : FunctionBody) (p : Position) (stack : Stack) :
    (call s body (g.move p) stack).mapError g.error = (call s body p stack).mapError g.error := by
  match stack with
  | [] => exact congrArg Except.error (error_underflow p)
  | count :: stack =>
    rw [call, call]
    split
    · exact congrArg Except.error (error_noCount p)
    · split
      · exact congrArg Except.error (error_noCount p)
      · split
        · exact congrArg Except.error (error_underflow p)
        · rfl

/-- A step on what stands for an instruction is a step on the instruction, up to the error. -/
theorem step_blur (h : env.Overlooks g) (stack : Stack) (instruction : Placed Instruction) :
    (step env stack (g.instruction instruction)).mapError g.error =
      (step env stack instruction).mapError g.error := by
  obtain ⟨content, p⟩ := instruction
  cases content with
  | constant v => rfl
  | reference name => exact push_blur (value_blur h name p)
  | call name =>
    show (step env stack ⟨.call (g.spell name), g.move p⟩).mapError g.error = _
    rw [step_call, step_call]
    rcases of_mapError_eq (body_blur h name p) with
      ⟨body, hother, hbody⟩ | ⟨e, e', hother, hbody, he⟩
    · rw [hother, hbody]
      exact call_blur env.strategy body p stack
    · rw [hother, hbody]
      exact congrArg (Except.error ∘ Error.eval) he
  | unary op =>
    match stack with
    | [] => exact congrArg Except.error (error_underflow p)
    | v :: rest => rfl
  | binary op =>
    match stack with
    | [] | [_] => exact congrArg Except.error (error_underflow p)
    | right :: left :: rest => rfl

/-- A program runs alike whatever is replaced in it. -/
theorem run_blur (h : env.Overlooks g) (program : Program) (stack : Stack) :
    (run env (g.program program) stack).mapError g.error =
      (run env program stack).mapError g.error := by
  induction program generalizing stack with
  | nil => rfl
  | cons instruction rest ih =>
    show (run env (g.instruction instruction :: g.program rest) stack).mapError g.error = _
    rw [run_cons, run_cons]
    rcases of_mapError_eq (step_blur h stack instruction) with
      ⟨after, hother, hstep⟩ | ⟨e, e', hother, hstep, he⟩
    · rw [hother, hstep]
      exact ih after
    · rw [hother, hstep]
      exact congrArg Except.error he

end Machine

/-- A program is worth the same with the names that stand for its own, up to the error. -/
theorem Program.evaluate_blur {g : Blur} {env : Environment} (h : env.Overlooks g)
    (program : Program) : ((g.program program).evaluate env).mapError g.error =
      (program.evaluate env).mapError g.error := by
  rw [evaluate, evaluate, Blur.program, List.isEmpty_map]
  split
  · rfl
  · rcases of_mapError_eq (Machine.run_blur h program []) with
      ⟨stack, hother, hrun⟩ | ⟨e, e', hother, hrun, he⟩
    · rw [Blur.program] at hother
      rw [hother, hrun]
    · rw [Blur.program] at hother
      rw [hother, hrun]
      exact congrArg Except.error he

end Formulary
