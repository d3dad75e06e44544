import Formulary.Proofs.Expr.Balance
import Formulary.Proofs.Expr.Spacing
import Formulary.Proofs.Strategy.Negating

/-!
# Negated forms

`NOT IN`, `NOT LIKE`, `<>` and `IS NOT NULL` have instructions of their own. Behind the same
operands, such an instruction does what the plain one does with `NOT` behind it, for the program of
every operand leaves a value on the stack or ends with an error. So a negated form is worth as much
as `NOT` in front of the plain form in parentheses, and two texts that write the one and the other
have the same value, or errors that differ in their place alone.
-/

namespace Formulary

namespace Machine

/-- Code in front of any instructions leaves at least so many values on a stack and goes on, or ends
with an error. -/
def Leaves (env : Environment) (code : Program → Program) (stack base : Stack) (count : Nat) :
    Prop :=
  (∃ values : Stack, count ≤ values.length ∧
    ∀ rest, run env (code rest) stack = run env rest (values ++ base)) ∨
  ∃ e, ∀ rest, run env (code rest) stack = .error e

variable {env : Environment} {code : Program → Program} {stack base : Stack} {m n : Nat}

theorem Leaves.andThen (h : Leaves env code stack base m) (next : Program → Program)
    (hnext : ∀ values, m ≤ values.length → Leaves env next (values ++ base) base n) :
    Leaves env (code ∘ next) stack base n := by
  rcases h with ⟨values, hcount, hrun⟩ | ⟨e, herror⟩
  · rcases hnext values hcount with ⟨others, hothers, hnextRun⟩ | ⟨e, herror⟩
    · exact .inl ⟨others, hothers, fun rest => (hrun (next rest)).trans (hnextRun rest)⟩
    · exact .inr ⟨e, fun rest => (hrun (next rest)).trans (herror rest)⟩
  · exact .inr ⟨e, fun rest => herror (next rest)⟩

/-- What one code leaves on the stack is still there behind the next. -/
theorem Leaves.both (h : Leaves env code stack stack m) {next : Program → Program}
    (hnext : ∀ stack, Leaves env next stack stack n) :
    Leaves env (code ∘ next) stack stack (n + m) := by
  refine h.andThen next fun values hcount => ?_
  rcases hnext (values ++ stack) with ⟨others, hothers, hrun⟩ | herror
  · refine .inl ⟨others ++ values, ?_, fun rest => ?_⟩
    · rw [List.length_append]
      exact Nat.add_le_add hothers hcount
    · rw [hrun, List.append_assoc]
  · exact .inr herror

theorem leaves_instruction {instruction : Placed Instruction}
    (h : ∀ after, step env stack instruction = .ok after →
      ∃ values, n ≤ values.length ∧ after = values ++ base) :
    Leaves env (instruction :: ·) stack base n := by
  cases hstep : step env stack instruction with
  | error e => exact .inr ⟨e, fun rest => by rw [run_cons, hstep]; rfl⟩
  | ok after =>
    obtain ⟨values, hcount, rfl⟩ := h after hstep
    exact .inl ⟨values, hcount, fun rest => by rw [run_cons, hstep]; rfl⟩

theorem exists_of_push {result : Except EvalError Value} {after : Stack}
    (h : push stack result = .ok after) : ∃ v, after = v :: stack := by
  cases result with
  | error e => cases h
  | ok v => exact ⟨v, (Except.ok.inj h).symm⟩

/-- The number that is written in front of a call is not more than the number of arguments. -/
theorem toNat_toInt_ofNat_le (count : Nat) : (Int32.ofNat count).toInt.toNat ≤ count := by
  have hsize : (Int32.size : Int) = 2 ^ 32 := rfl
  rw [Int32.toInt_ofNat', Int.bmod_def, hsize]
  split <;> omega

/-- A call behind its arguments takes no more than these and leaves its result. -/
theorem exists_of_call {s : Strategy} {body : FunctionBody} {p : Position} {values after : Stack}
    (hcount : n ≤ values.length)
    (h : call s body p (.integer (Int32.ofNat n) :: (values ++ base)) = .ok after) :
    ∃ others : Stack, 1 ≤ others.length ∧ after = others ++ base := by
  simp only [call, Value.int32?] at h
  split at h
  · cases h
  · split at h
    · cases h
    · obtain ⟨v, rfl⟩ := exists_of_push h
      have htaken : (Int32.ofNat n).toInt.toNat ≤ values.length :=
        (toNat_toInt_ofNat_le n).trans hcount
      refine ⟨v :: values.drop (Int32.ofNat n).toInt.toNat, Nat.le_add_left 1 _, ?_⟩
      rw [List.drop_append_of_le_length htaken, List.cons_append]

end Machine

namespace Expr

open Machine

variable {env : Environment}

mutual

/-- The program of an expression leaves a value, however many arguments its calls have. -/
theorem leaves_compile (stack : Stack) :
    ∀ e : Expr, Leaves env (e.compile ·) stack stack 1
  | constant v p => .inl ⟨[v], Nat.le_refl 1, fun _ => rfl⟩
  | reference name p => leaves_instruction fun after h => by
    obtain ⟨v, rfl⟩ := exists_of_push h
    exact ⟨[v], Nat.le_refl 1, rfl⟩
  | call name args p => by
    refine (leaves_compileAll stack args).andThen
      (argumentCount args.length p :: ⟨.call name, p⟩ :: ·) fun values hcount => ?_
    have hcall : Leaves env (⟨.call name, p⟩ :: ·)
        (.integer (Int32.ofNat args.length) :: (values ++ stack)) stack 1 := by
      refine leaves_instruction fun after h => ?_
      rw [step_call] at h
      cases hbody : env.body name p with
      | error e =>
        rw [hbody] at h
        cases h
      | ok body =>
        rw [hbody] at h
        exact exists_of_call hcount h
    exact hcall
  | unary op operand p => by
    refine (leaves_compile stack operand).andThen (⟨.unary op, p⟩ :: ·) ?_
    rintro (_ | ⟨v, values⟩) hcount
    · cases hcount
    · refine leaves_instruction fun after h => ?_
      obtain ⟨w, rfl⟩ := exists_of_push h
      exact ⟨w :: values, hcount, rfl⟩
  | binary op left right p => by
    refine ((leaves_compile stack left).both fun stack => leaves_compile stack right).andThen
      (⟨.binary op, p⟩ :: ·) ?_
    rintro (_ | ⟨r, _ | ⟨l, values⟩⟩) hcount
    · cases hcount
    · cases Nat.le_of_succ_le_succ hcount
    · refine leaves_instruction fun after h => ?_
      obtain ⟨w, rfl⟩ := exists_of_push h
      exact ⟨w :: values, Nat.le_add_left 1 _, rfl⟩

/-- The programs of expressions leave a value each. -/
theorem leaves_compileAll (stack : Stack) :
    ∀ args : List Expr, Leaves env (compileAll · args) stack stack args.length
  | [] => .inl ⟨[], Nat.le_refl 0, fun _ => rfl⟩
  | e :: others =>
    (leaves_compile stack e).both fun stack => leaves_compileAll stack others

end

/-- A negated form, and the plain form of which it is the opposite. -/
inductive Denies : Expr → Expr → Prop
  | binary {op plain left right p q} (h : BinaryOperation.denied? op = some plain) :
    Denies (.binary op left right p) (.binary (.operator plain) left right q)
  | isNotNull {operand p q} : Denies (.unary .isNotNull operand p) (.unary .isNull operand q)

/-- On two operands, a negated operation does what the plain one does with a negation behind it. -/
theorem run_denied {op : BinaryOperation} {plain : Operator} (hop : op.denied? = some plain)
    {c : Coercion} (henv : env.strategy = c.strategy) (p q r : Position) (left right : Value)
    (below : Stack) :
    run env [⟨.binary op, p⟩] (right :: left :: below) =
      run env [⟨.binary (.operator plain), q⟩, ⟨.unary .not, r⟩] (right :: left :: below) := by
  have hstep (op : BinaryOperation) (p : Position) :
      step env (right :: left :: below) ⟨.binary op, p⟩ =
        push below (op.apply c.strategy left right) := henv ▸ rfl
  have hnot (v : Value) :
      step env (v :: below) ⟨.unary .not, r⟩ = push below (c.strategy.not v) := henv ▸ rfl
  rw [run_cons, run_cons, hstep, hstep, c.apply_denied hop]
  show _ = (push below (plain.apply c.strategy left right)).bind _
  cases plain.apply c.strategy left right with
  | error e => rfl
  | ok v => exact congrArg (Except.bind · (run env [])) (hnot v).symm

/-- A value is tested the other way round by the test with a negation behind it. -/
theorem run_isNotNull {c : Coercion} (henv : env.strategy = c.strategy) (p q r : Position)
    (v : Value) (below : Stack) :
    run env [⟨.unary .isNotNull, p⟩] (v :: below) =
      run env [⟨.unary .isNull, q⟩, ⟨.unary .not, r⟩] (v :: below) := by
  have hnot (b : Bool) :
      step env (.boolean b :: below) ⟨.unary .not, r⟩ = push below (.ok (.boolean !b)) := by
    show push below (env.strategy.not (.boolean b)) = _
    rw [henv]
    rfl
  exact congrArg (Except.bind · (run env [])) (hnot v.isNull).symm

/-- A negated form runs as the plain one with a negation behind it. -/
theorem run_denies {short plain : Expr} (h : Denies short plain) {c : Coercion}
    (henv : env.strategy = c.strategy) (r : Position) :
    run env short.program [] = run env (Expr.unary .not plain r).program [] := by
  cases h with
  | @binary op plain left right p q hop =>
    have hoperands : Leaves env ((left.compile ·) ∘ (right.compile ·)) [] [] 2 :=
      (leaves_compile [] left).both fun stack => leaves_compile stack right
    rcases hoperands with ⟨_ | ⟨y, _ | ⟨x, below⟩⟩, hcount, hrun⟩ | ⟨e, herror⟩
    · cases hcount
    · cases Nat.le_of_succ_le_succ hcount
    · exact (hrun _).trans ((run_denied hop henv p q r x y _).trans (hrun _).symm)
    · exact (herror _).trans (herror _).symm
  | @isNotNull operand p q =>
    have hoperand : Leaves env (operand.compile ·) [] [] 1 := leaves_compile [] operand
    rcases hoperand with ⟨_ | ⟨v, below⟩, hcount, hrun⟩ | ⟨e, herror⟩
    · cases hcount
    · exact (hrun _).trans ((run_isNotNull henv p q r v _).trans (hrun _).symm)
    · exact (herror _).trans (herror _).symm

/-- The program of an expression never ends without a value. -/
theorem run_program_ne_nil (env : Environment) (e : Expr) : run env e.program [] ≠ .ok [] := by
  have hleaves : Leaves env (e.compile ·) [] [] 1 := leaves_compile [] e
  intro h
  rcases hleaves with ⟨values, hcount, hrun⟩ | ⟨x, herror⟩
  · have hvalues : values ++ [] = [] := Except.ok.inj ((hrun []).symm.trans h)
    rw [List.append_nil] at hvalues
    rw [hvalues] at hcount
    cases hcount
  · cases (herror []).symm.trans h

theorem isEmpty_program (e : Expr) : e.program.isEmpty = false := by
  rw [← Bool.not_eq_true, List.isEmpty_iff]
  intro h
  have hrun := run_program_ne_nil ⟨.empty, .empty, .strict⟩ e
  rw [h] at hrun
  exact hrun rfl

/-- A negated form is worth as much as a negation of the plain one, and has the same errors. -/
theorem evaluate_program_denies {short plain : Expr} (h : Denies short plain) {c : Coercion}
    (henv : env.strategy = c.strategy) (r : Position) :
    short.program.evaluate env = (Expr.unary .not plain r).program.evaluate env := by
  rw [Program.evaluate, Program.evaluate, isEmpty_program, isEmpty_program, run_denies h henv r]

end Expr

/-! Phrases and texts -/

namespace Phrase

/-- A negated form, and the plain form of which it is the opposite, with any places. -/
inductive Denies : Phrase → Phrase → Prop
  | notMember {left right p second q} :
    Denies (.joined left (.notMember p second) right) (.joined left (.operator .member q) right)
  | notLike {left right p second q} :
    Denies (.joined left (.notLike p second) right) (.joined left (.operator .like q) right)
  | notEqual {left right p q} :
    Denies (.joined left (.operator .notEqual p) right) (.joined left (.operator .equal q) right)
  | isNotNull {operand p negation null q other} :
    Denies (.test operand (.isNotNull p negation null)) (.test operand (.isNull q other))

def negated (place opened closed : Position) (phrase : Phrase) : Phrase :=
  .front .not place (.group opened phrase closed)

theorem Denies.tree {short plain : Phrase} (h : Denies short plain) :
    Expr.Denies short.tree plain.tree := by
  cases h with
  | notMember | notLike | notEqual => exact .binary rfl
  | isNotNull => exact .isNotNull

/-- The powers group a negated form as they group the plain one. -/
theorem Denies.clear_eq {short plain : Phrase} (h : Denies short plain) (power : Nat) :
    short.clear power = plain.clear power := by
  cases h <;> rfl

theorem Denies.nesting_eq {short plain : Phrase} (h : Denies short plain) :
    short.nesting = plain.nesting := by
  cases h <;> rfl

end Phrase

namespace Formula

/-- The tokens of a formula are those of a phrase, whatever their places are. -/
def Writes (f : Formula) (phrase : Phrase) : Prop :=
  f.signs.map (·.content) = phrase.tokens.map (·.content)

theorem map_places_token (tokens : List (Placed Sign)) :
    tokens.map Blur.places.token = (tokens.map (·.content)).map (⟨·, .first⟩) := by
  rw [List.map_map]
  refine List.map_congr_left fun ⟨sign, p⟩ _ => ?_
  cases sign <;> rfl

section Writing

variable {text : String} {f : Formula} {phrase : Phrase}

/-- A text with the tokens of a clear phrase is read as its expression, up to places. -/
theorem tree_of_writes (hread : read text = .ok f) (hwrites : f.Writes phrase)
    (hclear : phrase.clear 0 = true) :
    ∃ e, f.tree = some e ∧ Blur.places.expr e = Blur.places.expr phrase.tree := by
  have htree := (of_read hread).1
  have htokens : f.signs.map Blur.places.token = phrase.tokens.map Blur.places.token := by
    rw [map_places_token, map_places_token, hwrites]
  have hsame : Blur.places.outcome (Option.map Blur.places.expr) (Expr.ofSigns f.signs) =
      Blur.places.outcome (Option.map Blur.places.expr) (Expr.ofSigns phrase.tokens) := by
    rw [← Expr.ofSigns_blur, ← Expr.ofSigns_blur, htokens]
  by_cases hnesting : phrase.nesting ≤ Expr.levels
  · rw [htree, (Expr.ofSigns_attains hclear).reached hnesting] at hsame
    exact Option.map_eq_some_iff.mp (Except.ok.inj hsame)
  · obtain ⟨left, hdeep⟩ := (Expr.ofSigns_attains hclear).exhausted hnesting
    rw [htree, hdeep] at hsame
    cases hsame

/-- A text with the tokens of a clear phrase is worth what its expression is, up to the place of an
error. -/
theorem evaluate_of_writes (hread : read text = .ok f) (hwrites : f.Writes phrase)
    (hclear : phrase.clear 0 = true) (env : Environment) :
    (f.evaluate env).mapError Blur.places.error =
      (phrase.tree.program.evaluate env).mapError Blur.places.error := by
  obtain ⟨e, htree, hsame⟩ := tree_of_writes hread hwrites hclear
  have hoverlooks : env.Overlooks Blur.places := ⟨fun _ => rfl, fun _ => rfl⟩
  calc (f.evaluate env).mapError Blur.places.error
      = (e.program.evaluate env).mapError Blur.places.error := by
        rw [evaluate, program, htree]
        rfl
    _ = ((Blur.places.expr e).program.evaluate env).mapError Blur.places.error := by
        rw [Expr.program_blur, Program.evaluate_blur hoverlooks]
    _ = (phrase.tree.program.evaluate env).mapError Blur.places.error := by
        rw [hsame, Expr.program_blur, Program.evaluate_blur hoverlooks]

end Writing

/-- A text can be read if its tokens mean those of a clear phrase within the levels. -/
theorem exists_read_of_tokens {text : String} {phrase : Phrase} (tokens : List Token)
    (htokens : (tokenize text).toOption.map (fun raw => (splitEnd raw).1) = some tokens)
    (hsigns : Sign.ofTokens tokens = .ok phrase.tokens) (hclear : phrase.clear 0 = true)
    (hnesting : phrase.nesting ≤ Expr.levels) :
    ∃ f, read text = .ok f ∧ f.signs = phrase.tokens := by
  obtain ⟨raw, hraw, hsplit⟩ := Option.map_eq_some_iff.mp htokens
  have hpair : splitEnd raw = (tokens, (splitEnd raw).2) := Prod.ext hsplit rfl
  exact ⟨_, read_of_tokens (ok_of_toOption hraw) hpair hsigns hclear hnesting, rfl⟩

/-- **Negated forms.** `x NOT IN y`, `x NOT LIKE y`, `x <> y` and `x IS NOT NULL`, with any
expressions, have the value or the error of `NOT` in front of the plain form in parentheses,
whatever the variables and functions are, in both strategies. If the powers leave the operands as
they are, both are read the way they are written, levels permitting, and two texts with their
tokens have the same value, or errors that differ in their place alone. `!=` is the same token as
`<>`. -/
theorem evaluate_denies {short plain : Phrase} (h : short.Denies plain)
    (place opened closed : Position) :
    let long := plain.negated place opened closed
    (∀ env : Environment, env.strategy = .lenient ∨ env.strategy = .strict →
      short.tree.program.evaluate env = long.tree.program.evaluate env ∧
      (short.clear 0 = true → ∀ {text other : String} {f g : Formula},
        read text = .ok f → f.Writes short → read other = .ok g → g.Writes long →
        (f.evaluate env).mapError Blur.places.error =
          (g.evaluate env).mapError Blur.places.error)) ∧
    (short.clear 0 = true → long.nesting ≤ Expr.levels →
      Expr.ofSigns short.tokens = .ok (some short.tree) ∧
      Expr.ofSigns long.tokens = .ok (some long.tree)) ∧
    ∀ p, ∀ spelling ∈ ["<>", "!="],
      Sign.ofToken ⟨.symbol, spelling, p⟩ = .ok (.operator .notEqual) := by
  intro long
  have hclear (hshort : short.clear 0 = true) : long.clear 0 = true :=
    (h.clear_eq 0).symm.trans hshort
  refine ⟨fun env hstrategy => ?values, fun hshort hnesting => ?reading, fun p => ?spelling⟩
  case values =>
    obtain ⟨c, hc⟩ : ∃ c : Coercion, env.strategy = c.strategy := by
      rcases hstrategy with hlenient | hstrict
      · exact ⟨Strategy.lenient.toCoercion, hlenient⟩
      · exact ⟨Strategy.strict.toCoercion, hstrict⟩
    have hsame := Expr.evaluate_program_denies h.tree hc place
    refine ⟨hsame, fun hshort text other f g hf hfwrites hg hgwrites => ?_⟩
    rw [evaluate_of_writes hf hfwrites hshort, evaluate_of_writes hg hgwrites (hclear hshort), hsame]
    rfl
  case reading =>
    have hle : short.nesting ≤ Expr.levels := by
      have hlong : long.nesting = short.nesting + 2 := by rw [h.nesting_eq]; rfl
      omega
    exact ⟨(Expr.ofSigns_attains hshort).reached hle,
      (Expr.ofSigns_attains (hclear hshort)).reached hnesting⟩
  case spelling =>
    intro spelling hspelling
    rcases List.mem_pair.mp hspelling with rfl | rfl <;> rfl

/-- `x != y` is worth what `NOT (x = y)` is. -/
theorem evaluate_denies_unequal_names :
    let env : Environment :=
      ⟨(Variables.set .empty "x" (.integer 1)).set "y" (.integer 2), .empty, .strict⟩
    ∃ f g, read "x != y" = .ok f ∧ read "NOT (x = y)" = .ok g ∧
      (f.evaluate env).mapError Blur.places.error =
        (g.evaluate env).mapError Blur.places.error := by
  intro env
  let unequal (p q r : Position) : Phrase :=
    .joined (.reference "x" p) (.operator .notEqual q) (.reference "y" r)
  let plain : Phrase :=
    .joined (.reference "x" ⟨1, 6⟩) (.operator .equal ⟨1, 8⟩) (.reference "y" ⟨1, 10⟩)
  let long := plain.negated ⟨1, 1⟩ ⟨1, 5⟩ ⟨1, 11⟩
  have hdenies : (unequal ⟨1, 6⟩ ⟨1, 8⟩ ⟨1, 10⟩).Denies plain := .notEqual
  have hshort : ∃ f, read "x != y" = .ok f ∧ f.signs = (unequal ⟨1, 1⟩ ⟨1, 3⟩ ⟨1, 6⟩).tokens := by
    refine exists_read_of_tokens [⟨.word, "x", ⟨1, 1⟩⟩, ⟨.symbol, "!=", ⟨1, 3⟩⟩,
      ⟨.word, "y", ⟨1, 6⟩⟩] ?_ rfl rfl (by decide)
    decide +kernel
  have hlong : ∃ g, read "NOT (x = y)" = .ok g ∧ g.signs = long.tokens := by
    refine exists_read_of_tokens [⟨.keyword, "NOT", ⟨1, 1⟩⟩, ⟨.symbol, "(", ⟨1, 5⟩⟩,
      ⟨.word, "x", ⟨1, 6⟩⟩, ⟨.symbol, "=", ⟨1, 8⟩⟩, ⟨.word, "y", ⟨1, 10⟩⟩,
      ⟨.symbol, ")", ⟨1, 11⟩⟩] ?_ rfl rfl (by decide)
    decide +kernel
  obtain ⟨f, hf, hfsigns⟩ := hshort
  obtain ⟨g, hg, hgsigns⟩ := hlong
  have hfwrites : f.Writes (unequal ⟨1, 6⟩ ⟨1, 8⟩ ⟨1, 10⟩) := by
    rw [Writes, hfsigns]
    rfl
  have hgwrites : g.Writes long := congrArg _ hgsigns
  have hvalues := (evaluate_denies hdenies ⟨1, 1⟩ ⟨1, 5⟩ ⟨1, 11⟩).1 env (.inr rfl)
  exact ⟨f, g, hf, hg, hvalues.2 rfl hf hfwrites hg hgwrites⟩

end Formula

end Formulary
