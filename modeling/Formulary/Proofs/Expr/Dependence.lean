import Formulary.Proofs.Expr.References
import Formulary.Proofs.Library.Discretion

/-!
# What the value of a formula depends on

An instruction looks at the variables only to read the one that it refers to, and ends the run if
that one has no value. So a run depends on the variables that the program refers to and on no
others, a run that comes to its end has found a value for each of them, and the error that a
variable has no value is about one of them, unless a function or an operation makes up such an
error by itself, which those of the library never do.
-/

namespace Formulary

/-- An error that a function or an operation gives by itself. -/
inductive Raises (functions : Functions) (strategy : Strategy) (e : EvalError) : Prop
  | body {entry : Entry FunctionBody} {args : List Value} (known : entry ∈ functions.toList)
    (raised : entry.content args strategy = .error e)
  | unary {op : UnaryOperation} {v : Value} (raised : op.apply strategy v = .error e)
  | binary {op : BinaryOperation} {l r : Value} (raised : op.apply strategy l r = .error e)

def EvalError.isUnresolved : EvalError → Bool
  | unresolvedVariable .. => true
  | _ => false

/-- No function of the library says by itself that a variable has no value. -/
theorem Library.not_raises {s : Strategy} (hs : s.Discreet) (world : Ambient) {e : EvalError}
    (he : e.isUnresolved = true) : ¬ Raises (functions world) s e := by
  have hstructural : e.isStructural = true := by cases e <;> first | rfl | cases he
  have hnot {x : Except EvalError Value} (hx : Discreet x) : x ≠ .error e := fun h => by
    rw [hx e h] at hstructural
    cases hstructural
  intro hraises
  cases hraises with
  | body known raised =>
    obtain ⟨f, hf, hcontent⟩ := content_of_mem_functions known
    rw [hcontent] at raised
    rcases body_error (discreet_builtins hs world f hf) raised with hvalues | ⟨-, hcount⟩
    · rw [hvalues] at hstructural
      cases hstructural
    · rw [hcount] at he
      cases he
  | unary raised => exact hnot (hs.unary _ _) raised
  | binary raised => exact hnot (hs.binary _ _ _) raised

namespace Machine

variable {vars other : Variables} {functions : Functions} {strategy : Strategy}
  {stack final : Stack} {instruction : Placed Instruction} {program : Program}

/-! One instruction -/

theorem step_congr (h : ∀ name, instruction.content = .reference name →
      vars.get? name = other.get? name) :
    step ⟨vars, functions, strategy⟩ stack instruction =
      step ⟨other, functions, strategy⟩ stack instruction := by
  obtain ⟨content, p⟩ := instruction
  cases content with
  | reference name =>
    change push stack _ = push stack _
    rw [Environment.value, Environment.value, h name rfl]
  | constant | call | unary | binary => rfl

theorem get?_of_step {env : Environment} {name : String} {p : Position}
    (h : step env stack ⟨.reference name, p⟩ = .ok final) : ∃ v, env.vars.get? name = some v := by
  change push stack (env.value name p) = .ok final at h
  unfold Environment.value at h
  split at h
  · next v hv => exact ⟨v, hv⟩
  · cases h

theorem of_push_error {result : Except EvalError Value} {e : EvalError}
    (h : push stack result = .error (.eval e)) : result = .error e := by
  cases result with
  | error _ =>
    cases h
    rfl
  | ok v => cases h

theorem of_call_error {body : FunctionBody} {p : Position} {e : EvalError}
    (h : call strategy body p stack = .error (.eval e)) :
    ∃ args, body args strategy = .error e := by
  unfold call at h
  split at h
  · cases h
  · split at h
    · cases h
    · split at h
      · cases h
      · split at h
        · cases h
        · exact ⟨_, of_push_error h⟩

/-- An error of an instruction is that its variable has no value, that its function is unknown, or
one that a function or an operation gives by itself. -/
theorem of_step_error {env : Environment} {e : EvalError}
    (h : step env stack instruction = .error (.eval e)) :
    (∃ name, instruction.content = .reference name ∧ env.vars.get? name = none ∧
      e = .unresolvedVariable name instruction.position) ∨
    (∃ name, e = .unknownFunction name instruction.position) ∨
    Raises env.functions env.strategy e := by
  obtain ⟨content, p⟩ := instruction
  cases content with
  | constant v => cases h
  | reference name =>
    have hvalue := of_push_error h
    unfold Environment.value at hvalue
    split at hvalue
    · cases hvalue
    · next hnone =>
      cases hvalue
      exact .inl ⟨name, rfl, hnone, rfl⟩
  | call name =>
    rw [step_call] at h
    unfold Environment.body at h
    split at h
    · next body hbody =>
      split at hbody
      · next entry hentry =>
        cases hbody
        obtain ⟨args, hargs⟩ := of_call_error h
        exact .inr (.inr (.body (Registry.find?_eq_some_iff.mp hentry).1 hargs))
      · cases hbody
    · next fault hfault =>
      split at hfault
      · cases hfault
      · cases hfault
        cases h
        exact .inr (.inl ⟨name, rfl⟩)
  | unary op =>
    cases stack with
    | nil => cases h
    | cons v rest => exact .inr (.inr (.unary (of_push_error h)))
  | binary op =>
    match stack with
    | [] | [_] => cases h
    | r :: l :: rest => exact .inr (.inr (.binary (of_push_error h)))

end Machine

/-! A whole program -/

namespace Program

open Machine

variable {vars other : Variables} {functions : Functions} {strategy : Strategy}
  {env : Environment} {stack final : Stack} {program : Program}

theorem mem_references {name : String} :
    name ∈ program.references ↔ ∃ i ∈ program, i.content = .reference name := by
  constructor
  · intro h
    obtain ⟨i, hi, hname⟩ := List.mem_filterMap.mp h
    split at hname
    · next hcontent =>
      cases hname
      exact ⟨i, hi, hcontent⟩
    · cases hname
  · rintro ⟨⟨content, p⟩, hi, rfl⟩
    exact List.mem_filterMap.mpr ⟨_, hi, rfl⟩

/-- A run depends on the variables that its program names alone. -/
theorem run_congr (h : ∀ name ∈ program.references, vars.get? name = other.get? name)
    (stack : Stack) :
    run ⟨vars, functions, strategy⟩ program stack =
      run ⟨other, functions, strategy⟩ program stack := by
  induction program generalizing stack with
  | nil => rfl
  | cons instruction rest ih =>
    have hfirst : ∀ name, instruction.content = .reference name →
        vars.get? name = other.get? name := fun name hname =>
      h name (mem_references.mpr ⟨instruction, List.mem_cons_self, hname⟩)
    have hrest : ∀ name ∈ references rest, vars.get? name = other.get? name := by
      intro name hname
      obtain ⟨i, hi, hcontent⟩ := mem_references.mp hname
      exact h name (mem_references.mpr ⟨i, .tail _ hi, hcontent⟩)
    rw [run_cons, run_cons, step_congr hfirst]
    exact congrArg _ (funext (ih hrest))

/-- The variables that a complete run names have values. -/
theorem get?_of_run (h : run env program stack = .ok final) {name : String}
    (hname : name ∈ program.references) : ∃ v, env.vars.get? name = some v := by
  induction program generalizing stack with
  | nil => cases hname
  | cons instruction rest ih =>
    obtain ⟨next, hstep, hrest⟩ := of_bind_ok h
    obtain ⟨⟨content, p⟩, hi, hcontent⟩ := mem_references.mp hname
    cases hi with
    | head =>
      cases hcontent
      exact get?_of_step hstep
    | tail _ hi => exact ih hrest (mem_references.mpr ⟨_, hi, hcontent⟩)

/-- A run ends at a name without a variable or a function, or at an error of a function or an
operation. -/
theorem of_run_error {e : EvalError} (h : run env program stack = .error (.eval e)) :
    (∃ name p, name ∈ program.references ∧ env.vars.get? name = none ∧
      e = .unresolvedVariable name p) ∨
    (∃ name p, e = .unknownFunction name p) ∨ Raises env.functions env.strategy e := by
  induction program generalizing stack with
  | nil => cases h
  | cons instruction rest ih =>
    rw [run_cons] at h
    cases hstep : step env stack instruction with
    | error fault =>
      rw [hstep] at h
      cases h
      rcases of_step_error hstep with ⟨name, hcontent, hnone, he⟩ | ⟨name, he⟩ | hraises
      · have hmem : name ∈ references (instruction :: rest) :=
          mem_references.mpr ⟨instruction, List.mem_cons_self, hcontent⟩
        exact .inl ⟨name, _, hmem, hnone, he⟩
      · exact .inr (.inl ⟨name, _, he⟩)
      · exact .inr (.inr hraises)
    | ok next =>
      rw [hstep] at h
      rcases ih h with ⟨name, p, hname, hnone, he⟩ | hother
      · obtain ⟨i, hi, hcontent⟩ := mem_references.mp hname
        exact .inl ⟨name, p, mem_references.mpr ⟨i, .tail _ hi, hcontent⟩, hnone, he⟩
      · exact .inr hother

theorem evaluate_congr (h : ∀ name ∈ program.references, vars.get? name = other.get? name) :
    program.evaluate ⟨vars, functions, strategy⟩ =
      program.evaluate ⟨other, functions, strategy⟩ := by
  rw [evaluate, evaluate, run_congr h]

theorem get?_of_evaluate {v : Value} (h : program.evaluate env = .ok v) {name : String}
    (hname : name ∈ program.references) : ∃ v, env.vars.get? name = some v := by
  unfold evaluate at h
  split at h
  · next hempty =>
    rw [List.isEmpty_iff.mp hempty] at hname
    cases hname
  · split at h
    · cases h
    · next hrun => exact get?_of_run hrun hname
    · cases h

theorem of_evaluate_error {e : EvalError} (h : program.evaluate env = .error (.eval e)) :
    (∃ name p, name ∈ program.references ∧ env.vars.get? name = none ∧
      e = .unresolvedVariable name p) ∨
    (∃ name p, e = .unknownFunction name p) ∨ Raises env.functions env.strategy e := by
  unfold evaluate at h
  split at h
  · cases h
  · split at h
    · next hrun =>
      cases h
      exact of_run_error hrun
    · cases h
    · cases h

end Program

namespace Formula

/-- Every name that the program reads is in the list of names in some spelling, and every name in
the list is read by the program as it is spelled there. -/
theorem exists_mem_variableNames {f : Formula} {name : String}
    (h : name ∈ f.program.references) :
    ∃ first ∈ f.variableNames, Text.lowercase first = Text.lowercase name := by
  rw [variableNames_eq]
  exact exists_mem_firstSpellings h

theorem mem_references_of_mem_variableNames {f : Formula} {name : String}
    (h : name ∈ f.variableNames) : name ∈ f.program.references := by
  rw [variableNames_eq] at h
  exact (firstSpellings_sublist _).subset h

/-- The value of a formula depends on the variables of its list of names: variables that agree there
give the same result, a value is given only if all of them have one, and a variable without a value
is one of them in some spelling. The list has each name that stands uncalled in the tokens once, as
it is first spelled there, in order. No function of the library and no operation of the two
strategies blames a variable by itself. -/
theorem evaluate_depends {text : String} {f : Formula} (h : read text = .ok f)
    (functions : Functions) (strategy : Strategy) :
    (∀ vars other : Variables, (∀ name ∈ f.variableNames, vars.get? name = other.get? name) →
      f.evaluate ⟨vars, functions, strategy⟩ = f.evaluate ⟨other, functions, strategy⟩) ∧
    (∀ vars v, f.evaluate ⟨vars, functions, strategy⟩ = .ok v →
      ∀ name ∈ f.variableNames, ∃ v, vars.get? name = some v) ∧
    (∀ vars name p,
      f.evaluate ⟨vars, functions, strategy⟩ = .error (.eval (.unresolvedVariable name p)) →
      (∃ first ∈ f.variableNames, Text.lowercase first = Text.lowercase name ∧
        vars.get? first = none) ∨
      Raises functions strategy (.unresolvedVariable name p)) ∧
    (∀ world name p, ¬ Raises (Library.functions world) .lenient (.unresolvedVariable name p) ∧
      ¬ Raises (Library.functions world) .strict (.unresolvedVariable name p)) ∧
    f.variableNames = firstSpellings (Sign.references f.signs) ∧
    f.variableNames.Pairwise (fun a b => Text.lowercase a ≠ Text.lowercase b) ∧
    ∀ name ∈ f.variableNames, ∃ front p rest,
      f.signs = front ++ ⟨.name name, p⟩ :: rest ∧ Expr.callAhead rest = false := by
  refine ⟨?agreement, ?success, ?failure, ?library, ?names, ?distinct, ?uncalled⟩
  case agreement =>
    intro vars other hagree
    refine Program.evaluate_congr fun name hname => ?_
    -- The list has another spelling of the name, which reads the same variable.
    obtain ⟨first, hfirst, hkey⟩ := exists_mem_variableNames hname
    rw [← Variables.get?_congr hkey, ← Variables.get?_congr hkey]
    exact hagree first hfirst
  case success =>
    intro vars v hv name hname
    exact Program.get?_of_evaluate hv (mem_references_of_mem_variableNames hname)
  case failure =>
    intro vars name p hfail
    rcases Program.of_evaluate_error hfail with ⟨_, _, hname, hnone, he⟩ | ⟨_, _, he⟩ | hraises
    · cases he
      obtain ⟨first, hfirst, hkey⟩ := exists_mem_variableNames hname
      exact .inl ⟨first, hfirst, hkey, (Variables.get?_congr hkey).trans hnone⟩
    · cases he
    · exact .inr hraises
  case library =>
    intro world name p
    have hlenient : Strategy.lenient.Discreet := Strategy.discreet_lenient.strategy
    have hstrict : Strategy.strict.Discreet := Strategy.discreet_strict.strategy
    exact ⟨Library.not_raises hlenient world rfl, Library.not_raises hstrict world rfl⟩
  case names => rw [variableNames_eq, references_program h]
  case distinct =>
    rw [variableNames_eq]
    exact pairwise_firstSpellings _
  case uncalled =>
    intro name hname
    have hreference := mem_references_of_mem_variableNames hname
    rw [references_program h] at hreference
    exact Sign.exists_of_mem_references hreference

/-- A name that is called and nothing else is no variable, and two spellings are one variable. -/
theorem evaluate_depends_two_spellings :
    let vars : Variables := Variables.set .empty "x" (.integer 1)
    let other : Variables := Variables.set .empty "X" (.integer 1)
    ∃ f, read "f(x)+X" = .ok f ∧ f.variableNames = ["x"] ∧
      f.evaluate ⟨vars, .empty, .strict⟩ = f.evaluate ⟨other, .empty, .strict⟩ := by
  intro vars other
  have hsigns : (read "f(x)+X").toOption.any
      (fun f => firstSpellings (Sign.references f.signs) == ["x"]) = true := by
    decide +kernel
  obtain ⟨f, hread, hnames⟩ := exists_ok_of_any hsigns
  obtain ⟨hagreement, -, -, -, hlist, -⟩ := evaluate_depends hread .empty .strict
  have hx : f.variableNames = ["x"] := hlist.trans (beq_iff_eq.mp hnames)
  have habsent (name : String) : (Registry.empty : Variables).find? name = none :=
    Registry.lacks_iff.mp Registry.lacks_empty
  have hother : other.get? "x" = some (.integer 1) := by
    have hkey : Text.lowercase "x" = Text.lowercase "X" := by decide +kernel
    exact (Variables.get?_congr hkey).trans (Variables.get?_set_of_absent (habsent "X") _)
  refine ⟨f, hread, hx, hagreement vars other fun name hname => ?_⟩
  rw [hx, List.mem_singleton] at hname
  rw [hname, hother]
  exact Variables.get?_set_of_absent (habsent "x") _

end Formula

end Formulary
