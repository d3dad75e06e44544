import Formulary.Proofs.Library.Listing
import Formulary.Proofs.Strategy.Discretion

/-!
# Functions see nothing of the expression

A function of the library sees the values of its arguments and the strategy in force. As long as the
strategy sees nothing of the expression, the only error about it that a function gives is that it
got too few or too many arguments, and it says so exactly when it did.
-/

namespace Formulary.Library

variable {s : Strategy} (hs : s.Discreet)
include hs

theorem discreet_number? (v : Value) : Discreet (number? s v) := by
  unfold number?
  split
  · exact .ok none
  · exact Discreet.map_iff.mpr (hs.convert v .double)

theorem discreet_whole (args : List Value) (i : Nat) (other : Int) :
    Discreet (whole s args i other) := by
  unfold whole
  split
  · exact Discreet.map_iff.mpr (hs.convert _ .long)
  · exact .ok other

omit hs in
theorem discreet_integral (function : String) (x : Float) (n : Option Int) :
    Discreet (integral function x n) := by
  unfold integral
  split
  · exact Discreet.error_iff.mpr rfl
  · split
    · exact .ok _
    · exact .ok _
    · exact Discreet.error_iff.mpr rfl

theorem discreet_absolute (v : Value) : Discreet (absolute s v) := by
  unfold absolute
  split
  · exact .ok _
  · exact .elim rfl fun n => .ok _
  · exact .elim rfl fun n => .ok _
  · exact .ok _
  · exact .ok _
  · exact Discreet.map_iff.mpr (discreet_number? hs _)

omit hs in
theorem discreet_best {better : Value → Value → Except EvalError Value}
    (hbetter : ∀ a b, Discreet (better a b)) (first : Value) (rest : List Value) :
    Discreet (best better first rest) := by
  induction rest generalizing first with
  | nil => exact .ok first
  | cons v rest ih => exact (hbetter v first).bind fun answer => ih _

omit hs in
theorem discreet_foldlM {add : Value → Value → Except EvalError Value}
    (hadd : ∀ a b, Discreet (add a b)) (first : Value) (rest : List Value) :
    Discreet (rest.foldlM add first) := by
  induction rest generalizing first with
  | nil => exact .ok first
  | cons v rest ih => exact (hadd first v).bind fun sum => ih sum

omit hs in
theorem discreet_spanOf (millis : Int) : Discreet (spanOf millis) := by
  unfold spanOf
  split
  · exact .ok _
  · exact Discreet.error_iff.mpr rfl

theorem discreet_datePart (args : List Value) (i : Nat) (other : Int) :
    Discreet (datePart s args i other) := by
  refine (discreet_whole hs args i other).bind fun n => ?_
  split
  · exact .ok n
  · exact Discreet.error_iff.mpr rfl

/-- A function that, once it is carried out, sees nothing of the expression under a strategy. -/
def Builtin.Discreet (s : Strategy) (f : Builtin) : Prop :=
  ∀ args, Formulary.Discreet (f.apply args s)

omit hs in
theorem discreet_value (name : String) (v : Value) : (Builtin.value name v).Discreet s :=
  fun _ => .ok v

omit hs in
theorem discreet_unary {name : String} {apply : Strategy → Value → Except EvalError Value}
    (h : ∀ v, Discreet (apply s v)) : (Builtin.unary name apply).Discreet s := fun _ => h _

omit hs in
theorem discreet_unaries {names : List String}
    {apply : String → Strategy → Value → Except EvalError Value}
    (h : ∀ name v, Discreet (apply name s v)) :
    ∀ f ∈ Builtin.unaries names apply, f.Discreet s := by
  intro f hf
  obtain ⟨name, -, rfl⟩ := List.mem_map.mp hf
  exact discreet_unary (h name)

theorem discreet_ofDouble (names : List String) (apply : Float → Float) :
    ∀ f ∈ ofDouble names apply, f.Discreet s :=
  discreet_unaries fun _ v => Discreet.map_iff.mpr (discreet_number? hs v)

theorem discreet_timeSpan : timeSpan.Discreet s := by
  intro args
  dsimp only [timeSpan]
  split
  · exact (discreet_whole hs args 0 0).bind discreet_spanOf
  · refine (discreet_whole hs args 0 0).bind fun days => ?_
    refine (discreet_whole hs args 1 0).bind fun hours => ?_
    refine (discreet_whole hs args 2 0).bind fun minutes => ?_
    refine (discreet_whole hs args 3 0).bind fun seconds => ?_
    refine (discreet_whole hs args 4 0).bind fun millis => ?_
    split
    · exact discreet_spanOf _
    · exact Discreet.error_iff.mpr rfl

theorem discreet_date : date.Discreet s := by
  intro args
  dsimp only [date]
  split
  · exact hs.convert _ .dateTime
  · refine (discreet_whole hs args 0 0).bind fun year => ?_
    split
    · exact Discreet.error_iff.mpr rfl
    · refine (discreet_datePart hs args 6 0).bind fun millis => ?_
      refine (discreet_datePart hs args 1 1).bind fun month => ?_
      refine (discreet_datePart hs args 2 1).bind fun day => ?_
      refine (discreet_datePart hs args 3 0).bind fun hour => ?_
      refine (discreet_datePart hs args 4 0).bind fun minute => ?_
      refine (discreet_datePart hs args 5 0).bind fun second => ?_
      split
      · exact .ok _
      · exact Discreet.error_iff.mpr rfl

theorem discreet_round : round.Discreet s := by
  intro args
  refine (discreet_number? hs _).bind fun x => ?_
  split
  · exact .ok _
  · split
    · exact discreet_integral _ _ _
    · exact Discreet.map_iff.mpr (discreet_whole hs args 1 0)

theorem discreet_choose : choose.Discreet s := by
  intro args
  refine (discreet_whole hs args 0 0).bind fun index => ?_
  dsimp only
  split
  · exact .ok _
  · exact Discreet.error_iff.mpr rfl

theorem discreet_contains : contains.Discreet s := by
  intro args
  dsimp only [contains]
  split
  · exact .ok _
  · exact (hs.convert _ .string).bind fun text => (hs.convert _ .string).bind fun part => .ok _

theorem discreet_truncate : ∀ f ∈ truncate, f.Discreet s := by
  refine discreet_unaries fun name v => (discreet_number? hs v).bind fun x => ?_
  cases x with
  | none => exact .ok _
  | some x => exact discreet_integral name x _

theorem discreet_transcendental : ∀ f ∈ transcendental, f.Discreet s := by
  simp only [transcendental, List.forall_mem_append]
  and_intros
  all_goals exact discreet_ofDouble hs _ _

theorem discreet_min : min.Discreet s := fun _ =>
  discreet_best (hs.binary (.operator .less)) _ _

theorem discreet_max : max.Discreet s := fun _ =>
  discreet_best (hs.binary (.operator .more)) _ _

theorem discreet_sum : sum.Discreet s := fun _ =>
  discreet_foldlM (hs.binary (.operator .add)) _ _

theorem discreet_ifElse : ifElse.Discreet s := fun _ =>
  Discreet.map_iff.mpr (hs.convert _ .boolean)

theorem discreet_dayOfWeek : dayOfWeek.Discreet s :=
  discreet_unary fun v => Discreet.map_iff.mpr (hs.convert v .dateTime)

/-- No function of the library sees anything of the expression. -/
theorem discreet_builtins (world : Ambient) : ∀ f ∈ builtins world, f.Discreet s := by
  simp only [builtins, List.forall_mem_append, List.forall_mem_cons, List.not_mem_nil,
    false_implies, implies_true, and_true]
  refine ⟨⟨⟨?front, discreet_transcendental hs⟩, discreet_round hs, discreet_truncate hs⟩, ?back⟩
  case front =>
    exact ⟨discreet_value _ _, discreet_timeSpan hs, discreet_value _ _, discreet_date hs,
      discreet_dayOfWeek hs, discreet_min hs, discreet_max hs, discreet_sum hs,
      discreet_ifElse hs, discreet_choose hs, discreet_value _ _, discreet_value _ _,
      discreet_value _ _, discreet_value _ _, discreet_unary (discreet_absolute hs)⟩
  case back =>
    exact ⟨discreet_unary fun _ => .ok _, discreet_value _ _, discreet_contains hs, fun _ => .ok _⟩

omit hs in
/-- A call checks the number of arguments first, and that is the only error about the call. -/
theorem body_error {f : Builtin} (h : f.Discreet s) {args : List Value} {e : EvalError}
    (he : f.body args s = .error e) : e.isStructural = false ∨
      f.arity.admits args.length = false ∧ e = .wrongArgumentCount f.name f.arity args.length := by
  unfold Builtin.body at he
  split at he
  case isTrue hadmitted => exact .inl (h args e he)
  case isFalse hrefused =>
    cases he
    exact .inr ⟨Bool.eq_false_iff.mpr hrefused, rfl⟩

end Formulary.Library
