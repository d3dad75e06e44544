import Formulary.Proofs.Template.Rendering

/-!
# Sections and their inverses

A section shows its body for a value in a way that depends on the kind of the value, and an inverted
section only asks whether the value counts as true. Both agree on when there is nothing to show: the
body of the one is shown if and only if that of the other is not. Side by side they come to exactly
one of the two bodies, whatever stands around them.
-/

namespace Formulary.Template

/-- How often the body of a section over a value is shown: once for each item of an array, and once
or not at all for anything else. -/
def timesShown : Option Value → Nat
  | some (.array items) => items.length
  | some v => if v.isTruthy then 1 else 0
  | none => 0

theorem falsy_or_truthy (value : Option Value) :
    (∀ v ∈ value, v.isTruthy = false) ∨ ∃ v, value = some v ∧ v.isTruthy = true := by
  cases value with
  | none => exact .inl nofun
  | some v =>
    cases hv : v.isTruthy with
    | false => exact .inl fun w hw => Option.some.inj hw ▸ hv
    | true => exact .inr ⟨v, rfl, hv⟩

theorem timesShown_of_falsy {value : Option Value} (h : ∀ v ∈ value, v.isTruthy = false) :
    timesShown value = 0 := by
  cases value with
  | none => rfl
  | some v =>
    have hv : v.isTruthy = false := h v rfl
    cases v with
    | array items => simpa [Value.isTruthy, timesShown] using hv
    | _ => simp only [timesShown, hv, Bool.false_eq_true, if_false]

theorem timesShown_of_truthy {v : Value} (h : v.isTruthy = true) (harray : v.items? = none) :
    timesShown (some v) = 1 := by
  cases v with
  | array items => cases harray
  | _ => simp only [timesShown, h, if_true]

theorem timesShown_ne_zero {v : Value} (h : v.isTruthy = true) : timesShown (some v) ≠ 0 := by
  cases harray : v.items? with
  | none =>
    rw [timesShown_of_truthy h harray]
    exact Nat.one_ne_zero
  | some items =>
    obtain rfl : v = .array items := by cases v <;> cases harray; rfl
    simpa [timesShown, Value.isTruthy] using h

namespace Scope

variable (scope : Scope) (name : String) (helper other : Option String)

/-- The body of a section is shown as often as the value says. -/
theorem length_runs :
    (scope.runs ⟨false, name, helper⟩).length = timesShown (scope.resolve name) := by
  rcases falsy_or_truthy (scope.resolve name) with hfalsy | ⟨v, hvalue, htruthy⟩
  · rw [runs_falsy hfalsy, timesShown_of_falsy hfalsy]
    rfl
  · rw [hvalue]
    cases v with
    | array items => rw [runs_array hvalue, List.length_map, timesShown]
    | object fields => rw [runs_object hvalue htruthy, timesShown_of_truthy htruthy rfl]; rfl
    | _ => rw [runs_other hvalue htruthy rfl rfl, timesShown_of_truthy htruthy rfl]; rfl

/-- The body of an inverted section is shown, once and as it is, if that of the section is not. -/
theorem runs_inverted_eq :
    scope.runs ⟨true, name, other⟩ =
      if (scope.runs ⟨false, name, helper⟩).length = 0 then [none] else [] := by
  rw [length_runs]
  rcases falsy_or_truthy (scope.resolve name) with hfalsy | ⟨v, hvalue, htruthy⟩
  · rw [runs_inverted hfalsy, if_pos (timesShown_of_falsy hfalsy)]
  · rw [runs_inverted_truthy hvalue htruthy, hvalue, if_neg (timesShown_ne_zero htruthy)]

end Scope

/-! What is left to be done -/

section Work

variable (scope : Scope) (name : String) (helper other : Option String) (p q : Position)
  (body inverse : List Node) (output : String) (rest : List Work)

theorem perform_section :
    perform scope output (.node (.block ⟨⟨false, name, helper⟩, p⟩ body) :: rest) =
      perform scope output
        ((scope.runs ⟨false, name, helper⟩).flatMap (Work.ofRun body) ++ rest) := by
  rw [perform]

/-- An inverted section shows its body exactly if the section has nothing to show. -/
theorem perform_inverted :
    perform scope output (.node (.block ⟨⟨true, name, other⟩, q⟩ inverse) :: rest) =
      perform scope output
        ((if (scope.runs ⟨false, name, helper⟩).length = 0 then inverse.map .node else []) ++
          rest) := by
  rw [perform, scope.runs_inverted_eq name helper other]
  split
  · rw [List.flatMap_singleton]
    rfl
  · rfl

/-- The inverse is decided when the section is done, and then in the scope in which the section
began. -/
theorem perform_both :
    perform scope output (.node (.block ⟨⟨false, name, helper⟩, p⟩ body) ::
        .node (.block ⟨⟨true, name, other⟩, q⟩ inverse) :: rest) =
      perform scope output
        ((if (scope.runs ⟨false, name, helper⟩).length = 0 then inverse.map .node
          else (scope.runs ⟨false, name, helper⟩).flatMap (Work.ofRun body)) ++ rest) := by
  rw [perform_section]
  by_cases hnone : (scope.runs ⟨false, name, helper⟩).length = 0
  · rw [if_pos hnone, List.eq_nil_of_length_eq_zero hnone, List.flatMap_nil, List.nil_append,
      perform_inverted scope name helper, if_pos hnone]
  · have hrest (text : String) :
        perform scope text (.node (.block ⟨⟨true, name, other⟩, q⟩ inverse) :: rest) =
          perform scope text rest := by
      rw [perform_inverted scope name helper, if_neg hnone, List.nil_append]
    rw [if_neg hnone, perform_runs (perform_nodes body), perform_runs (perform_nodes body)]
    exact congrArg _ (funext fun text => hrest (output ++ text))

end Work

/-- A section and an inverted section over one name complement each other, in any scope: the body of
the inverted one is shown once and as it is where that of the section is not shown, and not at all
where that of the section is shown, as often as this may be. It is shown for each item of an array
and at most once for anything else. Side by side, whatever is to be done behind them, they leave
exactly one of the bodies to be done. -/
theorem sections_complement (scope : Scope) (name : String) (helper other : Option String) :
    let shown := scope.runs ⟨false, name, helper⟩
    shown.length = timesShown (scope.resolve name) ∧
    scope.runs ⟨true, name, other⟩ = (if shown.length = 0 then [none] else []) ∧
    ∀ (p q : Position) (body inverse : List Node) (output : String) (rest : List Work),
      perform scope output (.node (.block ⟨⟨false, name, helper⟩, p⟩ body) :: rest) =
        perform scope output (shown.flatMap (Work.ofRun body) ++ rest) ∧
      perform scope output (.node (.block ⟨⟨true, name, other⟩, q⟩ inverse) :: rest) =
        perform scope output
          ((if shown.length = 0 then inverse.map .node else []) ++ rest) ∧
      perform scope output (.node (.block ⟨⟨false, name, helper⟩, p⟩ body) ::
          .node (.block ⟨⟨true, name, other⟩, q⟩ inverse) :: rest) =
        perform scope output
          ((if shown.length = 0 then inverse.map .node else shown.flatMap (Work.ofRun body)) ++
            rest) := by
  refine ⟨scope.length_runs name helper, scope.runs_inverted_eq name helper other, ?work⟩
  case work =>
    intro p q body inverse output rest
    exact ⟨perform_section scope name helper p body output rest,
      perform_inverted scope name helper other q inverse output rest,
      perform_both scope name helper other p q body inverse output rest⟩

end Formulary.Template
