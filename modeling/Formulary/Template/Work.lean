import Formulary.Template.Meaning

/-!
# Rendering with a list of work

A template is rendered without recursion on its nodes: what is still to be done stands in a list,
and a section puts its body there as often as it is shown, with marks where a value comes into scope
and where it goes out again. Every step takes the first entry of the list and puts smaller ones in
its place. Lists of work become smaller in this sense only finitely often.
-/

namespace Formulary.Template

/-- Something still to be done. -/
inductive Work
  | node (node : Node)
  | enter (value : Value)
  | leave

namespace Work

def weight : Work → Nat
  | node n => n.size
  | enter _ | leave => 0

def ofRun (body : List Node) : Option Value → List Work
  | some v => enter v :: body.map node ++ [leave]
  | none => body.map node

/-- Whether a list of work comes from another one by putting smaller work in place of the first. -/
def Follows (after before : List Work) : Prop :=
  ∃ first rest next, before = first :: rest ∧ after = next ++ rest ∧
    ∀ w ∈ next, w.weight < first.weight

/-- Work of any weight comes to an end in front of work that does. -/
theorem acc_cons (n : Nat) : ∀ w : Work, w.weight = n → ∀ rest, Acc Follows rest →
    Acc Follows (w :: rest) := by
  induction n using Nat.strongRecOn with
  | ind n ih =>
    intro w hw rest hrest
    constructor
    rintro _ ⟨first, rest', next, heq, rfl, hlt⟩
    cases heq
    induction next with
    | nil => exact hrest
    | cons x next ihNext =>
      have hx : x.weight < n := hw ▸ hlt x List.mem_cons_self
      exact ih x.weight hx x rfl _ (ihNext fun y hy => hlt y (List.mem_cons_of_mem x hy))

theorem acc (work : List Work) : Acc Follows work := by
  induction work with
  | nil => exact ⟨_, fun _ ⟨_, _, _, heq, _⟩ => by cases heq⟩
  | cons w work ih => exact acc_cons _ w rfl work ih

instance : WellFoundedRelation (List Work) := ⟨Follows, ⟨acc⟩⟩

theorem follows_of_done (w : Work) (rest : List Work) : Follows rest (w :: rest) :=
  ⟨w, rest, [], rfl, rfl, by simp⟩

theorem size_pos (n : Node) : 0 < n.size := by
  cases n with
  | leaf l => exact Nat.one_pos
  | block o body => simp only [Node.size]; omega

theorem size_le_of_mem {n : Node} {body : List Node} (h : n ∈ body) :
    n.size ≤ Node.sizeOfAll body := by
  induction body with
  | nil => cases h
  | cons m body ih =>
    simp only [Node.sizeOfAll]
    cases h with
    | head => omega
    | tail _ h =>
      have := ih h
      omega

/-- Each run of a section is smaller work than the section. -/
theorem weight_ofRun_lt (o : Placed Opening) {body : List Node} {value : Option Value} {w : Work}
    (h : w ∈ ofRun body value) : w.weight < (Node.block o body).size := by
  have hnode : ∀ n ∈ body, (node n).weight < (Node.block o body).size := fun n hn => by
    have := size_le_of_mem hn
    simp only [weight, Node.size]
    omega
  have hpos := size_pos (Node.block o body)
  cases value with
  | none =>
    obtain ⟨n, hn, rfl⟩ := List.mem_map.mp h
    exact hnode n hn
  | some v =>
    simp only [ofRun, List.cons_append, List.mem_cons, List.mem_append, List.mem_map,
      List.not_mem_nil, or_false] at h
    rcases h with rfl | ⟨n, hn, rfl⟩ | rfl
    · exact hpos
    · exact hnode n hn
    · exact hpos

theorem follows_of_block (o : Placed Opening) (body : List Node) (values : List (Option Value))
    (rest : List Work) :
    Follows (values.flatMap (ofRun body) ++ rest) (node (.block o body) :: rest) := by
  refine ⟨_, _, _, rfl, rfl, fun w hw => ?_⟩
  obtain ⟨value, _, hw⟩ := List.mem_flatMap.mp hw
  exact weight_ofRun_lt o hw

end Work

def Scope.leave (scope : Scope) : Scope := { scope with values := scope.values.tail }

/-- Does all work in a scope, adding to an output. The last scope comes with the output. -/
def perform (scope : Scope) (output : String) (work : List Work) :
    Except EvalError (String × Scope) :=
  match work with
  | [] => .ok (output, scope)
  | .enter v :: rest => perform (scope.enter v) output rest
  | .leave :: rest => perform scope.leave output rest
  | .node (.leaf l) :: rest =>
    match l.content.render scope l.position with
    | .ok text => perform scope (output ++ text) rest
    | .error e => .error e
  | .node (.block o body) :: rest =>
    perform scope output ((scope.runs o.content).flatMap (Work.ofRun body) ++ rest)
termination_by work
decreasing_by
  all_goals first | exact Work.follows_of_done _ _ | exact Work.follows_of_block _ _ _ _

def renderNodes (scope : Scope) (nodes : List Node) : Except EvalError String :=
  (perform scope "" (nodes.map .node)).map (·.1)

end Formulary.Template
