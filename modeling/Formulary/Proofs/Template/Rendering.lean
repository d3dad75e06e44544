import Formulary.Template

/-!
# What a template shows

`Shows` says which text a template comes to, or which error, without a list of work: nodes are shown
in the order of the document and the first error ends it; a section over an array shows its body
once for each item, a section over an object once for the object, and both make that value the
innermost one of the scope; over another value that counts as true the body is shown once as it is.
There is always exactly one such outcome, and the list of work ends with it and with the scope that
it began with.
-/

namespace Formulary.Template

/-- Something to be shown: a node, nodes side by side, or a body for each of the items of an
array. -/
inductive Exhibit
  | node (node : Node)
  | nodes (nodes : List Node)
  | items (items : List Value) (body : List Node)

/-- What is shown in a scope, or the error that ends it. -/
inductive Shows : Scope → Exhibit → Except EvalError String → Prop
  | literal {scope text p} : Shows scope (.node (.leaf ⟨.literal text, p⟩)) (.ok text)
  | raw {scope name p} :
    Shows scope (.node (.leaf ⟨.raw name, p⟩)) (.ok (textOf (scope.resolve name)))
  | escaped {scope name p} :
    Shows scope (.node (.leaf ⟨.escaped name, p⟩)) (.ok (escape (textOf (scope.resolve name))))
  | inclusion {scope name p} :
    Shows scope (.node (.leaf ⟨.inclusion name, p⟩)) (.error (.partialsNotSupported name p))
  | comment {scope text p} : Shows scope (.node (.leaf ⟨.comment text, p⟩)) (.ok "")
  | overArray {scope name helper p body items outcome}
    (value : scope.resolve name = some (.array items))
    (shown : Shows scope (.items items body) outcome) :
    Shows scope (.node (.block ⟨⟨false, name, helper⟩, p⟩ body)) outcome
  | overObject {scope name helper p body fields outcome}
    (value : scope.resolve name = some (.object fields))
    (truthy : (Value.object fields).isTruthy = true)
    (shown : Shows (scope.enter (.object fields)) (.nodes body) outcome) :
    Shows scope (.node (.block ⟨⟨false, name, helper⟩, p⟩ body)) outcome
  | overOther {scope name helper p body v outcome}
    (value : scope.resolve name = some v) (truthy : v.isTruthy = true)
    (noArray : v.items? = none) (noObject : v.fields? = none)
    (shown : Shows scope (.nodes body) outcome) :
    Shows scope (.node (.block ⟨⟨false, name, helper⟩, p⟩ body)) outcome
  | hidden {scope name helper p body}
    (falsy : ∀ v ∈ scope.resolve name, v.isTruthy = false) :
    Shows scope (.node (.block ⟨⟨false, name, helper⟩, p⟩ body)) (.ok "")
  | inverted {scope name helper p body outcome}
    (falsy : ∀ v ∈ scope.resolve name, v.isTruthy = false)
    (shown : Shows scope (.nodes body) outcome) :
    Shows scope (.node (.block ⟨⟨true, name, helper⟩, p⟩ body)) outcome
  | hiddenInverted {scope name helper p body v}
    (value : scope.resolve name = some v) (truthy : v.isTruthy = true) :
    Shows scope (.node (.block ⟨⟨true, name, helper⟩, p⟩ body)) (.ok "")
  | noNode {scope} : Shows scope (.nodes []) (.ok "")
  | stopNode {scope node rest e} (stop : Shows scope (.node node) (.error e)) :
    Shows scope (.nodes (node :: rest)) (.error e)
  | nextNode {scope node rest text outcome} (first : Shows scope (.node node) (.ok text))
    (others : Shows scope (.nodes rest) outcome) :
    Shows scope (.nodes (node :: rest)) (outcome.map (text ++ ·))
  | noItem {scope body} : Shows scope (.items [] body) (.ok "")
  | stopItem {scope v rest body e} (stop : Shows (scope.enter v) (.nodes body) (.error e)) :
    Shows scope (.items (v :: rest) body) (.error e)
  | nextItem {scope v rest body text outcome}
    (first : Shows (scope.enter v) (.nodes body) (.ok text))
    (others : Shows scope (.items rest body) outcome) :
    Shows scope (.items (v :: rest) body) (outcome.map (text ++ ·))

/-! The recursive text of a section, run by run -/

def renderRuns (scope : Scope) (body : List Node) (runs : List (Option Value)) :
    Except EvalError String :=
  (runs.mapM fun value => Node.renderAll (scope.inside value) body).map String.join

variable {scope : Scope} {body : List Node}

theorem Node.render_block (scope : Scope) (o : Placed Opening) (body : List Node) :
    (block o body).render scope = renderRuns scope body (scope.runs o.content) := by
  rw [render, renderRuns]
  cases (scope.runs o.content).mapM fun value => renderAll (scope.inside value) body <;> rfl

theorem Node.renderAll_cons (scope : Scope) (node : Node) (rest : List Node) :
    renderAll scope (node :: rest) =
      (node.render scope).bind fun text => (renderAll scope rest).map (text ++ ·) := by
  rw [renderAll]
  cases node.render scope with
  | error e => rfl
  | ok text => cases renderAll scope rest <;> rfl

theorem renderRuns_cons (scope : Scope) (body : List Node) (value : Option Value)
    (rest : List (Option Value)) :
    renderRuns scope body (value :: rest) =
      (Node.renderAll (scope.inside value) body).bind fun text =>
        (renderRuns scope body rest).map (text ++ ·) := by
  rw [renderRuns, renderRuns, List.mapM_cons]
  cases Node.renderAll (scope.inside value) body with
  | error e => rfl
  | ok text =>
    cases rest.mapM fun value => Node.renderAll (scope.inside value) body with
    | error e => rfl
    | ok texts => exact congrArg Except.ok String.join_cons

theorem renderRuns_singleton (scope : Scope) (body : List Node) (value : Option Value) :
    renderRuns scope body [value] = Node.renderAll (scope.inside value) body := by
  rw [renderRuns_cons]
  cases Node.renderAll (scope.inside value) body with
  | error e => rfl
  | ok text => exact congrArg Except.ok (String.append_empty)

/-! The runs of a section, value by value -/

namespace Scope

variable {name : String} {helper : Option String} {v : Value}

theorem runs_array {items : List Value} (h : scope.resolve name = some (.array items)) :
    scope.runs ⟨false, name, helper⟩ = items.map some := by
  simp only [runs, h, Bool.false_eq_true, if_false]

theorem runs_object {fields : List (String × Value)}
    (h : scope.resolve name = some (.object fields))
    (htruthy : (Value.object fields).isTruthy = true) :
    scope.runs ⟨false, name, helper⟩ = [some (.object fields)] := by
  simp only [runs, h, Option.any_some, htruthy, Bool.false_eq_true, if_false, if_true]

theorem runs_other (h : scope.resolve name = some v) (htruthy : v.isTruthy = true)
    (harray : v.items? = none) (hobject : v.fields? = none) :
    scope.runs ⟨false, name, helper⟩ = [none] := by
  simp only [runs, h, Option.any_some, htruthy, Bool.false_eq_true, if_false, if_true]
  split
  · next hv =>
    cases hv
    cases harray
  · next hv =>
    cases hv
    cases hobject
  · rfl

theorem any_eq_false (h : ∀ v ∈ scope.resolve name, v.isTruthy = false) :
    (scope.resolve name).any Value.isTruthy = false := by
  cases hvalue : scope.resolve name with
  | none => rfl
  | some v => exact h v hvalue

theorem runs_falsy (h : ∀ v ∈ scope.resolve name, v.isTruthy = false) :
    scope.runs ⟨false, name, helper⟩ = [] := by
  simp only [runs, any_eq_false h, Bool.false_eq_true, if_false]
  split
  · next items hvalue =>
    -- An array that does not count as true has no items.
    have hempty := h _ hvalue
    simp only [Value.isTruthy, Bool.not_eq_false', List.isEmpty_iff] at hempty
    rw [hempty, List.map_nil]
  · rfl
  · rfl

theorem runs_inverted (h : ∀ v ∈ scope.resolve name, v.isTruthy = false) :
    scope.runs ⟨true, name, helper⟩ = [none] := by
  simp only [runs, any_eq_false h, Bool.false_eq_true, if_true, if_false]

theorem runs_inverted_truthy (h : scope.resolve name = some v) (htruthy : v.isTruthy = true) :
    scope.runs ⟨true, name, helper⟩ = [] := by
  simp only [runs, h, Option.any_some, htruthy, if_true]

end Scope

/-! What is shown is the recursive text -/

def Exhibit.render (scope : Scope) : Exhibit → Except EvalError String
  | node n => n.render scope
  | nodes ns => Node.renderAll scope ns
  | items vs body => renderRuns scope body (vs.map some)

/-- A section without runs shows nothing. -/
theorem render_block_nil {o : Placed Opening} (h : scope.runs o.content = []) :
    (Node.block o body).render scope = .ok "" := by
  rw [Node.render_block, h]
  rfl

/-- A section with one run shows its body in the scope of the run. -/
theorem render_block_singleton {o : Placed Opening} {value : Option Value}
    (h : scope.runs o.content = [value]) :
    (Node.block o body).render scope = Node.renderAll (scope.inside value) body := by
  rw [Node.render_block, h, renderRuns_singleton]

/-- There is no other outcome than the recursive text. -/
theorem Shows.eq_render {e : Exhibit} {outcome : Except EvalError String}
    (h : Shows scope e outcome) : outcome = e.render scope := by
  induction h with
  | literal | raw | escaped | inclusion | comment => rw [Exhibit.render, Node.render]; rfl
  | overArray value _ ih =>
    rw [ih, Exhibit.render, Exhibit.render, Node.render_block, Scope.runs_array value]
  | overObject value truthy _ ih =>
    rw [ih, Exhibit.render, Exhibit.render,
      render_block_singleton (Scope.runs_object value truthy)]
    rfl
  | overOther value truthy noArray noObject _ ih =>
    rw [ih, Exhibit.render, Exhibit.render,
      render_block_singleton (Scope.runs_other value truthy noArray noObject)]
    rfl
  | hidden falsy => rw [Exhibit.render, render_block_nil (Scope.runs_falsy falsy)]
  | inverted falsy _ ih =>
    rw [ih, Exhibit.render, Exhibit.render, render_block_singleton (Scope.runs_inverted falsy)]
    rfl
  | hiddenInverted value truthy =>
    rw [Exhibit.render, render_block_nil (Scope.runs_inverted_truthy value truthy)]
  | noNode | noItem => rfl
  | stopNode _ ih =>
    rw [Exhibit.render] at ih
    rw [Exhibit.render, Node.renderAll_cons, ← ih]
    rfl
  | nextNode _ _ ihFirst ihOthers =>
    simp only [Exhibit.render] at ihFirst ihOthers
    rw [Exhibit.render, Node.renderAll_cons, ← ihFirst, ihOthers]
    rfl
  | stopItem _ ih =>
    rw [Exhibit.render] at ih
    rw [Exhibit.render, List.map_cons, renderRuns_cons, Scope.inside, ← ih]
    rfl
  | nextItem _ _ ihFirst ihOthers =>
    simp only [Exhibit.render] at ihFirst ihOthers
    rw [Exhibit.render, List.map_cons, renderRuns_cons, Scope.inside, ← ihFirst, ihOthers]
    rfl

theorem shows_items (hbody : ∀ scope, Shows scope (.nodes body) (Node.renderAll scope body))
    (scope : Scope) (values : List Value) :
    Shows scope (.items values body) (renderRuns scope body (values.map some)) := by
  induction values with
  | nil => exact .noItem
  | cons v rest ih =>
    have hfirst := hbody (scope.enter v)
    rw [List.map_cons, renderRuns_cons, Scope.inside]
    cases hresult : Node.renderAll (scope.enter v) body with
    | error e =>
      rw [hresult] at hfirst
      exact .stopItem hfirst
    | ok text =>
      rw [hresult] at hfirst
      exact .nextItem hfirst ih

/-- A section shows the text of its runs, if its body shows its own text. -/
theorem shows_block (o : Placed Opening)
    (hbody : ∀ scope, Shows scope (.nodes body) (Node.renderAll scope body)) (scope : Scope) :
    Shows scope (.node (.block o body)) ((Node.block o body).render scope) := by
  obtain ⟨⟨inverted, name, helper⟩, p⟩ := o
  by_cases hfalsy : ∀ v ∈ scope.resolve name, v.isTruthy = false
  · cases inverted with
    | true =>
      rw [render_block_singleton (Scope.runs_inverted hfalsy)]
      exact .inverted hfalsy (hbody scope)
    | false =>
      rw [render_block_nil (Scope.runs_falsy hfalsy)]
      exact .hidden hfalsy
  · obtain ⟨v, hvalue, htruthy⟩ : ∃ v, scope.resolve name = some v ∧ v.isTruthy = true := by
      simpa using hfalsy
    cases inverted with
    | true =>
      rw [render_block_nil (Scope.runs_inverted_truthy hvalue htruthy)]
      exact .hiddenInverted hvalue htruthy
    | false =>
      cases harray : v.items? with
      | some items =>
        obtain rfl : v = .array items := by cases v <;> cases harray; rfl
        rw [Node.render_block, Scope.runs_array hvalue]
        exact .overArray hvalue (shows_items hbody scope items)
      | none =>
        cases hobject : v.fields? with
        | some fields =>
          obtain rfl : v = .object fields := by cases v <;> cases hobject; rfl
          rw [render_block_singleton (Scope.runs_object hvalue htruthy)]
          exact .overObject hvalue htruthy (hbody _)
        | none =>
          rw [render_block_singleton (Scope.runs_other hvalue htruthy harray hobject)]
          exact .overOther hvalue htruthy harray hobject (hbody scope)

mutual

/-- The recursive text of a node is what it shows. -/
theorem Node.shows_render : ∀ (n : Node) (scope : Scope), Shows scope (.node n) (n.render scope)
  | .leaf ⟨content, p⟩, scope => by
    rw [render]
    cases content with
    | literal text => exact .literal
    | raw name => exact .raw
    | escaped name => exact .escaped
    | inclusion name => exact .inclusion
    | comment text => exact .comment
  | .block o body, scope => shows_block o (fun inner => Node.shows_renderAll body inner) scope

/-- The recursive text of nodes is what they show. -/
theorem Node.shows_renderAll :
    ∀ (nodes : List Node) (scope : Scope), Shows scope (.nodes nodes) (renderAll scope nodes)
  | [], _ => .noNode
  | node :: rest, scope => by
    have hfirst := node.shows_render scope
    rw [renderAll_cons]
    cases hresult : node.render scope with
    | error e =>
      rw [hresult] at hfirst
      exact .stopNode hfirst
    | ok text =>
      rw [hresult] at hfirst
      exact .nextNode hfirst (Node.shows_renderAll rest scope)

end

/-! The list of work comes to the recursive text -/

/-- What becomes of further work when a text is added in front of it, or the error is met. -/
def continued (scope : Scope) (output : String) (rest : List Work)
    (result : Except EvalError String) : Except EvalError (String × Scope) :=
  result.bind fun text => perform scope (output ++ text) rest

theorem continued_bind (output : String) (rest : List Work) (first : Except EvalError String)
    (others : Except EvalError String) :
    (first.bind fun text => continued scope (output ++ text) rest others) =
      continued scope output rest (first.bind fun text => others.map (text ++ ·)) := by
  cases first with
  | error e => rfl
  | ok text =>
    cases others with
    | error e => rfl
    | ok more =>
      have happend : output ++ text ++ more = output ++ (text ++ more) := String.append_assoc
      exact congrArg (perform scope · rest) happend

/-- A run of a body adds the text of the body in the scope inside. -/
theorem perform_run (hbody : ∀ (scope : Scope) (output : String) (rest : List Work),
      perform scope output (body.map .node ++ rest) =
        continued scope output rest (Node.renderAll scope body))
    (scope : Scope) (output : String) (rest : List Work) (value : Option Value) :
    perform scope output (Work.ofRun body value ++ rest) =
      continued scope output rest (Node.renderAll (scope.inside value) body) := by
  cases value with
  | none => exact hbody scope output rest
  | some v =>
    have hwork : Work.ofRun body (some v) ++ rest =
        .enter v :: (body.map .node ++ (.leave :: rest)) := by
      rw [Work.ofRun, List.cons_append, List.cons_append, List.append_assoc,
        List.singleton_append]
    rw [hwork, perform, hbody, Scope.inside]
    cases Node.renderAll (scope.enter v) body with
    | error e => rfl
    | ok text =>
      exact perform.eq_3 (scope.enter v) (output ++ text) rest

/-- The runs of a body add their texts one after the other. -/
theorem perform_runs (hbody : ∀ (scope : Scope) (output : String) (rest : List Work),
      perform scope output (body.map .node ++ rest) =
        continued scope output rest (Node.renderAll scope body))
    (scope : Scope) (output : String) (rest : List Work) (runs : List (Option Value)) :
    perform scope output (runs.flatMap (Work.ofRun body) ++ rest) =
      continued scope output rest (renderRuns scope body runs) := by
  induction runs generalizing output with
  | nil =>
    have hempty : output ++ "" = output := String.append_empty
    exact congrArg (perform scope · rest) hempty.symm
  | cons value others ih =>
    rw [List.flatMap_cons, List.append_assoc, perform_run hbody, renderRuns_cons,
      ← continued_bind]
    refine congrArg _ (funext fun text => ?_)
    exact ih (output ++ text)

mutual

/-- A node in front of further work adds its text to the output, or ends with its error. -/
theorem perform_node : ∀ (n : Node) (scope : Scope) (output : String) (rest : List Work),
    perform scope output (.node n :: rest) = continued scope output rest (n.render scope)
  | .leaf l, scope, output, rest => by
    rw [perform, Node.render]
    cases l.content.render scope l.position <;> rfl
  | .block o body, scope, output, rest => by
    rw [perform, Node.render_block]
    exact perform_runs (perform_nodes body) scope output rest (scope.runs o.content)

/-- Nodes in front of further work add their text to the output, or end with their first error. -/
theorem perform_nodes : ∀ (nodes : List Node) (scope : Scope) (output : String) (rest : List Work),
    perform scope output (nodes.map .node ++ rest) =
      continued scope output rest (Node.renderAll scope nodes)
  | [], scope, output, rest => by
    have hempty : output ++ "" = output := String.append_empty
    exact congrArg (perform scope · rest) hempty.symm
  | node :: others, scope, output, rest => by
    rw [List.map_cons, List.cons_append, perform_node node, Node.renderAll_cons,
      ← continued_bind]
    refine congrArg _ (funext fun text => ?_)
    exact perform_nodes others scope (output ++ text) rest

end

/-- The work of nodes ends with their recursive text and in the scope that it began in. -/
theorem perform_nodes_alone (scope : Scope) (nodes : List Node) :
    perform scope "" (nodes.map .node) =
      (Node.renderAll scope nodes).map fun text => (text, scope) := by
  have hall := perform_nodes nodes scope "" []
  rw [List.append_nil] at hall
  rw [hall, continued]
  cases Node.renderAll scope nodes with
  | error e => rfl
  | ok text =>
    rw [Except.bind, perform, String.empty_append]
    rfl

/-- A template is rendered to the recursive text of its nodes. -/
theorem render_eq (t : Template) (overrides : Option Variables) (defaults : Variables) :
    t.render overrides defaults =
      (Node.renderAll ⟨[], overrides, defaults⟩ t.nodes).mapError .eval := by
  rw [render, renderNodes, perform_nodes_alone]
  cases Node.renderAll ⟨[], overrides, defaults⟩ t.nodes <;> rfl

/-- A template shows exactly one outcome for its variables. The list of work ends with it, no value
is in scope then, and it is the answer of the template. -/
theorem render_eq_shown (t : Template) (overrides : Option Variables) (defaults : Variables) :
    ∃ outcome, (∀ other, Shows ⟨[], overrides, defaults⟩ (.nodes t.nodes) other ↔ other = outcome) ∧
      perform ⟨[], overrides, defaults⟩ "" (t.nodes.map .node) =
        outcome.map (fun text => (text, ⟨[], overrides, defaults⟩)) ∧
      t.render overrides defaults = outcome.mapError .eval := by
  refine ⟨Node.renderAll ⟨[], overrides, defaults⟩ t.nodes, ?unique, ?work, ?answer⟩
  case unique =>
    refine fun other => ⟨fun h => h.eq_render, ?_⟩
    rintro rfl
    exact Node.shows_renderAll t.nodes _
  case work => exact perform_nodes_alone _ t.nodes
  case answer => exact render_eq t overrides defaults

end Formulary.Template
