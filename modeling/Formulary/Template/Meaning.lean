import Formulary.Error.Evaluation
import Formulary.Template.Escape
import Formulary.Template.Node
import Formulary.Template.Scope
import Formulary.Value.Printer

/-!
# The meaning of templates

The text of a template by recursion on its nodes. Text stands as it is, a tag stands for the text of
its value, a comment for nothing, and a section for its body once in each of its scopes. Templates
cannot include others.
-/

namespace Formulary.Template

def textOf (value : Option Value) : String := value.elim "" Value.text

def Leaf.render (scope : Scope) (position : Position) : Leaf → Except EvalError String
  | literal text => .ok text
  | raw name => .ok (textOf (scope.resolve name))
  | escaped name => .ok (escape (textOf (scope.resolve name)))
  | inclusion name => .error (.partialsNotSupported name position)
  | comment _ => .ok ""

namespace Node

mutual

def render (scope : Scope) : Node → Except EvalError String
  | leaf l => l.content.render scope l.position
  | block o body => do
    let texts ← (scope.runs o.content).mapM fun value => renderAll (scope.inside value) body
    return String.join texts

def renderAll (scope : Scope) : List Node → Except EvalError String
  | [] => .ok ""
  | node :: rest => do
    let text ← node.render scope
    return text ++ (← renderAll scope rest)

end

end Node

end Formulary.Template
