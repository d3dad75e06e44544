import Formulary.Calculator
import Formulary.Proofs.Desk.History
import Formulary.Proofs.Expr.Assembling

/-!
# What a calculator remembers

A calculator is asked to do one thing after another. Whatever came before, its formula is that of
the text that was set last, as a new calculator would have it, and a text that cannot be read leaves
nothing of the formula before it. All this is so because the formula is on a desk; the functions and
the strategy beside the desk are never touched by a text.
-/

namespace Formulary

namespace Formula

theorem text_of_read {text : String} {f : Formula} (h : read text = .ok f) : f.text = text := by
  obtain ⟨tokens, -, h⟩ := of_bind_ok h
  obtain ⟨signs, -, h⟩ := of_bind_ok h
  obtain ⟨tree, -, h⟩ := of_bind_ok h
  cases h
  rfl

/-- A parser assembles the program that the formula's expression is compiled to. -/
theorem set_stages (p : Parser Sign (Placed Instruction)) (text : String) :
    p.set stages text = Parser.outcome parser text (read text) := by
  refine Parser.settle_stage (tokenize text) fun all _ => ?_
  refine Parser.settle_stage (Sign.ofTokens (splitEnd all).1) fun signs _ => ?_
  -- The program is assembled here and compiled there, with the same faults.
  cases htree : Expr.ofSigns signs with
  | error stuck =>
    have hassemble : Assembler.assemble signs = .error stuck := by
      rw [Assembler.assemble_eq, htree]
      rfl
    rw [hassemble]
    rfl
  | ok tree =>
    have hassemble : Assembler.assemble signs = .ok (tree.elim [] Expr.program) := by
      rw [Assembler.assemble_eq, htree]
      rfl
    rw [hassemble]
    rfl

instance : LawfulDocument Formula where
  set_eq := set_stages
  text_of_read := text_of_read
  parser_blank _ := rfl
  firstSpellings_names := firstSpellings_variableNames

end Formula

/-- Something that a calculator is asked to do: what its desk is asked to do, or to change what is
beside the desk. The functions can be changed in any way. -/
inductive Calculator.Request
  | desk (request : Desk.Request)
  | changeFunctions (change : Functions → Functions)
  | setStrategy (strategy : Strategy)

namespace Calculator

namespace Request

def desk? : Request → Option Desk.Request
  | desk request => some request
  | _ => none

/-- Whether the variables are left in the hands of the calculator. -/
def keepsVars (request : Request) : Bool := request.desk?.all Desk.Request.keepsVars

end Request

def lastText? (requests : List Request) : Option String :=
  (Desk.texts (requests.filterMap Request.desk?)).getLast?

def perform (c : Calculator) : Request → Calculator
  | .desk (.setText text) => (c.setText text).2
  | .desk .declare => c.declare
  | .desk (.setDeclares declares) => { c with declares := declares }
  | .desk (.changeVars change) => { c with vars := change c.vars }
  | .changeFunctions change => { c with functions := change c.functions }
  | .setStrategy strategy => { c with strategy := strategy }

def after (c : Calculator) (requests : List Request) : Calculator := requests.foldl perform c

/-- What it means that a calculator sets a text: its desk does, and there is nothing on the desk of
a text that cannot be read. -/
structure Sets (before : Calculator) (text : String) (answer : Except Error Unit)
    (after : Calculator) : Prop extends Desk.Sets before.toDesk text answer after.toDesk where
  cleared : ∀ e, answer = .error e → after.formula.tokens = [] ∧ after.formula.signs = [] ∧
    after.formula.program = [] ∧ after.formula.variableNames = []
  functions : after.functions = before.functions
  strategy : after.strategy = before.strategy

variable {c : Calculator} {text : String}

theorem setText_of_ok {f : Formula} (h : Formula.read text = .ok f) :
    c.setText text = (.ok (), { c with
      document := f
      vars := if c.declares then c.vars.locateAll f.variableNames else c.vars }) := by
  rw [setText, Desk.setText_of_ok h]
  rfl

theorem setText_of_error {e : Error} (h : Formula.read text = .error e) :
    c.setText text = (.error e, { c with document := .blank text }) := by
  rw [setText, Desk.setText_of_error h]
  rfl

theorem sets_setText (c : Calculator) (text : String) :
    Sets c text (c.setText text).1 (c.setText text).2 := by
  have hdesk := Desk.sets_setText c.toDesk text
  refine { hdesk with cleared := fun e he => ?_, functions := rfl, strategy := rfl }
  have hblank := hdesk.emptied e he
  exact ⟨congrArg Parser.tokens hblank, congrArg Parser.signs hblank,
    congrArg Parser.result hblank, congrArg Parser.names hblank⟩

/-- The desk of a calculator does what the desk alone would do. -/
theorem toDesk_after (c : Calculator) (requests : List Request) :
    (c.after requests).toDesk = c.toDesk.after (requests.filterMap Request.desk?) := by
  induction requests generalizing c with
  | nil => rfl
  | cons request rest ih =>
    have hrest := ih (c.perform request)
    cases request with
    | desk request => cases request <;> exact hrest
    | changeFunctions | setStrategy => exact hrest

theorem vars_after (c : Calculator) (requests : List Request) :
    c.vars.toList <+: (c.after (requests.filter Request.keepsVars)).vars.toList := by
  rw [toDesk_after]
  refine Desk.vars_after c.toDesk fun request hrequest => ?_
  obtain ⟨asked, hasked, hdesk⟩ := List.mem_filterMap.mp hrequest
  have hkeeps := (List.mem_filter.mp hasked).2
  rwa [Request.keepsVars, hdesk] at hkeeps

/-- A calculator that was asked anything has the formula of a new one that sets the last text. When
it sets a text then, the text decides about the formula and nothing is left of the one before; the
functions, the strategy and whether it declares names stay as they were, and the variables too but
for the names that are declared behind them. As long as nobody else changes the variables, none of
them is ever renamed, moved or given another value. -/
theorem setText_after (world : Ambient) (requests : List Request) :
    let c := (new world).after requests
    (c.formula =
      (lastText? requests).elim (.blank "") fun text => ((new world).setText text).2.formula) ∧
    (∀ text, Sets c text (c.setText text).1 (c.setText text).2) ∧
    ∀ more : List Request,
      c.vars.toList <+: (c.after (more.filter Request.keepsVars)).vars.toList := by
  refine ⟨?_, sets_setText _, vars_after _⟩
  rw [formula, toDesk_after]
  exact Desk.document_after _

end Calculator

end Formulary
