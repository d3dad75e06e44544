import Formulary.Formula
import Formulary.Library
import Formulary.Strategy.Lenient
import Formulary.Strategy.Strict

/-!
# Calculators

A calculator is a formula on a desk, with the variables, the functions and the strategy that it is
evaluated with.
-/

namespace Formulary

/-- A formula on a desk with the functions and the strategy that it is evaluated with. -/
structure Calculator extends Desk Formula where
  functions : Functions
  strategy : Strategy

namespace Calculator

abbrev formula (c : Calculator) : Formula := c.document

/-- A calculator without a formula, with the functions of the library and the lenient strategy. -/
def new (world : Ambient) : Calculator := ⟨.new, Library.functions world, .lenient⟩

def declare (c : Calculator) : Calculator := { c with toDesk := c.toDesk.declare }

/-- The calculator with the formula of a text, and the error if the text cannot be read. -/
def setText (c : Calculator) (text : String) : Except Error Unit × Calculator :=
  let (answer, desk) := c.toDesk.setText text
  (answer, { c with toDesk := desk })

def ofText (world : Ambient) (text : String) : Except Error Calculator :=
  match (new world).setText text with
  | (.ok (), c) => .ok c
  | (.error e, _) => .error e

/-- The value of the formula, with other variables and functions in the place of the calculator's
own where they are given. -/
def evaluateWith (c : Calculator) (vars : Option Variables) (functions : Option Functions) :
    Except Error Value :=
  c.formula.evaluate ⟨vars.getD c.vars, functions.getD c.functions, c.strategy⟩

def evaluate (c : Calculator) : Except Error Value := c.evaluateWith none none

end Calculator

end Formulary
