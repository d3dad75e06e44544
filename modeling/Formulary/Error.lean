import Formulary.Error.Evaluation
import Formulary.Error.Lexical
import Formulary.Error.Parsing

/-!
# Errors of every stage

A text can fail to be divided into tokens, the tokens can fail to make an expression or a template,
and an expression or a template can fail to have a value. A program for the stack machine can also
be malformed, which those made from expressions never are.
-/

namespace Formulary

/-- What is wrong with a program for the stack machine. -/
inductive Defect
  | underflow (position : Position)
  | noCount (position : Position)
  | leftover (count : Nat)
deriving DecidableEq, Repr

/-- The defect in words. Values that are left over have no place of their own. -/
def Defect.message : Defect → String
  | underflow position => "internal error at " ++ position.text ++ ": value stack underflow"
  | noCount position =>
    "internal error at " ++ position.text ++ ": function call without argument count"
  | leftover count =>
    "internal error at " ++ Position.text ⟨0, 0⟩ ++ ": evaluation left " ++ toString count ++
      " values on the stack"

/-- Why there is no result, by stage. -/
inductive Error
  | lex (error : LexError)
  | parse (error : ParseError)
  | eval (error : EvalError)
  | malformed (defect : Defect)
deriving DecidableEq, Repr

def Error.message : Error → String
  | lex e => "tokenizer error: " ++ e.message
  | parse e => "syntax error: " ++ e.message
  | eval e => "evaluation error: " ++ e.message
  | malformed defect => defect.message

end Formulary
