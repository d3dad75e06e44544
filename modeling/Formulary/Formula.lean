import Formulary.Desk
import Formulary.Expr.Assembler
import Formulary.Expr.Machine

/-!
# Formulas

A formula is a text with the expression that it writes. A text without tokens writes no expression
and has no value; a text that cannot be read leaves a formula of the text alone.
-/

namespace Formulary

/-- A text with its tokens, their meanings and its expression. -/
structure Formula where
  text : String
  tokens : List Token
  signs : List (Placed Sign)
  tree : Option Expr

namespace Formula

def blank (text : String) : Formula := ⟨text, [], [], none⟩

/-- The tokens in front of the one for the end of the text, and the place of the end. -/
def splitEnd (tokens : List Token) : List Token × Position :=
  match tokens.getLast? with
  | some last =>
    (if last.kind = .eof then tokens.dropLast else tokens, last.position)
  | none => ([], .first)

/-- The tokens of a text, with the one for its end. -/
def tokenize (text : String) : Except Error (List Token) :=
  let lexicon := { Expr.lexicon with flags := Expr.lexicon.flags.set .skipEof false }
  (((Tokenizer.ofRules lexicon).tokenize text).result).mapError .lex

def read (text : String) : Except Error Formula := do
  let (tokens, finish) := splitEnd (← tokenize text)
  let signs ← Sign.ofTokens tokens
  let tree ← (Expr.ofSigns signs).mapError fun stuck => .parse (stuck.error Placed.position finish)
  return ⟨text, tokens, signs, tree⟩

def program (f : Formula) : Program := f.tree.elim [] Expr.program

/-- The names of the variables, each once and as it is first spelled, in the order of their use. -/
def variableNames (f : Formula) : List String :=
  Variables.spellings f.program.references

def evaluate (f : Formula) (env : Environment) : Except Error Value := f.program.evaluate env

/-- The stages of reading a formula. The program is assembled while the signs are read. -/
def stages : Parser.Stage Sign (Placed Instruction) Unit := do
  let (tokens, finish) := splitEnd (← tokenize (← get).text)
  let signs ← Sign.ofTokens tokens
  modify fun p => { p with tokens := tokens, signs := signs }
  let program ← (Assembler.assemble signs).mapError fun stuck =>
    Error.parse (stuck.error Placed.position finish)
  modify fun p => { p with result := program }
  modify fun p => { p with names := Variables.spellings (Program.references p.result) }

def parser (f : Formula) : Parser Sign (Placed Instruction) :=
  ⟨f.text, f.tokens, f.signs, f.program, f.variableNames⟩

instance : Document Formula Sign (Placed Instruction) := ⟨read, blank, stages, parser⟩

end Formula

end Formulary
