import Formulary.Error.Lexical
import Formulary.Lex.Token

/-!
# Sources of tokens

Something that hands out tokens one by one until it has none left or fails. Every token that is
handed out makes what is left smaller, so all of them can be collected.
-/

namespace Formulary

/-- A state from which tokens are taken, with the measure that shrinks. -/
class Source (σ : Type) where
  next : σ → Except LexError (Option Token) × σ
  left : σ → Nat
  shrinks : ∀ {s s' : σ} {token : Token}, next s = (.ok (some token), s') → left s' < left s

namespace Source

variable {σ : Type} [Source σ]

/-- What was handed out until the end or the first error. -/
structure Drained (σ : Type) where
  tokens : List Token
  error : Option LexError
  source : σ

/-- Takes all tokens up to the end or the first error. -/
def drain (s : σ) : Drained σ :=
  match _ : next s with
  | (.ok (some token), s') =>
    let rest := drain s'
    { rest with tokens := token :: rest.tokens }
  | (.ok none, s') => ⟨[], none, s'⟩
  | (.error e, s') => ⟨[], some e, s'⟩
termination_by left s
decreasing_by exact shrinks ‹_›

def Drained.result (drained : Drained σ) : Except LexError (List Token) :=
  match drained.error with
  | some e => .error e
  | none => .ok drained.tokens

end Source

end Formulary
