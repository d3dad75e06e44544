import Formulary.Error.Parsing
import Formulary.Template.Lexer

/-!
# Draining a source step by step

All tokens of a source are the one that it hands out next and all tokens of the source that is left.
The rules read on from a token that they drop, and a tokenizer that has read nothing ahead reads.
-/

namespace Formulary

def Token.content (token : Token) : TokenKind × String := (token.kind, token.text)

namespace Source

variable {σ : Type} [Source σ] {s s' : σ}

theorem drain_of_error {e : LexError} (h : next s = (.error e, s')) : drain s = ⟨[], some e, s'⟩ := by
  rw [drain]
  split <;> simp_all

theorem drain_of_none (h : next s = (.ok none, s')) : drain s = ⟨[], none, s'⟩ := by
  rw [drain]
  split <;> simp_all

theorem drain_of_token {token : Token} (h : next s = (.ok (some token), s')) :
    drain s = { drain s' with tokens := token :: (drain s').tokens } := by
  rw [drain]
  split <;> simp_all

theorem result_of_error {e : LexError} (h : next s = (.error e, s')) :
    (drain s).result = .error e := by
  rw [drain_of_error h, Drained.result]

theorem result_of_none (h : next s = (.ok none, s')) : (drain s).result = .ok [] := by
  rw [drain_of_none h, Drained.result]

theorem result_of_token {token : Token} (h : next s = (.ok (some token), s')) :
    (drain s).result = (drain s').result.map (token :: ·) := by
  rw [drain_of_token h, Drained.result, Drained.result]
  cases (drain s').error <;> rfl

/-- What every step hands out as long as the steps before it went well, all tokens have, those in
front of an error included. -/
theorem forall_mem_drain (Inv : σ → Prop) {P : Token → Prop}
    (hstep : ∀ s token s', Inv s → next s = (.ok (some token), s') → P token ∧ Inv s')
    (h : Inv s) : ∀ token ∈ (drain s).tokens, P token := by
  induction s using drain.induct with
  | case1 s token s' hnext ih =>
    obtain ⟨htoken, hleft⟩ := hstep s token s' h hnext
    rw [drain_of_token hnext]
    exact List.forall_mem_cons.mpr ⟨htoken, ih hleft⟩
  | case2 s s' hnext =>
    rw [drain_of_none hnext]
    exact List.forall_mem_nil P
  | case3 s e s' hnext =>
    rw [drain_of_error hnext]
    exact List.forall_mem_nil P

/-- What is drained is decided by the next step. -/
theorem result_congr {other : σ} (h : next s = next other) :
    (drain s).result = (drain other).result := by
  cases hnext : next other with
  | mk answer s' =>
    rw [hnext] at h
    match answer with
    | .error e => rw [result_of_error h, result_of_error hnext]
    | .ok none => rw [result_of_none h, result_of_none hnext]
    | .ok (some token) => rw [result_of_token h, result_of_token hnext]

end Source

theorem Tokenizer.next_eq_read {t : Tokenizer} (h : t.lookahead = none) :
    Source.next t = t.read := by
  change t.next = t.read
  rw [next, h]

/-- The first token of a text is the one that the rules read in front of it. -/
theorem Tokenizer.next_start {t : Tokenizer} {cursor after : Cursor} {token : Token}
    (h : t.rules.next cursor = (.ok (some token), after)) : (t.start cursor).next =
      (.ok (some token),
        { t.start cursor with cursor := some after, lastKind := some token.kind }) := by
  rw [next, start, read]
  dsimp only
  rw [h]

theorem Template.Lexer.next_eq_read {s : Lexer} (h : s.lookahead = none) :
    Source.next s = s.read := by
  change s.next = s.read
  rw [next, h]

end Formulary
