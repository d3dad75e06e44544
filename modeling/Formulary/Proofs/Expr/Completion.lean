import Formulary.Proofs.Expr.Derivation

/-!
# Where reading gets stuck

Unless it runs out of levels, reading gets stuck only behind the beginning of an expression: what
stands before the place of the error can be brought to an end. The induction is on the readers. Each
of them completes what it has taken to a clear phrase that needs no more levels than the reader has,
by `NULL` where an operand or the word behind `IS` is missing, and by the parentheses and brackets
that are still open.
-/

namespace Formulary

open Formulary.Expr

namespace Sign

/-- Whether a token is `NULL` or a closing parenthesis or bracket. These bring any expression to an
end. -/
def finishes : Sign → Bool
  | constant .null | closeParenthesis | closeBracket => true
  | _ => false

def isName : Sign → Bool
  | name _ => true
  | _ => false

end Sign

def endInName (tokens : List (Placed Sign)) : Bool := tokens.getLast?.any (·.content.isName)

/-- Some tokens begin with what stands in front of `rest` in other tokens, and end with tokens that
finish them. The cut does not part a name from a parenthesis that calls it. -/
def Completes (tokens rest whole : List (Placed Sign)) : Prop :=
  ∃ front ending, tokens = front ++ rest ∧ whole = front ++ ending ∧
    (∀ token ∈ ending, token.content.finishes = true) ∧
    (endInName front = true → callAhead rest = false)

theorem endInName_concat (front : List (Placed Sign)) (token : Placed Sign) :
    endInName (front ++ [token]) = token.content.isName := by
  rw [endInName, List.getLast?_concat, Option.any_some]

theorem endInName_append {tokens : List (Placed Sign)} (front : List (Placed Sign))
    (h : tokens ≠ []) : endInName (front ++ tokens) = endInName tokens := by
  rw [endInName, endInName, List.getLast?_append, List.getLast?_eq_some_getLast h, Option.some_or]

namespace Completes

variable {tokens rest whole : List (Placed Sign)}

/-- What is finished without any token in front. -/
theorem here (rest : List (Placed Sign)) {ending : List (Placed Sign)}
    (h : ∀ token ∈ ending, token.content.finishes = true) : Completes rest rest ending :=
  ⟨[], ending, rfl, rfl, h, nofun⟩

/-- What is complete as it stands in front of other tokens. -/
theorem complete (h : endInName whole = true → callAhead rest = false) :
    Completes (whole ++ rest) rest whole :=
  ⟨whole, [], rfl, (List.append_nil _).symm, nofun, h⟩

/-- Tokens that do not end in a name can be put in front. -/
theorem behind (front : List (Placed Sign)) (hfront : endInName front = false)
    (h : Completes tokens rest whole) : Completes (front ++ tokens) rest (front ++ whole) := by
  obtain ⟨middle, ending, rfl, rfl, hfinishes, huncut⟩ := h
  refine ⟨front ++ middle, ending, (List.append_assoc ..).symm, (List.append_assoc ..).symm,
    hfinishes, fun hname => ?_⟩
  by_cases hmiddle : middle = []
  · rw [hmiddle, List.append_nil, hfront] at hname
    cases hname
  · rw [endInName_append front hmiddle] at hname
    exact huncut hname

theorem finish {token : Placed Sign} (htoken : token.content.finishes = true)
    (h : Completes tokens rest whole) : Completes tokens rest (whole ++ [token]) := by
  obtain ⟨front, ending, rfl, rfl, hfinishes, huncut⟩ := h
  refine ⟨front, ending ++ [token], rfl, List.append_assoc .., fun other hother => ?_, huncut⟩
  rcases List.mem_append.mp hother with hother | hother
  · exact hfinishes other hother
  · rw [List.mem_singleton.mp hother]
    exact htoken

end Completes

/-! Phrases that complete tokens -/

/-- A phrase that a reader with so many levels takes at a power, and that completes tokens. -/
structure Phrase.Completes (phrase : Phrase) (depth power : Nat)
    (tokens rest : List (Placed Sign)) : Prop where
  clear : phrase.clear power = true
  nesting : phrase.nesting ≤ depth
  tokens : Formulary.Completes tokens rest phrase.tokens

/-- Arguments that complete tokens, without the parenthesis behind them. -/
structure Phrases.Completes (args : Phrases) (depth : Nat)
    (tokens rest : List (Placed Sign)) : Prop where
  clear : args.clear = true
  nesting : args.nesting ≤ depth
  tokens : Formulary.Completes tokens rest args.tokens

namespace Phrase

variable {depth power : Nat} {tokens rest all : List (Placed Sign)} {left e : Expr}
  {phrase l i r : Phrase}

theorem tokens_ne_nil (phrase : Phrase) : phrase.tokens ≠ [] := by
  obtain ⟨token, more, htokens, -⟩ := phrase.exists_tokens_eq_cons
  rw [htokens]
  exact List.cons_ne_nil token more

theorem endInName_tokens (phrase : Phrase) : endInName phrase.tokens = phrase.endsInName := by
  cases phrase with
  | constant | reference | bareCall => rfl
  | call name p o args c =>
    exact endInName_concat (⟨.name name, p⟩ :: ⟨.openParenthesis, o⟩ :: args.tokens) _
  | group o e _ => exact endInName_concat (⟨.openParenthesis, o⟩ :: e.tokens) _
  | front op p e =>
    exact (endInName_append [⟨op.sign, p⟩] e.tokens_ne_nil).trans e.endInName_tokens
  | index e o i c =>
    rw [Phrase.tokens, ← List.cons_append, ← List.append_assoc]
    exact endInName_concat ..
  | test e words =>
    cases words with
    | isNull p q => exact endInName_append e.tokens (List.cons_ne_nil _ [_])
    | isNotNull p n q => exact endInName_append e.tokens (List.cons_ne_nil _ [_, _])
  | joined l link r =>
    rw [Phrase.tokens, ← List.append_assoc, endInName_append _ r.tokens_ne_nil]
    exact r.endInName_tokens

/-- Wherever an operand is missing, `NULL` is one. -/
theorem completes_null (depth power : Nat) (rest : List (Placed Sign)) :
    (constant .null .first).Completes (depth + 1) power rest rest where
  clear := rfl
  nesting := Nat.le_add_left ..
  tokens := .here rest (by simp [Phrase.tokens, Sign.finishes])

/-- A phrase that was read is complete. -/
theorem Fronts.completes (h : phrase.Fronts depth power tokens e rest) :
    phrase.Completes depth power tokens rest where
  clear := h.clear
  nesting := h.nesting
  tokens := by
    rw [h.tokens]
    exact .complete fun hname => h.uncalled (phrase.endInName_tokens ▸ hname)

theorem Completes.group (o : Position) (h : phrase.Completes depth 0 tokens rest) :
    (Phrase.group o phrase .first).Completes (depth + 1) power
      (⟨.openParenthesis, o⟩ :: tokens) rest where
  clear := h.clear
  nesting := Nat.succ_le_succ h.nesting
  tokens := (h.tokens.finish rfl).behind [⟨.openParenthesis, o⟩] rfl

theorem Completes.front (op : Front) (p : Position)
    (h : phrase.Completes depth op.power tokens rest) :
    (Phrase.front op p phrase).Completes (depth + 1) power (⟨op.sign, p⟩ :: tokens) rest where
  clear := h.clear
  nesting := Nat.succ_le_succ h.nesting
  tokens := h.tokens.behind [⟨op.sign, p⟩] (by cases op <;> rfl)

theorem Completes.index (o : Position)
    (hl : l.Fronts (depth + 1) power all left (⟨.openBracket, o⟩ :: tokens))
    (hpower : power ≤ BinaryOperation.leftPower .element)
    (hi : i.Completes depth (BinaryOperation.rightPower .element) tokens rest) :
    (Phrase.index l o i .first).Completes (depth + 1) power all rest where
  clear := by simp [Phrase.clear, hl.clear, hi.clear, hl.released _ rfl, hpower]
  nesting := Nat.max_le.mpr ⟨hl.nesting, Nat.succ_le_succ hi.nesting⟩
  tokens := by
    have hbracket := endInName_concat l.tokens ⟨.openBracket, o⟩
    have hclosed : Formulary.Completes tokens rest (i.tokens ++ [⟨.closeBracket, .first⟩]) :=
      hi.tokens.finish rfl
    have hcompletes := hclosed.behind (l.tokens ++ [⟨.openBracket, o⟩]) hbracket
    simpa [hl.tokens, Phrase.tokens] using hcompletes

theorem Completes.test {words : Test} {p : Position} {more : List (Placed Sign)}
    (hl : l.Fronts (depth + 1) power all left (⟨.is, p⟩ :: tokens)) (hpower : power ≤ testPower)
    (hwords : words.tokens = ⟨.is, p⟩ :: more) (hmore : Formulary.Completes tokens rest more) :
    (Phrase.test l words).Completes (depth + 1) power all rest where
  clear := by simp [Phrase.clear, hl.clear, hl.released _ rfl, hpower]
  nesting := hl.nesting
  tokens := by
    have hcompletes := hmore.behind (l.tokens ++ [⟨.is, p⟩]) (endInName_concat ..)
    simpa [hl.tokens, Phrase.tokens, hwords] using hcompletes

/-- A right operand that completes tokens does so behind its left operand. -/
theorem Completes.joined (link : Link)
    (hl : l.Fronts (depth + 1) power all left (link.tokens ++ tokens))
    (hpower : power ≤ link.operation.leftPower)
    (hr : r.Completes depth link.operation.rightPower tokens rest) :
    (Phrase.joined l link r).Completes (depth + 1) power all rest where
  clear := by
    have hreleased := hl.released _ (leftPowerAhead?_link link)
    simp [Phrase.clear, hl.clear, hr.clear, hreleased, hpower]
  nesting := Nat.max_le.mpr ⟨hl.nesting, Nat.succ_le_succ hr.nesting⟩
  tokens := by
    have hlink : endInName (l.tokens ++ link.tokens) = false := by
      cases link <;> exact endInName_append l.tokens (List.cons_ne_nil _ _)
    have hcompletes := hr.tokens.behind (l.tokens ++ link.tokens) hlink
    simpa [hl.tokens, Phrase.tokens] using hcompletes

end Phrase

theorem Phrases.Completes.call {args : Phrases} {depth power : Nat}
    {tokens rest : List (Placed Sign)}
    (name : String) (p o : Position) (h : args.Completes depth tokens rest) :
    (Phrase.call name p o args .first).Completes (depth + 1) power
      (⟨.name name, p⟩ :: ⟨.openParenthesis, o⟩ :: tokens) rest where
  clear := h.clear
  nesting := Nat.succ_le_succ h.nesting
  tokens := (h.tokens.finish rfl).behind [⟨.name name, p⟩, ⟨.openParenthesis, o⟩] rfl

namespace Expr

/-- A reader that gets stuck, but not for want of levels, has taken tokens that a phrase
completes. -/
def Reader.Completes (r : Reader) (depth : Nat) : Prop :=
  ∀ {power tokens s}, r.read power tokens = .error s → s.fault.sort ≠ .nestingTooDeep →
    ∃ phrase : Phrase, phrase.Completes depth power tokens s.rest

variable {r : Reader} {depth power : Nat} {tokens : List (Placed Sign)} {s : Stuck (Placed Sign)}

theorem rest_of_closeParenthesis (h : closeParenthesis tokens = .error s) : s.rest = tokens := by
  unfold closeParenthesis at h
  split at h
  · cases h
    rfl
  · split at h <;> cases h <;> rfl

theorem rest_of_closeBracket (h : closeBracket tokens = .error s) : s.rest = tokens := by
  unfold closeBracket at h
  split at h
  · cases h
    rfl
  · split at h <;> cases h <;> rfl

/-- Behind `IS`, or `IS` and `NOT`, the word `NULL` is missing. -/
theorem nullTest_completes (place : Position) (h : nullTest tokens = .error s) :
    ∃ (words : Test) (more : List (Placed Sign)), words.tokens = ⟨.is, place⟩ :: more ∧
      Formulary.Completes tokens s.rest more := by
  have hnull : ∀ token ∈ [(⟨.constant .null, .first⟩ : Placed Sign)],
      token.content.finishes = true := by simp [Sign.finishes]
  unfold nullTest at h
  split at h <;> cases h
  · next p rest _ =>
    exact ⟨.isNotNull place p .first, _, rfl, (Completes.here rest hnull).behind [⟨.not, p⟩] rfl⟩
  · exact ⟨.isNull place .first, _, rfl, .here tokens hnull⟩

/-- Arguments that get stuck have taken tokens that arguments complete. -/
theorem arguments_completes (hsound : r.Sound depth) (hr : r.Completes depth)
    (h : arguments r tokens = .error s) (hs : s.fault.sort ≠ .nestingTooDeep) :
    ∃ args : Phrases, args.Completes depth tokens s.rest := by
  fun_induction arguments r tokens with
  | case1 tokens stuck hread =>
    cases h
    obtain ⟨phrase, hphrase⟩ := hr hread hs
    exact ⟨.last phrase, hphrase.clear, hphrase.nesting, hphrase.tokens⟩
  | case2 tokens first p more hread _ ih =>
    obtain ⟨args, hargs⟩ := ih (of_map_error h)
    obtain ⟨⟨phrase, hphrase⟩, -⟩ := hsound hread
    refine ⟨.more phrase p args, ?_, Nat.max_le.mpr ⟨hphrase.nesting, hargs.nesting⟩, ?_⟩
    · rw [Phrases.clear, hphrase.clear, hargs.clear, Bool.and_self]
    · have hcompletes := hargs.tokens.behind (phrase.tokens ++ [⟨.comma, p⟩])
        (endInName_concat ..)
      simpa [hphrase.tokens, Phrases.tokens] using hcompletes
  | case3 tokens first rest hread =>
    obtain ⟨⟨phrase, hphrase⟩, -⟩ := hsound hread
    rw [rest_of_closeParenthesis (of_map_error h)]
    have hcompletes := hphrase.completes
    exact ⟨.last phrase, hcompletes.clear, hcompletes.nesting, hcompletes.tokens⟩

/-- The operand at which reading gets stuck can be completed at any power. -/
theorem operand_completes (hsound : r.Sound depth) (hr : r.Completes depth) (power : Nat)
    (h : operand r tokens = .error s) (hs : s.fault.sort ≠ .nestingTooDeep) :
    ∃ phrase : Phrase, phrase.Completes (depth + 1) power tokens s.rest := by
  unfold operand at h
  split at h
  · cases h
    exact ⟨_, Phrase.completes_null depth power []⟩
  · cases h
  · cases h
  · next name p o _ _ =>
    obtain ⟨args, hargs⟩ := arguments_completes hsound hr (of_map_error h) hs
    exact ⟨_, hargs.call name p o⟩
  · cases h
  · next o _ =>
    rcases of_bind_error h with hread | ⟨⟨e, rest⟩, hread, hclose⟩
    · obtain ⟨phrase, hphrase⟩ := hr hread hs
      exact ⟨_, hphrase.group o⟩
    · obtain ⟨⟨phrase, hphrase⟩, -⟩ := hsound hread
      rw [rest_of_closeParenthesis (of_map_error hclose)]
      exact ⟨_, hphrase.completes.group o⟩
  · next p _ =>
    obtain ⟨phrase, hphrase⟩ := hr (of_map_error h) hs
    exact ⟨_, hphrase.front .minus p⟩
  · next p _ =>
    obtain ⟨phrase, hphrase⟩ := hr h hs
    exact ⟨_, hphrase.front .plus p⟩
  · next p _ =>
    obtain ⟨phrase, hphrase⟩ := hr (of_map_error h) hs
    exact ⟨_, hphrase.front .not p⟩
  · cases h
    exact ⟨_, Phrase.completes_null depth power _⟩
  · cases h
    exact ⟨_, Phrase.completes_null depth power _⟩

/-- The operation at which reading gets stuck can be completed. -/
theorem extendOnce_completes {left : Expr} {all : List (Placed Sign)} {l : Phrase}
    (hsound : r.Sound depth) (hr : r.Completes depth)
    (hl : l.Fronts (depth + 1) power all left tokens)
    (h : extendOnce r power left tokens = some (.error s)) (hs : s.fault.sort ≠ .nestingTooDeep) :
    ∃ phrase : Phrase, phrase.Completes (depth + 1) power all s.rest := by
  unfold extendOnce at h
  split at h
  · cases h
  · next o rest =>
    split at h
    · cases h
    · next hpower =>
      rcases of_bind_error (Option.some.inj h) with hread | ⟨⟨e, rest'⟩, hread, hclose⟩
      · obtain ⟨i, hi⟩ := hr hread hs
        exact ⟨_, .index o hl (Nat.le_of_not_lt hpower) hi⟩
      · obtain ⟨⟨i, hi⟩, -⟩ := hsound hread
        rw [rest_of_closeBracket (of_map_error hclose)]
        exact ⟨_, .index o hl (Nat.le_of_not_lt hpower) hi.completes⟩
  · next p rest =>
    split at h
    · cases h
    · next hpower =>
      obtain ⟨words, more, hwords, hmore⟩ :=
        nullTest_completes p (of_map_error (Option.some.inj h))
      exact ⟨_, .test hl (Nat.le_of_not_lt hpower) hwords hmore⟩
  · next sign p rest _ _ =>
    split at h
    · cases h
    · next op rest' hahead =>
      split at h
      · cases h
      · next hpower =>
        obtain ⟨link, rfl, -, htokens⟩ := of_binaryAhead? hahead
        obtain ⟨phrase, hphrase⟩ := hr (of_map_error (Option.some.inj h)) hs
        rw [htokens] at hl
        exact ⟨_, .joined link hl (Nat.le_of_not_lt hpower) hphrase⟩

/-- An expression that gets stuck while it is extended has taken tokens that a phrase completes. -/
theorem extend_completes {left : Expr} {all : List (Placed Sign)} {l : Phrase}
    (hsound : r.Sound depth) (hr : r.Completes depth)
    (hl : l.Fronts (depth + 1) power all left tokens)
    (h : extend r power left tokens = .error s) (hs : s.fault.sort ≠ .nestingTooDeep) :
    ∃ phrase : Phrase, phrase.Completes (depth + 1) power all s.rest := by
  fun_induction extend r power left tokens generalizing l with
  | case1 => cases h
  | case2 left tokens stuck hstep =>
    cases h
    exact extendOnce_completes hsound hr hl hstep hs
  | case3 left tokens e rest hstep ih =>
    obtain ⟨phrase, hphrase⟩ := extendOnce_sound hsound hl hstep
    exact ih hphrase h

/-- A reader of any depth that gets stuck has taken tokens that a phrase completes. -/
theorem reader_completes (depth : Nat) : (reader depth).Completes depth := by
  induction depth with
  | zero =>
    intro power tokens s h hs
    cases h
    exact (hs rfl).elim
  | succ depth ih =>
    intro power tokens s h hs
    rcases of_bind_error h with hfirst | ⟨⟨first, rest⟩, hfirst, hextend⟩
    · exact operand_completes (reader_sound depth) ih power hfirst hs
    · obtain ⟨phrase, hphrase⟩ := operand_sound (reader_sound depth) power hfirst
      exact extend_completes (reader_sound depth) ih hphrase hextend hs

/-- Where all tokens together get stuck, a phrase completes those in front. -/
theorem ofSigns_completes (h : ofSigns tokens = .error s)
    (hs : s.fault.sort ≠ .nestingTooDeep) :
    ∃ phrase : Phrase, phrase.Completes levels 0 tokens s.rest := by
  unfold ofSigns at h
  split at h
  · cases h
  · split at h
    · next hread =>
      cases h
      exact reader_completes levels hread hs
    · cases h
    · next hread =>
      cases h
      obtain ⟨⟨phrase, hphrase⟩, -⟩ := reader_sound levels hread
      exact ⟨phrase, hphrase.completes⟩

end Expr

/-! What finishes an expression is written by tokens -/

namespace Sign

def calls (rest : List Token) : Bool := rest.head?.any (·.is .symbol "(")

variable {token : Token} {raw rest : List Token} {sign : Sign} {signs : List (Placed Sign)}

theorem ofTokens_cons (hsign : ofTokenBefore token rest = .ok sign)
    (hsigns : ofTokens rest = .ok signs) :
    ofTokens (token :: rest) = .ok (⟨sign, token.position⟩ :: signs) := by
  rw [ofTokens, hsign, hsigns]
  rfl

theorem of_ofTokens_cons (h : ofTokens (token :: rest) = .ok signs) :
    ∃ sign more, ofTokenBefore token rest = .ok sign ∧ ofTokens rest = .ok more ∧
      signs = ⟨sign, token.position⟩ :: more := by
  obtain ⟨sign, hsign, hmore⟩ := of_bind_ok h
  obtain ⟨more, hrest, hsigns⟩ := of_bind_ok hmore
  exact ⟨sign, more, hsign, hrest, (Except.ok.inj hsigns).symm⟩

theorem ofTokenBefore_eq (token : Token) (rest : List Token) : ofTokenBefore token rest =
    if calls rest && isNullWord token then .ok (name token.text) else ofToken token := rfl

/-- A token means the same in front of any tokens that call it or do not call it alike. -/
theorem ofTokenBefore_congr {other : List Token} (token : Token) (h : calls rest = calls other) :
    ofTokenBefore token rest = ofTokenBefore token other := by
  rw [ofTokenBefore_eq, ofTokenBefore_eq, h]

theorem ofTokenBefore_of_uncalled (h : calls rest = false) :
    ofTokenBefore token rest = ofToken token := by
  rw [ofTokenBefore_eq, h]
  rfl

theorem callAhead_of_calls (h : ofTokens raw = .ok signs) (hcalls : calls raw = true) :
    callAhead signs = true := by
  cases raw with
  | nil => cases hcalls
  | cons token rest =>
    obtain ⟨kind, text, place⟩ := token
    have his : kind = .symbol ∧ text = "(" := by
      simpa [calls, Token.is] using hcalls
    obtain ⟨rfl, rfl⟩ := his
    obtain ⟨sign, more, hsign, -, rfl⟩ := of_ofTokens_cons h
    have hparenthesis : ofTokenBefore ⟨.symbol, "(", place⟩ rest = .ok .openParenthesis := by
      have hword : isNullWord ⟨.symbol, "(", place⟩ = false := rfl
      rw [ofTokenBefore_eq, hword, Bool.and_false]
      rfl
    rw [hparenthesis] at hsign
    cases hsign
    rfl

/-- A token that is no name in front of a call means the same elsewhere. -/
theorem ofToken_of_uncalled (h : ofTokenBefore token rest = .ok sign)
    (hname : sign.isName = true → calls rest = false) : ofToken token = .ok sign := by
  cases hcalls : calls rest with
  | false => rwa [ofTokenBefore_of_uncalled hcalls] at h
  | true =>
    rw [ofTokenBefore_eq, hcalls, Bool.true_and] at h
    split at h
    · cases h
      rw [hname rfl] at hcalls
      cases hcalls
    · exact h

/-- Tokens keep their meanings when others stand behind the cut, since the cut does not part a name
from a parenthesis that calls it. -/
theorem ofTokens_take_append {front behind more : List (Placed Sign)} {ending : List Token}
    (h : ofTokens raw = .ok (front ++ behind))
    (hcut : endInName front = true → callAhead behind = false)
    (hending : ofTokens ending = .ok more) (hcalls : calls ending = false) :
    ofTokens (raw.take front.length ++ ending) = .ok (front ++ more) := by
  induction front generalizing raw with
  | nil => exact hending
  | cons first front ih =>
    cases raw with
    | nil => cases h
    | cons token raw =>
      obtain ⟨sign, signs, hsign, hrest, heq⟩ := of_ofTokens_cons h
      obtain ⟨rfl, rfl⟩ := List.cons.inj heq
      by_cases hfront : front = []
      · subst hfront
        have hmeaning : ofToken token = .ok sign := by
          refine ofToken_of_uncalled hsign fun hname => Bool.eq_false_iff.mpr fun hcalled => ?_
          have hcall : callAhead behind = true := callAhead_of_calls hrest hcalled
          rw [hcut hname] at hcall
          cases hcall
        exact ofTokens_cons ((ofTokenBefore_of_uncalled hcalls).trans hmeaning) hending
      · have hbehind := ih hrest fun hname =>
          hcut ((endInName_append [_] hfront).trans hname)
        have hsame : calls (raw.take front.length ++ ending) = calls raw := by
          obtain ⟨second, others, rfl⟩ := List.exists_cons_of_ne_nil hfront
          cases raw with
          | nil => cases hrest
          | cons next raw => rfl
        exact ofTokens_cons ((ofTokenBefore_congr token hsame).trans hsign) hbehind

/-- What finishes an expression is written by tokens that call nothing. -/
theorem exists_ofTokens_eq {more : List (Placed Sign)}
    (h : ∀ token ∈ more, token.content.finishes = true) :
    ∃ ending, ofTokens ending = .ok more ∧ calls ending = false := by
  induction more with
  | nil => exact ⟨[], rfl, rfl⟩
  | cons first more ih =>
    obtain ⟨ending, hending, hcalls⟩ := ih fun token htoken => h token (.tail _ htoken)
    have hwritten (kind : TokenKind) (text : String)
        (hmeaning : ofToken ⟨kind, text, first.position⟩ = .ok first.content)
        (hsymbol : Token.is ⟨kind, text, first.position⟩ .symbol "(" = false) :
        ∃ ending, ofTokens ending = .ok (first :: more) ∧ calls ending = false :=
      ⟨⟨kind, text, first.position⟩ :: ending,
        ofTokens_cons ((ofTokenBefore_of_uncalled hcalls).trans hmeaning) hending, hsymbol⟩
    have hnull (p : Position) : ofToken ⟨.keyword, "NULL", p⟩ = .ok (constant .null) := by
      simp [ofToken, orUnknown, ofKeyword, Text.equalIgnoringCase]
    have hparenthesis (p : Position) : ofToken ⟨.symbol, ")", p⟩ = .ok closeParenthesis := by
      simp [ofToken, orUnknown, ofSymbol]
    have hbracket (p : Position) : ofToken ⟨.symbol, "]", p⟩ = .ok closeBracket := by
      simp [ofToken, orUnknown, ofSymbol]
    have hfinishes := h first List.mem_cons_self
    unfold finishes at hfinishes
    split at hfinishes
    · next heq => exact hwritten .keyword "NULL" ((hnull _).trans (congrArg _ heq.symm)) rfl
    · next heq =>
      exact hwritten .symbol ")" ((hparenthesis _).trans (congrArg _ heq.symm)) (by simp [Token.is])
    · next heq =>
      exact hwritten .symbol "]" ((hbracket _).trans (congrArg _ heq.symm)) (by simp [Token.is])
    · cases hfinishes

end Sign

namespace Expr

/-- What it means that reading gets stuck at a token, or at the end: the error has the place of the
token or of the end, and the tokens before it begin an expression, which can be written behind
whatever wrote them. -/
structure StuckAt (tokens : List (Placed Sign)) (s : Stuck (Placed Sign)) (k : Nat) : Prop where
  le_length : k ≤ tokens.length
  rest_eq : s.rest = tokens.drop k
  position : ∀ finish, (s.error Placed.position finish).position =
    (tokens[k]?.map Placed.position).getD finish
  completes : ∃ more e, ofSigns (tokens.take k ++ more) = .ok (some e) ∧
    ∀ raw, Sign.ofTokens raw = .ok tokens →
      ∃ ending, Sign.ofTokens (raw.take k ++ ending) = .ok (tokens.take k ++ more)

/-- Tokens that cannot be read, but not for want of levels, are stuck at a place up to which they
begin an expression. -/
theorem exists_stuckAt {tokens : List (Placed Sign)} {s : Stuck (Placed Sign)}
    (h : ofSigns tokens = .error s) (hs : s.fault.sort ≠ .nestingTooDeep) :
    ∃ k, StuckAt tokens s k := by
  obtain ⟨phrase, hclear, hnesting, front, more, htokens, hphrase, hfinishes, hcut⟩ :=
    ofSigns_completes h hs
  have hread := (ofSigns_attains hclear).reached hnesting
  have htake : tokens.take front.length = front := by rw [htokens, List.take_left]
  have hdrop : tokens.drop front.length = s.rest := by rw [htokens, List.drop_left]
  refine ⟨front.length, ?_, hdrop.symm, fun finish => ?_, more, phrase.tree, ?_, fun raw hraw => ?_⟩
  · rw [htokens, List.length_append]
    exact Nat.le_add_right ..
  · rw [Stuck.error, ← hdrop, List.head?_drop]
  · rw [htake, ← hphrase, hread]
  · obtain ⟨ending, hending, hcalls⟩ := Sign.exists_ofTokens_eq hfinishes
    rw [htokens] at hraw
    rw [htake]
    exact ⟨ending, Sign.ofTokens_take_append hraw hcut hending hcalls⟩

/-- In `(-a IS b` the last name stands in the place of `NULL`. -/
theorem exists_stuckAt_second_name :
    let tokens : List (Placed Sign) := [
      ⟨.openParenthesis, ⟨1, 1⟩⟩, ⟨.operator .sub, ⟨1, 2⟩⟩, ⟨.name "a", ⟨1, 3⟩⟩, ⟨.is, ⟨1, 5⟩⟩,
      ⟨.name "b", ⟨1, 8⟩⟩]
    ∃ s, ofSigns tokens = .error s ∧ s.fault = .expectedNull ∧ s.rest.length = 1 ∧
      ∃ k, StuckAt tokens s k := by
  intro tokens
  have hstuck : (match ofSigns tokens with
      | .error s => s.fault == .expectedNull && s.rest.length == 1
      | .ok _ => false) = true := by
    decide +kernel
  cases hsigns : ofSigns tokens with
  | ok e =>
    rw [hsigns] at hstuck
    cases hstuck
  | error s =>
    rw [hsigns, Bool.and_eq_true, beq_iff_eq, beq_iff_eq] at hstuck
    obtain ⟨hfault, hrest⟩ := hstuck
    exact ⟨s, rfl, hfault, hrest, exists_stuckAt hsigns (by rw [hfault]; decide)⟩

end Expr

end Formulary
