import Formulary.Proofs.Expr.Reading

/-!
# What is read was written

Whatever a reader takes from the front of some tokens are the tokens of a phrase that is clear at
the reader's power and needs no more levels than the reader has. A reader stops only where what
stands behind reaches neither its own power nor that of an operand at the end of the phrase, and
this is what keeps a phrase clear when it becomes a left operand. So the expressions that are read
are those of the clear phrases within the levels, and no others.
-/

namespace Formulary

open Formulary.Expr

/-- Whether the last token of a phrase is a name, which a parenthesis behind it would call. -/
def Phrase.endsInName : Phrase → Bool
  | .reference .. => true
  | .front _ _ e => e.endsInName
  | .joined _ _ r => r.endsInName
  | _ => false

/-- A phrase that stands at the front of tokens, and what is left behind it. -/
structure Phrase.Fronts (phrase : Phrase) (depth power : Nat) (tokens : List (Placed Sign))
    (e : Expr) (rest : List (Placed Sign)) : Prop where
  tree : phrase.tree = e
  tokens : tokens = phrase.tokens ++ rest
  clear : phrase.clear power = true
  nesting : phrase.nesting ≤ depth
  released : ∀ k, leftPowerAhead? rest = some k → phrase.releases k = true
  uncalled : phrase.endsInName = true → callAhead rest = false

/-- Arguments that stand at the front of tokens, and what is left behind their parenthesis. -/
structure Phrases.Fronts (args : Phrases) (depth : Nat) (tokens : List (Placed Sign))
    (es : List Expr) (closed : Position) (rest : List (Placed Sign)) : Prop where
  trees : args.trees = es
  tokens : tokens = args.tokens ++ ⟨.closeParenthesis, closed⟩ :: rest
  clear : args.clear = true
  nesting : args.nesting ≤ depth

namespace Phrase.Fronts

variable {depth power : Nat} {all tokens rest : List (Placed Sign)} {left right e : Expr}
  {l r i phrase : Phrase}

/-- With parentheses around it, a phrase goes in front of anything. -/
theorem group (o c : Position)
    (h : phrase.Fronts depth 0 tokens e (⟨.closeParenthesis, c⟩ :: rest)) :
    (Phrase.group o phrase c).Fronts (depth + 1) power (⟨.openParenthesis, o⟩ :: tokens) e
      rest := by
  refine ⟨h.tree, ?_, h.clear, Nat.succ_le_succ h.nesting, fun _ _ => rfl, nofun⟩
  simp [h.tokens, Phrase.tokens]

theorem front (op : Front) (p : Position) (h : phrase.Fronts depth op.power tokens e rest)
    (hstop : ∀ k, leftPowerAhead? rest = some k → k < op.power) :
    (Phrase.front op p phrase).Fronts (depth + 1) power (⟨op.sign, p⟩ :: tokens)
      (match op.operation? with
        | none => e
        | some op => .unary op e p) rest := by
  refine ⟨?_, ?_, h.clear, Nat.succ_le_succ h.nesting, ?_, h.uncalled⟩
  · cases op <;> simp only [Phrase.tree, Front.operation?, h.tree]
  · rw [h.tokens, Phrase.tokens, List.cons_append]
  · intro k hk
    simp [Phrase.releases, hstop k hk, h.released k hk]

/-- The phrase in front of a bracket becomes a left operand, and releases the bracket because it
stands right behind. -/
theorem index (o c : Position)
    (h : l.Fronts (depth + 1) power all left (⟨.openBracket, o⟩ :: tokens))
    (hpower : power ≤ BinaryOperation.leftPower .element)
    (hi : i.Fronts depth (BinaryOperation.rightPower .element) tokens right
      (⟨.closeBracket, c⟩ :: rest)) :
    (Phrase.index l o i c).Fronts (depth + 1) power all (.binary .element left right o) rest := by
  refine ⟨?_, ?_, ?_, Nat.max_le.mpr ⟨h.nesting, Nat.succ_le_succ hi.nesting⟩, fun _ _ => rfl,
    nofun⟩
  · rw [Phrase.tree, h.tree, hi.tree]
  · simp [h.tokens, hi.tokens, Phrase.tokens]
  · simp [Phrase.clear, h.clear, hi.clear, h.released _ rfl, hpower]

theorem test (words : Test) (h : phrase.Fronts depth power all e (words.tokens ++ rest))
    (hpower : power ≤ testPower) :
    (Phrase.test phrase words).Fronts depth power all (.unary words.operation e words.place)
      rest := by
  have hreleased := h.released _ (leftPowerAhead?_test words)
  refine ⟨?_, ?_, ?_, h.nesting, fun _ _ => rfl, nofun⟩
  · rw [Phrase.tree, h.tree]
  · rw [h.tokens, Phrase.tokens, List.append_assoc]
  · simp [Phrase.clear, h.clear, hreleased, hpower]

/-- Two phrases with a link between them stand at the front as one phrase. -/
theorem joined (link : Link) (h : l.Fronts (depth + 1) power all left (link.tokens ++ tokens))
    (hpower : power ≤ link.operation.leftPower)
    (hr : r.Fronts depth link.operation.rightPower tokens right rest)
    (hstop : ∀ k, leftPowerAhead? rest = some k → k < link.operation.rightPower) :
    (Phrase.joined l link r).Fronts (depth + 1) power all
      (.binary link.operation left right link.place) rest := by
  have hreleased := h.released _ (leftPowerAhead?_link link)
  refine ⟨?_, ?_, ?_, Nat.max_le.mpr ⟨h.nesting, Nat.succ_le_succ hr.nesting⟩, ?_, hr.uncalled⟩
  · rw [Phrase.tree, h.tree, hr.tree]
  · rw [h.tokens, hr.tokens, Phrase.tokens, List.append_assoc, List.append_assoc]
  · simp [Phrase.clear, h.clear, hr.clear, hreleased, hpower]
  · intro k hk
    simp [Phrase.releases, hstop k hk, hr.released k hk]

end Phrase.Fronts

namespace Expr

/-- A reader takes only phrases, and stops where its power is not reached. -/
def Reader.Sound (r : Reader) (depth : Nat) : Prop :=
  ∀ {power tokens e rest}, r.read power tokens = .ok (e, rest) →
    (∃ phrase : Phrase, phrase.Fronts depth power tokens e rest) ∧
    ∀ k, leftPowerAhead? rest = some k → k < power

variable {r : Reader} {depth power : Nat} {tokens rest : List (Placed Sign)} {e : Expr}

theorem of_closeParenthesis (h : closeParenthesis tokens = .ok rest) :
    ∃ closed, tokens = ⟨.closeParenthesis, closed⟩ :: rest := by
  unfold closeParenthesis at h
  split at h
  · cases h
  · next token more =>
    obtain ⟨sign, place⟩ := token
    cases sign <;> cases h
    exact ⟨place, rfl⟩

theorem of_closeBracket (h : closeBracket tokens = .ok rest) :
    ∃ closed, tokens = ⟨.closeBracket, closed⟩ :: rest := by
  unfold closeBracket at h
  split at h
  · cases h
  · next token more =>
    obtain ⟨sign, place⟩ := token
    cases sign <;> cases h
    exact ⟨place, rfl⟩

theorem of_nullTest {op : UnaryOperation} (place : Position)
    (h : nullTest tokens = .ok (op, rest)) :
    ∃ words : Test, words.operation = op ∧ words.place = place ∧
      ⟨.is, place⟩ :: tokens = words.tokens ++ rest := by
  unfold nullTest at h
  split at h <;> cases h
  · exact ⟨.isNotNull place _ _, rfl, rfl, rfl⟩
  · exact ⟨.isNull place _, rfl, rfl, rfl⟩

/-- An operation that is read between two operands is written as a link. -/
theorem of_binaryAhead? {op : BinaryOperation} {sign : Sign} {place : Position}
    (h : binaryAhead? (⟨sign, place⟩ :: tokens) = some (op, rest)) :
    ∃ link : Link, link.operation = op ∧ link.place = place ∧
      ⟨sign, place⟩ :: tokens = link.tokens ++ rest := by
  unfold binaryAhead? at h
  split at h
  · next op' _ _ heq =>
    cases heq
    cases h
    exact ⟨.operator op' place, rfl, rfl, rfl⟩
  · next heq =>
    cases heq
    cases h
    exact ⟨.notMember place _, rfl, rfl, rfl⟩
  · next heq =>
    cases heq
    cases h
    exact ⟨.notLike place _, rfl, rfl, rfl⟩
  · cases h

/-- The arguments that are read are phrases with commas between them. -/
theorem arguments_sound {es : List Expr} (hr : r.Sound depth)
    (h : arguments r tokens = .ok (es, rest)) :
    ∃ args closed, Phrases.Fronts args depth tokens es closed rest := by
  fun_induction arguments r tokens generalizing es rest with
  | case1 => cases h
  | case2 tokens first p more hread _ ih =>
    obtain ⟨⟨others, rest'⟩, hmore, heq⟩ := of_map_ok h
    cases heq
    obtain ⟨⟨phrase, hphrase⟩, -⟩ := hr hread
    obtain ⟨args, closed, hargs⟩ := ih hmore
    refine ⟨.more phrase p args, closed, ?_, ?_, ?_, ?_⟩
    · rw [Phrases.trees, hphrase.tree, hargs.trees]
    · rw [hphrase.tokens, hargs.tokens, Phrases.tokens, List.append_assoc, List.cons_append]
    · rw [Phrases.clear, hphrase.clear, hargs.clear, Bool.and_self]
    · exact Nat.max_le.mpr ⟨hphrase.nesting, hargs.nesting⟩
  | case3 tokens first rest' hread =>
    obtain ⟨rest'', hclose, heq⟩ := of_map_ok h
    cases heq
    obtain ⟨closed, rfl⟩ := of_closeParenthesis hclose
    obtain ⟨⟨phrase, hphrase⟩, -⟩ := hr hread
    exact ⟨.last phrase, closed, by rw [Phrases.trees, hphrase.tree], hphrase.tokens,
      hphrase.clear, hphrase.nesting⟩

/-- The operand that is read is a phrase at any power. -/
theorem operand_sound (hr : r.Sound depth) (power : Nat)
    (h : operand r tokens = .ok (e, rest)) :
    ∃ phrase : Phrase, phrase.Fronts (depth + 1) power tokens e rest := by
  unfold operand at h
  split at h
  all_goals try (cases h; done)
  · next v p _ =>
    cases h
    exact ⟨.constant v p, rfl, rfl, rfl, Nat.le_add_left .., fun _ _ => rfl, nofun⟩
  · next name p o c _ =>
    cases h
    exact ⟨.bareCall name p o c, rfl, rfl, rfl, Nat.le_add_left .., fun _ _ => rfl, nofun⟩
  · next name p o _ _ =>
    obtain ⟨⟨es, rest'⟩, hread, heq⟩ := of_map_ok h
    cases heq
    obtain ⟨args, c, hargs⟩ := arguments_sound hr hread
    refine ⟨.call name p o args c, ?_, ?_, hargs.clear, ?_, fun _ _ => rfl, nofun⟩
    · rw [Phrase.tree, hargs.trees]
    · simp [hargs.tokens, Phrase.tokens]
    · exact Nat.succ_le_succ hargs.nesting
  · next name p _ _ hcall =>
    cases h
    refine ⟨.reference name p, rfl, rfl, rfl, Nat.le_add_left .., fun _ _ => rfl, fun _ => ?_⟩
    unfold callAhead
    split
    · exact (hcall _ _ rfl).elim
    · rfl
  · next o _ =>
    obtain ⟨⟨inner, rest'⟩, hread, hclose⟩ := of_bind_ok h
    obtain ⟨rest'', hclose, heq⟩ := of_map_ok hclose
    cases heq
    obtain ⟨c, rfl⟩ := of_closeParenthesis hclose
    obtain ⟨⟨phrase, hphrase⟩, -⟩ := hr hread
    exact ⟨_, hphrase.group o c⟩
  · next p _ =>
    obtain ⟨⟨inner, rest'⟩, hread, heq⟩ := of_map_ok h
    cases heq
    obtain ⟨⟨phrase, hphrase⟩, hstop⟩ := hr hread
    exact ⟨_, hphrase.front .minus p hstop⟩
  · next p _ =>
    obtain ⟨⟨phrase, hphrase⟩, hstop⟩ := hr h
    exact ⟨_, hphrase.front .plus p hstop⟩
  · next p _ =>
    obtain ⟨⟨inner, rest'⟩, hread, heq⟩ := of_map_ok h
    cases heq
    obtain ⟨⟨phrase, hphrase⟩, hstop⟩ := hr hread
    exact ⟨_, hphrase.front .not p hstop⟩

/-- One step makes a longer phrase of the phrase before it. -/
theorem extendOnce_sound {left : Expr} {all : List (Placed Sign)} {l : Phrase}
    (hr : r.Sound depth) (hl : l.Fronts (depth + 1) power all left tokens)
    (h : extendOnce r power left tokens = some (.ok (e, rest))) :
    ∃ phrase : Phrase, phrase.Fronts (depth + 1) power all e rest := by
  unfold extendOnce at h
  split at h
  · cases h
  · next o more =>
    split at h
    · cases h
    · next hpower =>
      obtain ⟨⟨index, rest'⟩, hread, hclose⟩ := of_bind_ok (Option.some.inj h)
      obtain ⟨rest'', hclose, heq⟩ := of_map_ok hclose
      cases heq
      obtain ⟨c, rfl⟩ := of_closeBracket hclose
      obtain ⟨⟨i, hi⟩, -⟩ := hr hread
      exact ⟨_, hl.index o c (Nat.le_of_not_lt hpower) hi⟩
  · next p more =>
    split at h
    · cases h
    · next hpower =>
      obtain ⟨⟨op, rest'⟩, htest, heq⟩ := of_map_ok (Option.some.inj h)
      cases heq
      obtain ⟨words, rfl, rfl, htokens⟩ := of_nullTest p htest
      rw [htokens] at hl
      exact ⟨_, hl.test words (Nat.le_of_not_lt hpower)⟩
  · next sign p more _ _ =>
    split at h
    · cases h
    · next op rest' hahead =>
      split at h
      · cases h
      · next hpower =>
        obtain ⟨⟨right, rest''⟩, hread, heq⟩ := of_map_ok (Option.some.inj h)
        cases heq
        obtain ⟨link, rfl, rfl, htokens⟩ := of_binaryAhead? hahead
        obtain ⟨⟨phrase, hphrase⟩, hstop⟩ := hr hread
        rw [htokens] at hl
        exact ⟨_, hl.joined link (Nat.le_of_not_lt hpower) hphrase hstop⟩

/-- The steps after an operand make a phrase of it, and end where no operation reaches the power. -/
theorem extend_sound {left : Expr} {all : List (Placed Sign)} {l : Phrase}
    (hr : r.Sound depth) (hl : l.Fronts (depth + 1) power all left tokens)
    (h : extend r power left tokens = .ok (e, rest)) :
    (∃ phrase : Phrase, phrase.Fronts (depth + 1) power all e rest) ∧
    ∀ k, leftPowerAhead? rest = some k → k < power := by
  -- The phrase grows from step to step, so it is arbitrary; the tokens in front of all stay.
  fun_induction extend r power left tokens generalizing l e rest with
  | case1 left tokens hnone =>
    cases h
    exact ⟨⟨l, hl⟩, extendOnce_eq_none_iff.mp hnone⟩
  | case2 => cases h
  | case3 left tokens e' rest' hstep ih =>
    obtain ⟨phrase, hphrase⟩ := extendOnce_sound hr hl hstep
    exact ih hphrase h

/-- Every reader takes only clear phrases within its levels. -/
theorem reader_sound (depth : Nat) : (reader depth).Sound depth := by
  induction depth with
  | zero =>
    intro power tokens e rest h
    cases h
  | succ depth ih =>
    intro power tokens e rest h
    obtain ⟨⟨first, rest'⟩, hfirst, hextend⟩ := of_bind_ok h
    obtain ⟨phrase, hphrase⟩ := operand_sound ih power hfirst
    exact extend_sound ih hphrase hextend

/-- Tokens are read as an expression exactly if they are those of a clear phrase within the levels
that writes it. -/
theorem ofSigns_eq_some_iff : ofSigns tokens = .ok (some e) ↔ ∃ phrase : Phrase,
    phrase.clear 0 = true ∧ phrase.nesting ≤ levels ∧ phrase.tokens = tokens ∧ phrase.tree = e := by
  constructor
  · intro h
    unfold ofSigns at h
    split at h
    · cases h
    · split at h
      · cases h
      · next hread =>
        cases h
        obtain ⟨⟨phrase, hphrase⟩, -⟩ := reader_sound levels hread
        refine ⟨phrase, hphrase.clear, hphrase.nesting, ?_, hphrase.tree⟩
        rw [hphrase.tokens, List.append_nil]
      · cases h
  · rintro ⟨phrase, hclear, hnesting, rfl, rfl⟩
    exact (ofSigns_attains hclear).reached hnesting

/-- Only no tokens at all are read as no expression. -/
theorem ofSigns_eq_none_iff : ofSigns tokens = .ok none ↔ tokens = [] := by
  constructor
  · intro h
    unfold ofSigns at h
    split at h
    · next hempty => exact List.isEmpty_iff.mp hempty
    · split at h <;> cases h
  · rintro rfl
    rfl

end Expr

end Formulary
