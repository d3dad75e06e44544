import Formulary.Lex.Preset
import Formulary.Proofs.Lex.Streaming

/-!
# The kind of the last token

A tokenizer keeps the kind of the last token. It notes the kind when the token is read from the
text, so a token that was only looked at counts already: as long as one waits to be handed out, the
kind is that of the waiting token. Where none waits, the kind is that of the last token that was
handed out since the last start, and there is none where none was handed out.
-/

namespace Formulary

namespace Tokenizer

/-- Something that a tokenizer is asked to do: to take up a text at a cursor, or a request. -/
inductive Demand
  | start (cursor : Cursor)
  | ask (request : Request)

def perform (t : Tokenizer) : Demand → Reply × Tokenizer
  | .start cursor => (.rewound, t.start cursor)
  | .ask request => Buffered.perform t request

def answered (answer : Except LexError (Option Token)) : Option Token := answer.toOption.join

/-- A tokenizer together with the last token that it handed out since the last start. -/
structure Watched where
  tokenizer : Tokenizer
  last : Option Token

namespace Watched

/-- The last token that was handed out since the last start, one demand later. -/
def handed (last : Option Token) : Demand → Reply → Option Token
  | .start _, _ | .ask .reset, _ => none
  | .ask .next, .token answer => (answered answer).or last
  | _, _ => last

def perform (w : Watched) (demand : Demand) : Watched :=
  ⟨(w.tokenizer.perform demand).2, handed w.last demand (w.tokenizer.perform demand).1⟩

def after (rules : Rules) (demands : List Demand) : Watched :=
  demands.foldl perform ⟨ofRules rules, none⟩

/-- The kind that is kept is that of the token that waits, or else of the last one handed out. -/
def Heeds (w : Watched) : Prop :=
  w.tokenizer.lastKind = (w.tokenizer.lookahead.or w.last).map Token.kind

end Watched

/-! One demand -/

/-- Reading notes the kind of the token that is read, and of no other. -/
theorem lastKind_read (t : Tokenizer) :
    t.read.2.lastKind = ((answered t.read.1).map Token.kind).or t.lastKind := by
  unfold read
  split
  · rfl
  · split
    · rfl
    · rfl
    · split <;> rfl

theorem lookahead_next (t : Tokenizer) : t.next.2.lookahead = none := by
  cases hslot : t.lookahead with
  | some token => rw [next, hslot]
  | none =>
    have hnext : t.next = t.read := next_eq_read hslot
    rw [hnext, lookahead_read, hslot]

theorem lookahead_perform (t : Tokenizer) {demand : Demand} (h : demand ≠ .ask .hasNext) :
    (t.perform demand).2.lookahead = none := by
  match demand with
  | .start _ | .ask .reset => rfl
  | .ask .next => exact t.lookahead_next
  | .ask .hasNext => exact absurd rfl h

namespace Watched

variable {w : Watched}

/-- Handing out a token keeps what is known of the kind. -/
theorem Heeds.next (h : w.Heeds) : (w.perform (.ask .next)).Heeds := by
  obtain ⟨t, last⟩ := w
  have hdemand : Watched.perform ⟨t, last⟩ (.ask .next) =
      ⟨t.next.2, (answered t.next.1).or last⟩ := rfl
  rw [Heeds, hdemand]
  dsimp only
  rw [lookahead_next, Option.none_or]
  cases hslot : t.lookahead with
  | some token =>
    have hkind : t.lastKind = some token.kind := by rw [h, hslot]; rfl
    rw [Tokenizer.next, hslot]
    exact hkind
  | none =>
    have hkind : t.lastKind = last.map Token.kind := by rw [h, hslot]; rfl
    have hnext : t.next = t.read := next_eq_read hslot
    rw [hnext, lastKind_read, hkind, Option.map_or]

/-- Looking ahead keeps what is known of the kind, which is that of the token that waits from then
on. -/
theorem Heeds.hasNext (h : w.Heeds) : (w.perform (.ask .hasNext)).Heeds := by
  obtain ⟨t, last⟩ := w
  have hdemand : Watched.perform ⟨t, last⟩ (.ask .hasNext) = ⟨t.hasNext.2, last⟩ := rfl
  rw [hdemand]
  cases hslot : t.lookahead with
  | some token =>
    rw [Tokenizer.hasNext, hslot]
    exact h
  | none =>
    have hkind : t.lastKind = last.map Token.kind := by rw [h, hslot]; rfl
    have hread := t.lastKind_read
    have hempty := t.lookahead_read
    rw [Tokenizer.hasNext, hslot, Heeds]
    cases hanswer : t.read with
    | mk answer t' =>
      rw [hanswer, hkind] at hread
      rw [hanswer, hslot] at hempty
      cases answer with
      | error e =>
        dsimp only at hempty ⊢
        rw [hempty, Option.none_or]
        exact hread
      | ok token =>
        dsimp only
        rw [Option.map_or]
        exact hread

/-- A demand keeps the law of the kind. -/
theorem Heeds.perform (h : w.Heeds) (demand : Demand) : (w.perform demand).Heeds := by
  match demand with
  | .start _ | .ask .reset => rfl
  | .ask .next => exact h.next
  | .ask .hasNext => exact h.hasNext

/-- All demands keep it. -/
theorem heeds_foldl (h : w.Heeds) (demands : List Demand) :
    (demands.foldl Watched.perform w).Heeds := by
  induction demands generalizing w with
  | nil => exact h
  | cons demand rest ih => exact ih (h.perform demand)

/-- No token waits unless the last demand was to look ahead. -/
theorem lookahead_after (rules : Rules) {demands : List Demand}
    (h : demands.getLast? ≠ some (.ask .hasNext)) :
    (after rules demands).tokenizer.lookahead = none := by
  rcases List.eq_nil_or_concat demands with rfl | ⟨earlier, last, rfl⟩
  · rfl
  · rw [List.concat_eq_append] at h ⊢
    rw [List.getLast?_concat] at h
    rw [after, List.foldl_append]
    exact lookahead_perform _ fun hlast => h (congrArg some hlast)

/-- In every state that a new tokenizer reaches by taking up texts, by handing out tokens, by
looking ahead and by starting over, the kind that it keeps is that of the token that waits, which is
the next to be handed out, or else of the last token handed out since the last start. No token waits
unless the last demand was to look ahead, so after every other demand the kind follows what was
handed out. -/
theorem lastKind_after (rules : Rules) (demands : List Demand) :
    (after rules demands).tokenizer.lastKind =
      ((after rules demands).tokenizer.lookahead.or (after rules demands).last).map Token.kind ∧
    (∀ token, (after rules demands).tokenizer.lookahead = some token →
      (after rules demands).tokenizer.next.1 = .ok (some token)) ∧
    (demands.getLast? ≠ some (.ask .hasNext) →
      (after rules demands).tokenizer.lastKind = (after rules demands).last.map Token.kind) := by
  have hnew : Heeds ⟨ofRules rules, none⟩ := rfl
  have hheeds : (after rules demands).Heeds := heeds_foldl hnew demands
  refine ⟨hheeds, ?waiting, ?handed⟩
  case waiting =>
    intro token hslot
    rw [Tokenizer.next, hslot]
  case handed =>
    intro hlast
    rw [hheeds, lookahead_after rules hlast, Option.none_or]

/-- The first of two words is handed out once more after the blank behind it was looked at. -/
theorem lastKind_after_reset :
    let demands : List Demand := [.start (Cursor.ofText "a b"), .ask .next, .ask .hasNext,
      .ask .reset, .ask .next]
    demands.getLast? ≠ some (.ask .hasNext) ∧
      (after Rules.general demands).tokenizer.lastKind =
        (after Rules.general demands).last.map Token.kind := by
  intro demands
  have hlast : demands.getLast? ≠ some (.ask .hasNext) := by
    rintro ⟨⟩
  exact ⟨hlast, (lastKind_after Rules.general demands).2.2 hlast⟩

/-- A tokenizer that looked at a word and handed out nothing keeps the kind of the word. -/
theorem lastKind_after_look :
    (after Rules.general [.start (Cursor.ofText "a"), .ask .hasNext]).last = none ∧
      (after Rules.general [.start (Cursor.ofText "a"), .ask .hasNext]).tokenizer.lastKind =
        some .word := by
  have hscan : Rules.general.scan 'a' [] = .ok ⟨.word, ['a']⟩ := rfl
  have hnext : Rules.general.next (Cursor.ofText "a") =
      (.ok (some ⟨.word, "a", ⟨1, 1⟩⟩), ⟨[('a', ⟨1, 1⟩)], []⟩) := by
    rw [Rules.next_of_scan rfl hscan]
    rfl
  have hlook : ((ofRules Rules.general).start (Cursor.ofText "a")).hasNext.2.lastKind =
      some .word := by
    rw [hasNext, start, read]
    dsimp only [ofRules]
    rw [hnext]
  exact ⟨rfl, hlook⟩

end Watched

end Tokenizer

end Formulary
