import Formulary.Expr.Lexicon
import Formulary.Proofs.Lex.Draining

/-!
# Token by token, in any order of requests

A tokenizer in front of a text can be asked for the next token, whether there is one, and to start
over. If the text has a list of tokens, every answer is read off that list at the number of tokens
that were asked for since the last start. Looking ahead changes no later answer, the end stays the
end, and starting over restores the state in front of the text, whatever was asked before.
-/

namespace Formulary

/-- A source that reads tokens from its text, has a slot for one that was read ahead, and can start
over. Reading leaves the slot as it is and stays within the text. -/
class Buffered (σ : Type) extends Source σ where
  read : σ → Except LexError (Option Token) × σ
  slot : σ → Option Token
  store : σ → Option Token → σ
  hasNext : σ → Except LexError Bool × σ
  reset : σ → σ
  next_of_some : ∀ {s : σ} {token : Token}, slot s = some token →
    next s = (.ok (some token), store s none)
  next_of_none : ∀ {s : σ}, slot s = none → next s = read s
  hasNext_of_some : ∀ {s : σ} {token : Token}, slot s = some token → hasNext s = (.ok true, s)
  hasNext_of_none : ∀ {s s' : σ} {answer : Option Token}, slot s = none →
    read s = (.ok answer, s') → hasNext s = (.ok answer.isSome, store s' answer)
  slot_store : ∀ (s : σ) (content : Option Token), slot (store s content) = content
  store_store : ∀ (s : σ) (first second : Option Token),
    store (store s first) second = store s second
  store_slot : ∀ s : σ, store s (slot s) = s
  slot_read : ∀ s : σ, slot (read s).2 = slot s
  read_end : ∀ {s s' : σ}, read s = (.ok none, s') → read s' = (.ok none, s')
  reset_store : ∀ (s : σ) (content : Option Token), reset (store s content) = reset s
  reset_read : ∀ s : σ, reset (read s).2 = reset s
  reset_reset : ∀ s : σ, reset (reset s) = reset s

inductive Request
  | next
  | hasNext
  | reset

inductive Reply
  | token (answer : Except LexError (Option Token))
  | more (answer : Except LexError Bool)
  | rewound

/-- How many tokens were asked for since the last start, one request later. -/
def Request.count (position : Nat) : Request → Nat
  | next => position + 1
  | hasNext => position
  | reset => 0

/-- How many tokens were asked for since the last start. -/
def Request.position (requests : List Request) : Nat := requests.foldl count 0

/-- The reply of a list of tokens of which some were asked for. -/
def Reply.ofList (tokens : List Token) (position : Nat) : Request → Reply
  | .next => token (.ok tokens[position]?)
  | .hasNext => more (.ok (decide (position < tokens.length)))
  | .reset => rewound

namespace Source

variable {σ : Type} [Source σ] {s : σ}

/-- A source that has no tokens left is at its end. -/
theorem next_of_result_nil (h : (drain s).result = .ok []) : ∃ s', next s = (.ok none, s') := by
  cases hnext : next s with
  | mk answer s' =>
    match answer with
    | .error e =>
      rw [result_of_error hnext] at h
      cases h
    | .ok none => exact ⟨s', rfl⟩
    | .ok (some token) =>
      rw [result_of_token hnext] at h
      obtain ⟨rest, -, hcons⟩ := of_map_ok h
      cases hcons

/-- A source that has tokens left hands out the first of them and has the others left. -/
theorem next_of_result_cons {token : Token} {rest : List Token}
    (h : (drain s).result = .ok (token :: rest)) :
    ∃ s', next s = (.ok (some token), s') ∧ (drain s').result = .ok rest := by
  cases hnext : next s with
  | mk answer s' =>
    match answer with
    | .error e =>
      rw [result_of_error hnext] at h
      cases h
    | .ok none =>
      rw [result_of_none hnext] at h
      cases h
    | .ok (some token') =>
      rw [result_of_token hnext] at h
      obtain ⟨rest', hrest, hcons⟩ := of_map_ok h
      cases hcons
      exact ⟨s', rfl, hrest⟩

end Source

namespace Buffered

open Source

variable {σ : Type} [Buffered σ] {s s' : σ}

theorem store_none (h : slot s = none) : store s none = s := by
  rw [← h, store_slot]

/-- At the end, the slot is empty, and nothing changes any more. -/
theorem of_next_end (h : next s = (.ok none, s')) :
    next s' = (.ok none, s') ∧ hasNext s = (.ok false, s') := by
  cases hslot : slot s with
  | some token =>
    rw [next_of_some hslot] at h
    cases h
  | none =>
    rw [next_of_none hslot] at h
    have hslot' : slot s' = none := by rw [← hslot, ← slot_read s, h]
    refine ⟨by rw [next_of_none hslot', read_end h], ?_⟩
    rw [hasNext_of_none hslot h, store_none hslot', Option.isSome_none]

/-- A token that is looked at is handed out next, with the same source behind it. -/
theorem of_next_token {token : Token} (h : next s = (.ok (some token), s')) :
    ∃ peeked, hasNext s = (.ok true, peeked) ∧ next peeked = (.ok (some token), s') ∧
      reset peeked = reset s := by
  cases hslot : slot s with
  | some token' => exact ⟨s, hasNext_of_some hslot, h, rfl⟩
  | none =>
    rw [next_of_none hslot] at h
    have hslot' : slot s' = none := by rw [← hslot, ← slot_read s, h]
    have hreset : reset s' = reset s := by rw [← reset_read s, h]
    refine ⟨store s' (some token), hasNext_of_none hslot h, ?_, ?_⟩
    · rw [next_of_some (slot_store _ _), store_store, store_none hslot']
    · rw [reset_store, hreset]

theorem reset_next (s : σ) : reset (next s).2 = reset s := by
  cases hslot : slot s with
  | some token => rw [next_of_some hslot, reset_store]
  | none => rw [next_of_none hslot, reset_read]

def perform (s : σ) : Request → Reply × σ
  | .next => (.token (next s).1, (next s).2)
  | .hasNext => (.more (hasNext s).1, (hasNext s).2)
  | .reset => (.rewound, reset s)

def after (s : σ) (requests : List Request) : σ :=
  requests.foldl (fun s request => (perform s request).2) s

/-- A source that still has the tokens of a list from a position on, and all of them after a new
start. -/
structure Stands (s : σ) (tokens : List Token) (position : Nat) : Prop where
  rest : (drain s).result = .ok (tokens.drop position)
  replay : (drain (reset s)).result = .ok tokens

/-- A source that answers like a list of tokens: request by request, when the rest is taken at once,
and when everything is taken once more. -/
structure Streams (s : σ) (tokens : List Token) : Prop where
  reply : ∀ earlier request,
    (perform (after s earlier) request).1 = .ofList tokens (Request.position earlier) request
  rest : ∀ earlier,
    (drain (after s earlier)).result = .ok (tokens.drop (Request.position earlier))
  replay : ∀ earlier, (drain (reset (after s earlier))).result = .ok tokens

variable {tokens : List Token} {position : Nat}

theorem Stands.reset (h : Stands s tokens position) : Stands (reset s) tokens 0 :=
  ⟨h.replay, by rw [reset_reset]; exact h.replay⟩

/-- Behind the last token every request is answered as the list answers it. -/
theorem Stands.perform_at_end (h : Stands s tokens position) (hend : tokens.length ≤ position)
    (request : Request) :
    (perform s request).1 = .ofList tokens position request ∧
      Stands (perform s request).2 tokens (request.count position) := by
  have hrest := h.rest
  rw [List.drop_of_length_le hend] at hrest
  obtain ⟨s', hnext⟩ := next_of_result_nil hrest
  obtain ⟨hstays, hpeek⟩ := of_next_end hnext
  have hreset : Buffered.reset s' = Buffered.reset s := by rw [← reset_next s, hnext]
  have hstands : ∀ k, tokens.length ≤ k → Stands s' tokens k := by
    intro k hk
    refine ⟨?_, by rw [hreset]; exact h.replay⟩
    rw [List.drop_of_length_le hk]
    exact result_of_none hstays
  cases request with
  | next =>
    rw [perform, hnext, Reply.ofList, List.getElem?_eq_none hend]
    exact ⟨rfl, hstands (position + 1) (by omega)⟩
  | hasNext =>
    rw [perform, hpeek, Reply.ofList, decide_eq_false (by omega)]
    exact ⟨rfl, hstands position hend⟩
  | reset => exact ⟨rfl, h.reset⟩

/-- In front of a token every request is answered as the list answers it. -/
theorem Stands.perform_before_end (h : Stands s tokens position) (hlt : position < tokens.length)
    (request : Request) :
    (perform s request).1 = .ofList tokens position request ∧
      Stands (perform s request).2 tokens (request.count position) := by
  have hrest := h.rest
  rw [List.drop_eq_getElem_cons hlt] at hrest
  obtain ⟨s', hnext, hbehind⟩ := next_of_result_cons hrest
  cases request with
  | next =>
    have hreset : Buffered.reset s' = Buffered.reset s := by rw [← reset_next s, hnext]
    rw [perform, hnext, Reply.ofList, List.getElem?_eq_getElem hlt]
    exact ⟨rfl, hbehind, by rw [hreset]; exact h.replay⟩
  | hasNext =>
    obtain ⟨peeked, hpeek, hkept, hreset⟩ := of_next_token hnext
    rw [perform, hpeek, Reply.ofList, decide_eq_true hlt]
    refine ⟨rfl, ?_, by rw [hreset]; exact h.replay⟩
    rw [result_of_token hkept, hbehind, Request.count, List.drop_eq_getElem_cons hlt]
    rfl
  | reset => exact ⟨rfl, h.reset⟩

/-- One request is answered from the list and leads to the position that it counts to. -/
theorem Stands.perform (h : Stands s tokens position) (request : Request) :
    (perform s request).1 = .ofList tokens position request ∧
      Stands (perform s request).2 tokens (request.count position) := by
  by_cases hlt : position < tokens.length
  · exact h.perform_before_end hlt request
  · exact h.perform_at_end (by omega) request

theorem Stands.after (h : Stands s tokens position) (requests : List Request) :
    Stands (after s requests) tokens (requests.foldl Request.count position) := by
  induction requests generalizing s position with
  | nil => exact h
  | cons request rest ih => exact ih (h.perform request).2

/-- A source in front of its text answers like the list of its tokens. -/
theorem streams_of_drain (hstart : Buffered.reset s = s) (h : (drain s).result = .ok tokens) :
    Streams s tokens := by
  have hstands : Stands s tokens 0 := ⟨h, by rw [hstart]; exact h⟩
  exact {
    reply := fun earlier request => ((hstands.after earlier).perform request).1
    rest := fun earlier => (hstands.after earlier).rest
    replay := fun earlier => (hstands.after earlier).replay }

end Buffered

/-! A cursor that starts over -/

namespace Cursor

theorem text_advance (cursor : Cursor) : cursor.advance.text = cursor.text := by
  unfold advance
  split
  · next hahead => simp [text, hahead]
  · rfl

theorem text_skip (cursor : Cursor) (n : Nat) : (cursor.skip n).text = cursor.text := by
  induction n generalizing cursor with
  | zero => rfl
  | succ n ih =>
    rw [skip]
    split
    · rfl
    · rw [ih, text_advance]

theorem retreatBy_length (behind : List (Char × Position)) (ahead : List Char) :
    retreatBy ⟨behind, ahead⟩ behind.length = ⟨[], text ⟨behind, ahead⟩⟩ := by
  induction behind generalizing ahead with
  | nil => rfl
  | cons first rest ih =>
    have hstep : retreatBy ⟨first :: rest, ahead⟩ (rest.length + 1) =
        retreatBy ⟨rest, first.1 :: ahead⟩ rest.length := rfl
    rw [List.length_cons, hstep, ih]
    simp [text]

/-- Starting over leads in front of the whole text. -/
theorem reset_eq (cursor : Cursor) : cursor.reset = ⟨[], cursor.text⟩ :=
  retreatBy_length cursor.behind cursor.ahead

theorem reset_eq_of_text {cursor other : Cursor} (h : cursor.text = other.text) :
    cursor.reset = other.reset := by
  rw [reset_eq, reset_eq, h]

theorem reset_reset (cursor : Cursor) : cursor.reset.reset = cursor.reset :=
  reset_eq_of_text (by rw [reset_eq]; rfl)

end Cursor

theorem State.text_behind (cursor : Cursor) (result : Except LexFault Lexeme) :
    (behind cursor result).text = cursor.text := by
  unfold behind
  split
  · exact cursor.text_skip _
  · exact cursor.text_skip _
  · exact cursor.text_skip _
  · rfl

/-- Reading moves the cursor within its text. -/
theorem Rules.text_next (rules : Rules) (cursor : Cursor) :
    (rules.next cursor).2.text = cursor.text := by
  induction hn : cursor.ahead.length using Nat.strongRecOn generalizing cursor with
  | _ n ih =>
    rcases rules.next_cases cursor with
      ⟨-, hnext⟩ | ⟨c, rest, fault, -, -, hnext⟩ | ⟨c, rest, lexeme, hahead, hscan, hnext⟩
    · rw [hnext]
    · rw [hnext]
      exact State.text_behind cursor _
    · rw [hnext]
      split
      · exact cursor.text_skip _
      · have hskip := ahead_length_behind_lt hahead hscan
        exact (ih _ (hn ▸ hskip) _ rfl).trans (cursor.text_skip _)

/-! The tokenizers -/

namespace Tokenizer

variable {t t' : Tokenizer}

/-- The end stays the end. -/
theorem read_end (h : t.read = (.ok none, t')) : t'.read = (.ok none, t') := by
  unfold read at h
  split at h
  · next hcursor =>
    cases h
    rw [read, hcursor]
  · next cursor hcursor =>
    split at h
    · cases h
    · cases h
    · next after hnext =>
      split at h
      · next hsilent =>
        cases h
        rw [read]
        dsimp only
        rw [Rules.next_of_end (Rules.ahead_next_none hnext)]
        dsimp only
        rw [if_pos hsilent]
      · cases h

theorem lookahead_read (t : Tokenizer) : t.read.2.lookahead = t.lookahead := by
  unfold read
  split
  · rfl
  · split
    · rfl
    · rfl
    · split <;> rfl

/-- What a new start leads to is decided by the rules and the text. -/
theorem reset_eq_of_text {cursor after : Cursor} (hcursor : t.cursor = some cursor)
    (htext : after.text = cursor.text) (lookahead : Option Token) (lastKind : Option TokenKind) :
    reset ⟨t.rules, some after, lookahead, lastKind⟩ = t.reset := by
  rw [reset, reset, hcursor, Option.map_some, Option.map_some, Cursor.reset_eq_of_text htext]

/-- Starting over leads to the same state whether or not a token was read before. -/
theorem reset_read (t : Tokenizer) : t.read.2.reset = t.reset := by
  unfold read
  split
  · rfl
  · next cursor hcursor =>
    have htext := t.rules.text_next cursor
    split
    · next hnext =>
      rw [hnext] at htext
      exact reset_eq_of_text hcursor htext _ _
    · next hnext =>
      rw [hnext] at htext
      exact reset_eq_of_text hcursor htext _ _
    · next hnext =>
      rw [hnext] at htext
      split
      · exact reset_eq_of_text hcursor htext _ _
      · exact reset_eq_of_text hcursor htext _ _

theorem reset_reset (t : Tokenizer) : t.reset.reset = t.reset := by
  rw [reset, reset]
  dsimp only
  rw [Option.map_map]
  congr 2
  exact funext Cursor.reset_reset

instance : Buffered Tokenizer where
  read := read
  slot := lookahead
  store t content := { t with lookahead := content }
  hasNext := hasNext
  reset := reset
  next_of_some h := by rw [Source.next, instSource]; dsimp only; rw [next, h]
  next_of_none := next_eq_read
  hasNext_of_some h := by rw [hasNext, h]
  hasNext_of_none h hread := by rw [hasNext, h, hread]
  slot_store _ _ := rfl
  store_store _ _ _ := rfl
  store_slot _ := rfl
  slot_read := lookahead_read
  read_end := read_end
  reset_store _ _ := rfl
  reset_read := reset_read
  reset_reset := reset_reset

end Tokenizer

namespace Template.Lexer

variable {s s' : Lexer}

theorem of_readTag_end (h : s.readTag = (.ok none, s')) :
    s'.readTag = (.ok none, s') ∧ s'.inText = false ∧ s'.opened = false := by
  unfold readTag at h
  split at h
  · cases h
  · next answer tags hread =>
    cases h
    refine ⟨?_, rfl, rfl⟩
    rw [readTag]
    dsimp only
    rw [Tokenizer.read_end hread]

theorem read_of_closed (htext : s.inText = false) (hopened : s.opened = false)
    (htag : s.readTag = (.ok none, s)) : s.read = (.ok none, s) := by
  cases hcursor : s.tags.cursor with
  | none =>
    have hkept : { s with opened := false } = s := by rw [← hopened]
    rw [read, hcursor]
    dsimp only
    rw [hkept]
  | some cursor =>
    rw [read, hcursor, htext, hopened]
    exact htag

theorem read_end (h : s.read = (.ok none, s')) : s'.read = (.ok none, s') := by
  have hclosed : s.readTag = (.ok none, s') → s'.read = (.ok none, s') := by
    intro htag
    obtain ⟨hstays, htext, hopened⟩ := of_readTag_end htag
    exact read_of_closed htext hopened hstays
  unfold read at h
  split at h
  · next hcursor =>
    cases h
    rw [read, hcursor]
  · split at h
    · split at h
      · exact hclosed h
      · cases h
    · split at h
      · cases h
      · exact hclosed h

theorem reset_eq_of_tags (h : s.tags.reset = s'.tags.reset) : s.reset = s'.reset := by
  rw [reset, reset, h]

theorem readTag_keeps (s : Lexer) :
    s.readTag.2.lookahead = s.lookahead ∧ s.readTag.2.reset = s.reset := by
  have hreset := s.tags.reset_read
  unfold readTag
  split
  · next hread =>
    rw [hread] at hreset
    exact ⟨rfl, reset_eq_of_tags hreset⟩
  · next hread =>
    rw [hread] at hreset
    exact ⟨rfl, reset_eq_of_tags hreset⟩

theorem take_keeps {cursor : Cursor} (hcursor : s.tags.cursor = some cursor) (kind : TokenKind)
    (chars : List Char) :
    (s.take cursor kind chars).2.lookahead = s.lookahead ∧
      (s.take cursor kind chars).2.reset = s.reset :=
  ⟨rfl, reset_eq_of_tags (Tokenizer.reset_eq_of_text hcursor (cursor.text_skip _) _ _)⟩

/-- Reading leaves the token that was read ahead and stays within the text. -/
theorem read_keeps (s : Lexer) :
    s.read.2.lookahead = s.lookahead ∧ s.read.2.reset = s.reset := by
  unfold read
  split
  · exact ⟨rfl, rfl⟩
  · next cursor hcursor =>
    split
    · split
      · exact s.readTag_keeps
      · exact take_keeps hcursor _ _
    · split
      · exact take_keeps hcursor _ _
      · exact s.readTag_keeps

theorem reset_reset (s : Lexer) : s.reset.reset = s.reset :=
  reset_eq_of_tags s.tags.reset_reset

instance : Buffered Lexer where
  read := read
  slot := lookahead
  store s content := { s with lookahead := content }
  hasNext := hasNext
  reset := reset
  next_of_some h := by rw [Source.next, instSource]; dsimp only; rw [next, h]
  next_of_none := next_eq_read
  hasNext_of_some h := by rw [hasNext, h]
  hasNext_of_none h hread := by rw [hasNext, h, hread]
  slot_store _ _ := rfl
  store_store _ _ _ := rfl
  store_slot _ := rfl
  slot_read s := s.read_keeps.1
  read_end := read_end
  reset_store _ _ := rfl
  reset_read s := s.read_keeps.2
  reset_reset := reset_reset

end Template.Lexer

/-- Whatever a tokenizer or a tokenizer of templates was used for before, in front of a text that
divides into tokens it answers like the list of these tokens. The list is the one that its rules
alone lead to. -/
theorem streams_tokens (text : String) (tokens : List Token) :
    (∀ t : Tokenizer, ((Tokenizer.ofRules t.rules).tokenize text).result = .ok tokens →
      Buffered.Streams (t.start (Cursor.ofText text)) tokens ∧
        (t.tokenize text).result = .ok tokens) ∧
    (∀ s : Template.Lexer,
      ((Template.Lexer.ofRules s.tags.rules).tokenize text).result = .ok tokens →
      Buffered.Streams (s.start (Cursor.ofText text)) tokens ∧
        (s.tokenize text).result = .ok tokens) := by
  refine ⟨?tokenizer, ?template⟩
  case tokenizer =>
    intro t h
    have hresult : (t.tokenize text).result = .ok tokens := h
    exact ⟨Buffered.streams_of_drain rfl hresult, hresult⟩
  case template =>
    intro s h
    have hresult : (s.tokenize text).result = .ok tokens := h
    exact ⟨Buffered.streams_of_drain rfl hresult, hresult⟩

/-- A tokenizer of expressions behind the end of another text, and one of templates inside a tag
with a token read ahead. -/
theorem streams_tokens_several :
    let t : Tokenizer := ⟨Expr.lexicon, some ⟨[('1', ⟨1, 1⟩)], []⟩, none, some .eof⟩
    let s : Template.Lexer :=
      ⟨⟨Template.lexicon, some ⟨[], ['\x22']⟩, none, some .symbol⟩, false, true,
        some ⟨.symbol, "#", ⟨1, 3⟩⟩⟩
    let words : List Token :=
      [⟨.word, "ab", ⟨1, 1⟩⟩, ⟨.symbol, "<=", ⟨1, 4⟩⟩, ⟨.float, "1.5", ⟨1, 7⟩⟩]
    let tags : List Token :=
      [⟨.special, "Hi ", ⟨1, 1⟩⟩, ⟨.symbol, "\x7b\x7b", ⟨1, 4⟩⟩, ⟨.symbol, "#", ⟨1, 6⟩⟩,
        ⟨.word, "a", ⟨1, 7⟩⟩, ⟨.symbol, "\x7d\x7d", ⟨1, 8⟩⟩, ⟨.special, "!", ⟨1, 10⟩⟩,
        ⟨.symbol, "\x7b\x7b", ⟨1, 11⟩⟩, ⟨.symbol, "/", ⟨1, 13⟩⟩, ⟨.word, "a", ⟨1, 14⟩⟩,
        ⟨.symbol, "\x7d\x7d", ⟨1, 15⟩⟩]
    ((Tokenizer.ofRules t.rules).tokenize "ab <= 1.5").result = .ok words ∧
      Buffered.Streams (t.start (Cursor.ofText "ab <= 1.5")) words ∧
      ((Template.Lexer.ofRules s.tags.rules).tokenize
        "Hi \x7b\x7b#a\x7d\x7d!\x7b\x7b/a\x7d\x7d").result = .ok tags ∧
      Buffered.Streams
        (s.start (Cursor.ofText "Hi \x7b\x7b#a\x7d\x7d!\x7b\x7b/a\x7d\x7d")) tags := by
  intro t s words tags
  have hwords : ((Tokenizer.ofRules t.rules).tokenize "ab <= 1.5").result = .ok words :=
    ok_of_toOption (by decide +kernel)
  have htags : ((Template.Lexer.ofRules s.tags.rules).tokenize
      "Hi \x7b\x7b#a\x7d\x7d!\x7b\x7b/a\x7d\x7d").result = .ok tags :=
    ok_of_toOption (by decide +kernel)
  exact ⟨hwords, ((streams_tokens "ab <= 1.5" words).1 t hwords).1, htags,
    ((streams_tokens "Hi \x7b\x7b#a\x7d\x7d!\x7b\x7b/a\x7d\x7d" tags).2 s htags).1⟩

end Formulary
