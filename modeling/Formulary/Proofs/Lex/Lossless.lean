import Formulary.Expr.Lexicon
import Formulary.Proofs.Lex.Draining
import Formulary.Proofs.Lex.Scanning

/-!
# Nothing is lost between tokens

With flags that neither drop tokens nor change their texts, the tokens of a text are the text. Every
step of a tokenizer takes the characters of its token from the front of what is left and gives the
token the place of the first of them, up to the token for the end. This holds of the tokenizer of
templates too, whose literal texts and remarks are taken in the same way.
-/

namespace Formulary

/-- The token takes its characters from a cursor and leaves another one behind them. -/
structure Token.Takes (token : Token) (before after : Cursor) : Prop where
  kind_ne : token.kind ≠ .eof
  text_ne : token.text.toList ≠ []
  front : token.text.toList <+: before.ahead
  place : token.position = before.nextPlace
  after_eq : after = before.skip token.text.toList.length

/-- Tokens that take everything in front of a cursor, one behind the other, and end with the token
for the end of the text. -/
inductive Divides : Cursor → List Token → Prop
  | finish {cursor} (h : cursor.ahead = []) : Divides cursor [⟨.eof, "", cursor.nextPlace⟩]
  | take {cursor after token rest} (first : token.Takes cursor after)
    (others : Divides after rest) : Divides cursor (token :: rest)

/-- Tokens that make up a text: their texts in order are the text, all but the last have a text, the
last alone is the token for the end, and each stands at the place of the character that follows the
tokens before it. -/
structure Covers (text : String) (tokens : List Token) : Prop where
  texts : String.join (tokens.map (·.text)) = text
  ends : ∃ body place, tokens = body ++ [⟨.eof, "", place⟩] ∧
    ∀ token ∈ body, token.text ≠ "" ∧ token.kind ≠ .eof
  places : ∀ before token after, tokens = before ++ token :: after →
    token.position =
      ((Cursor.ofText text).skip (String.join (before.map (·.text))).length).nextPlace

namespace Divides

variable {cursor : Cursor} {tokens : List Token}

theorem texts (h : Divides cursor tokens) :
    String.join (tokens.map (·.text)) = String.ofList cursor.ahead := by
  induction h with
  | finish h => rw [h]; rfl
  | take first _ ih =>
    obtain ⟨rest, hrest⟩ := first.front
    rw [List.map_cons, String.join_cons, ih, first.after_eq, Cursor.ahead_skip, ← hrest,
      List.drop_left, String.ofList_append, String.ofList_toList]

/-- All tokens but the last have a text, and the last is the one for the end. -/
theorem ends (h : Divides cursor tokens) : ∃ body place,
    tokens = body ++ [⟨.eof, "", place⟩] ∧
      ∀ token ∈ body, token.text ≠ "" ∧ token.kind ≠ .eof := by
  induction h with
  | finish => exact ⟨[], _, rfl, by simp⟩
  | @take cursor after token rest first _ ih =>
    obtain ⟨body, place, rfl, hbody⟩ := ih
    refine ⟨token :: body, place, rfl, ?_⟩
    rintro other (_ | ⟨_, hother⟩)
    · refine ⟨?_, first.kind_ne⟩
      intro hempty
      exact first.text_ne (by rw [hempty]; rfl)
    · exact hbody other hother

/-- A token stands at the place of the character that follows the tokens before it. -/
theorem places (h : Divides cursor tokens) {before : List Token} {token : Token}
    {after : List Token} (hsplit : tokens = before ++ token :: after) :
    token.position = (cursor.skip (String.join (before.map (·.text))).length).nextPlace := by
  induction h generalizing before with
  | finish =>
    cases before with
    | nil =>
      cases hsplit
      rfl
    | cons t before => simp at hsplit
  | take first _ ih =>
    cases before with
    | nil =>
      cases hsplit
      exact first.place
    | cons t before =>
      cases hsplit
      rw [ih rfl, first.after_eq, Cursor.skip_skip, List.map_cons, String.join_cons,
        String.length_append, String.length_toList]

end Divides

/-- The text of a token stands behind those of the tokens before it. -/
theorem Divides.fronts {cursor : Cursor} {tokens : List Token} (h : Divides cursor tokens)
    {before : List Token} {token : Token} {after : List Token}
    (hsplit : tokens = before ++ token :: after) :
    token.text.toList <+: cursor.ahead.drop (String.join (before.map (·.text))).length := by
  have htexts := h.texts
  rw [hsplit, List.map_append, List.map_cons, String.join_append, String.join_cons] at htexts
  have hahead : cursor.ahead = (String.join (before.map (·.text))).toList ++
      (token.text.toList ++ (String.join (after.map (·.text))).toList) := by
    rw [← String.toList_append, ← String.toList_append, htexts, String.toList_ofList]
  rw [hahead, List.drop_left' String.length_toList]
  exact List.prefix_append _ _

theorem Covers.of_divides {text : String} {tokens : List Token}
    (h : Divides (Cursor.ofText text) tokens) : Covers text tokens where
  texts := h.texts.trans String.ofList_toList
  ends := h.ends
  places _ _ _ := h.places

/-! Draining a source that takes its tokens from a cursor -/

/-- What a step hands out in front of a cursor: an error, a token that takes characters and a state
in front of the rest, or the token for the end and a state that has nothing more. -/
inductive Advance {σ : Type} (At : σ → Cursor → Prop) (Done : σ → Prop) (cursor : Cursor) :
    Except LexError (Option Token) × σ → Prop
  | failed {e s} : Advance At Done cursor (.error e, s)
  | token {token s after} (taken : token.Takes cursor after) (h : At s after) :
    Advance At Done cursor (.ok (some token), s)
  | finish {s} (ahead : cursor.ahead = []) (h : Done s) :
    Advance At Done cursor (.ok (some ⟨.eof, "", cursor.nextPlace⟩), s)

namespace Source

variable {σ : Type} [Source σ] {s : σ}

/-- A source whose steps advance in front of a cursor divides what is in front of it. -/
theorem divides_of_drain {At : σ → Cursor → Prop} {Done : σ → Prop}
    (hstep : ∀ s cursor, At s cursor → Advance At Done cursor (next s))
    (hdone : ∀ s, Done s → ∃ s', next s = (.ok none, s')) {cursor : Cursor} {tokens : List Token}
    (hat : At s cursor) (h : (drain s).result = .ok tokens) : Divides cursor tokens := by
  have hadvance := hstep s cursor hat
  induction s using drain.induct generalizing cursor tokens with
  | case1 s token s' hnext ih =>
    rw [result_of_token hnext] at h
    obtain ⟨rest, hrest, rfl⟩ := of_map_ok h
    rw [hnext] at hadvance
    cases hadvance with
    | token taken hafter => exact .take taken (ih hafter hrest (hstep s' _ hafter))
    | finish hahead hend =>
      obtain ⟨s'', hnone⟩ := hdone s' hend
      rw [result_of_none hnone] at hrest
      cases hrest
      exact .finish hahead
  | case2 s s' hnext =>
    rw [hnext] at hadvance
    cases hadvance
  | case3 s e s' hnext =>
    rw [result_of_error hnext] at h
    cases h

end Source

/-! The steps of the tokenizers -/

/-- Flags that neither drop a token nor change its text. -/
def Flags.Plain (flags : Flags) : Prop := ∀ flag, flag ≠ .unifyNumbers → flags.holds flag = false

/-- No symbol of the state is of the kind of the end. -/
def State.LacksEof (state : State) : Prop :=
  ∀ tree, state = .symbol tree → TokenKind.eof ∉ tree.kinds

structure Rules.LacksEof (rules : Rules) : Prop where
  slot : ∀ tree ∈ rules.slots.symbol, TokenKind.eof ∉ tree.kinds
  routed : ∀ range ∈ rules.routes.ranges, range.value.LacksEof

structure Rules.Lossless (rules : Rules) : Prop extends rules.LacksEof where
  plain : rules.flags.Plain

theorem Flags.Plain.drops_eq_false {flags : Flags} (h : flags.Plain) (kind : TokenKind) :
    flags.drops kind = false := by
  cases kind with
  | unknown => exact h .skipUnknown Flag.noConfusion
  | comment => exact h .skipComments Flag.noConfusion
  | whitespace => exact h .skipWhitespaces Flag.noConfusion
  | _ => rfl

/-- Plain flags keep a token, its text and its place. -/
theorem Flags.Plain.apply_eq {flags : Flags} (h : flags.Plain) (token : Token)
    (hkind : token.kind ≠ .eof) :
    ∃ kind, kind ≠ .eof ∧ flags.apply token = some { token with kind := kind } := by
  have hmerge : flags.holds .mergeWhitespaces = false := h _ Flag.noConfusion
  have hdecode : flags.holds .decodeStrings = false := h _ Flag.noConfusion
  have hkept : flags.polish token = token ∨
      flags.polish token = { token with kind := .number } := by
    unfold polish
    split
    · rw [hmerge]
      exact .inl rfl
    · split
      · exact .inr rfl
      · exact .inl rfl
    · split
      · exact .inr rfl
      · exact .inl rfl
    · rw [hdecode]
      exact .inl rfl
    · exact .inl rfl
  rw [apply, h.drops_eq_false]
  rcases hkept with heq | heq
  · exact ⟨token.kind, hkind, by rw [heq]; rfl⟩
  · exact ⟨.number, TokenKind.noConfusion, by rw [heq]; rfl⟩

namespace Rules

variable {rules : Rules} {cursor : Cursor}

/-- A token that is scanned stands in front of the text and is not the end. -/
theorem LacksEof.of_scan (h : rules.LacksEof) {c : Char} {rest : List Char} {lexeme : Lexeme}
    (hscan : rules.scan c rest = .ok lexeme) :
    lexeme.chars <+: c :: rest ∧ lexeme.kind ≠ .eof := by
  have hsingle : [c] <+: c :: rest := ⟨rest, rfl⟩
  unfold scan at hscan
  split at hscan
  · cases hscan
    exact ⟨hsingle, TokenKind.noConfusion⟩
  · next state hroute =>
    obtain ⟨range, hrange, hvalue⟩ := CharMap.exists_range_of_get? hroute
    have hrouted := h.routed range hrange
    split at hscan
    · cases hscan
    · next lexeme' hstate =>
      cases hscan
      split
      · exact ⟨hsingle, TokenKind.noConfusion⟩
      · refine ⟨State.scan_isPrefix hstate, State.scan_kind_ne_eof h.slot ?_ hstate⟩
        rintro tree rfl
        exact hrouted tree hvalue

/-- The next token takes characters in front of the cursor. -/
theorem Lossless.takes_of_next (h : rules.Lossless) {token : Token} {after : Cursor}
    (hnext : rules.next cursor = (.ok (some token), after)) : token.Takes cursor after := by
  rcases rules.next_cases cursor with
    ⟨-, hend⟩ | ⟨c, rest, fault, -, -, hfault⟩ | ⟨c, rest, lexeme, hahead, hscan, hstep⟩
  · cases hend.symm.trans hnext
  · cases hfault.symm.trans hnext
  · obtain ⟨hfront, hkind⟩ := h.of_scan hscan
    obtain ⟨kind, hne, happly⟩ := h.plain.apply_eq
      ⟨lexeme.kind, String.ofList lexeme.chars, cursor.nextPlace⟩ hkind
    rw [hstep, happly] at hnext
    cases hnext
    exact {
      kind_ne := hne
      text_ne := by rw [String.toList_ofList]; exact scan_chars_ne_nil hscan
      front := by rw [String.toList_ofList, hahead]; exact hfront
      place := rfl
      after_eq := by rw [String.toList_ofList] }

/-- Without a token, the cursor is at the end. -/
theorem Lossless.of_next_none (h : rules.Lossless) {after : Cursor}
    (hnext : rules.next cursor = (.ok none, after)) : cursor.ahead = [] ∧ after = cursor := by
  rcases rules.next_cases cursor with
    ⟨hahead, hend⟩ | ⟨c, rest, fault, -, -, hfault⟩ | ⟨c, rest, lexeme, -, hscan, hstep⟩
  · cases hend.symm.trans hnext
    exact ⟨hahead, rfl⟩
  · cases hfault.symm.trans hnext
  · obtain ⟨kind, -, happly⟩ := h.plain.apply_eq
      ⟨lexeme.kind, String.ofList lexeme.chars, cursor.nextPlace⟩ (h.of_scan hscan).2
    rw [hstep, happly] at hnext
    cases hnext

end Rules

namespace Tokenizer

/-- A tokenizer in front of a cursor, with nothing read ahead and the end still to come. -/
structure At (t : Tokenizer) (cursor : Cursor) : Prop where
  lossless : t.rules.Lossless
  cursor_eq : t.cursor = some cursor
  lookahead_eq : t.lookahead = none
  lastKind_ne : t.lastKind ≠ some .eof

structure Done (t : Tokenizer) : Prop where
  lookahead_eq : t.lookahead = none
  lastKind_eq : t.lastKind = some .eof
  atEnd : ∃ cursor, t.cursor = some cursor ∧ cursor.ahead = []

/-- Reading takes a token in front of the cursor, or hands out the end. -/
theorem advance_read {t : Tokenizer} {cursor : Cursor} (h : t.At cursor) :
    Advance At Done cursor t.read := by
  rw [read, h.cursor_eq]
  dsimp only
  cases hnext : t.rules.next cursor with
  | mk answer after =>
    cases answer with
    | error e => exact .failed
    | ok next =>
      cases next with
      | some token =>
        have htakes := h.lossless.takes_of_next hnext
        refine .token htakes ⟨h.lossless, rfl, h.lookahead_eq, ?_⟩
        exact fun hkind => htakes.kind_ne (Option.some.inj hkind)
      | none =>
        obtain ⟨hahead, rfl⟩ := h.lossless.of_next_none hnext
        have hflag : t.rules.flags.holds .skipEof = false := h.lossless.plain _ Flag.noConfusion
        have hkept : ¬ (t.rules.flags.holds .skipEof = true ∨ t.lastKind = some .eof) := by
          rintro (hskip | hend)
          · rw [hflag] at hskip
            cases hskip
          · exact h.lastKind_ne hend
        dsimp only
        rw [if_neg hkept]
        exact .finish hahead ⟨h.lookahead_eq, rfl, _, rfl, hahead⟩

theorem read_of_done {t : Tokenizer} (h : t.Done) : ∃ t', t.read = (.ok none, t') := by
  obtain ⟨cursor, hcursor, hahead⟩ := h.atEnd
  rw [read, hcursor]
  dsimp only
  rw [Rules.next_of_end hahead]
  dsimp only
  rw [if_pos (.inr h.lastKind_eq)]
  exact ⟨_, rfl⟩

theorem advance_next {t : Tokenizer} {cursor : Cursor} (h : t.At cursor) :
    Advance At Done cursor (Source.next t) := by
  rw [next_eq_read h.lookahead_eq]
  exact advance_read h

theorem next_of_done {t : Tokenizer} (h : t.Done) : ∃ t', Source.next t = (.ok none, t') := by
  rw [next_eq_read h.lookahead_eq]
  exact read_of_done h

theorem divides_tokenize {t : Tokenizer} (h : t.rules.Lossless) {text : String}
    {tokens : List Token} (hresult : (t.tokenize text).result = .ok tokens) :
    Divides (Cursor.ofText text) tokens := by
  have hat : (t.start (Cursor.ofText text)).At (Cursor.ofText text) :=
    ⟨h, rfl, rfl, by rintro ⟨⟩⟩
  exact Source.divides_of_drain (fun _ _ => advance_next) (fun _ => next_of_done) hat hresult

end Tokenizer

namespace Template.Lexer

def At (s : Lexer) (cursor : Cursor) : Prop := s.tags.At cursor ∧ s.lookahead = none

def Done (s : Lexer) : Prop := s.tags.Done ∧ s.lookahead = none

variable {s : Lexer} {cursor : Cursor}

theorem beforePair_isPrefix (c : Char) (cs : List Char) : beforePair c cs <+: cs := by
  fun_induction beforePair c cs with
  | case1 => exact List.prefix_rfl
  | case2 => exact List.prefix_rfl
  | case3 => exact List.nil_prefix
  | case4 d e rest _ ih => exact (List.prefix_cons_inj d).mpr ih

theorem advance_take (h : s.At cursor) {kind : TokenKind} (hkind : kind ≠ .eof)
    {chars : List Char} (hne : chars ≠ []) (hfront : chars <+: cursor.ahead) :
    Advance At Done cursor (s.take cursor kind chars) := by
  have htakes : Token.Takes ⟨kind, String.ofList chars, cursor.nextPlace⟩ cursor
      (cursor.skip chars.length) := {
    kind_ne := hkind
    text_ne := by rw [String.toList_ofList]; exact hne
    front := by rw [String.toList_ofList]; exact hfront
    place := rfl
    after_eq := by rw [String.toList_ofList] }
  exact .token htakes ⟨⟨h.1.lossless, rfl, h.1.lookahead_eq, h.1.lastKind_ne⟩, h.2⟩

theorem advance_readTag (h : s.At cursor) : Advance At Done cursor s.readTag := by
  have hadvance := Tokenizer.advance_read h.1
  rw [readTag]
  cases hread : s.tags.read with
  | mk answer tags =>
    rw [hread] at hadvance
    cases hadvance with
    | failed => exact .failed
    | token taken hat => exact .token taken ⟨hat, h.2⟩
    | finish hahead hdone => exact .finish hahead ⟨hdone, h.2⟩

theorem advance_read (h : s.At cursor) : Advance At Done cursor s.read := by
  rw [read, h.1.cursor_eq]
  dsimp only
  split
  · split
    · exact advance_readTag h
    · next hnonempty =>
      have hne : literal cursor.ahead ≠ [] := by simpa using hnonempty
      exact advance_take h TokenKind.noConfusion hne (beforePair_isPrefix _ _)
  · split
    · next hremark =>
      have hhead : cursor.ahead.head? = some '!' := by
        simp only [Bool.and_eq_true, beq_iff_eq] at hremark
        exact hremark.2
      exact advance_take h TokenKind.noConfusion (remark_ne_nil hhead) (beforePair_isPrefix _ _)
    · exact advance_readTag h

theorem readTag_of_done (h : s.Done) : ∃ s', s.readTag = (.ok none, s') := by
  obtain ⟨tags, hread⟩ := Tokenizer.read_of_done h.1
  rw [readTag, hread]
  exact ⟨_, rfl⟩

theorem read_of_done (h : s.Done) : ∃ s', s.read = (.ok none, s') := by
  obtain ⟨cursor, hcursor, hahead⟩ := h.1.atEnd
  have hliteral : (literal cursor.ahead).isEmpty = true := by rw [hahead]; rfl
  have hremark : (s.opened && cursor.peek? == some '!') = false := by
    rw [Cursor.peek?, hahead, List.head?_nil]
    exact Bool.and_false _
  rw [read, hcursor]
  dsimp only
  rw [if_pos hliteral, hremark]
  split
  · exact readTag_of_done h
  · exact readTag_of_done h

theorem advance_next (h : s.At cursor) : Advance At Done cursor (Source.next s) := by
  rw [next_eq_read h.2]
  exact advance_read h

theorem next_of_done (h : s.Done) : ∃ s', Source.next s = (.ok none, s') := by
  rw [next_eq_read h.2]
  exact read_of_done h

theorem divides_tokenize (h : s.tags.rules.Lossless) {text : String} {tokens : List Token}
    (hresult : (s.tokenize text).result = .ok tokens) : Divides (Cursor.ofText text) tokens := by
  have hat : (s.start (Cursor.ofText text)).At (Cursor.ofText text) :=
    ⟨⟨h, rfl, rfl, by rintro ⟨⟩⟩, rfl⟩
  exact Source.divides_of_drain (fun _ _ => advance_next) (fun _ => next_of_done) hat hresult

end Template.Lexer

/-! Rules that are put together from states -/

namespace SymbolTree

def register (symbols : List (String × TokenKind)) : SymbolTree :=
  symbols.foldl (fun tree symbol => tree.insert symbol.1 symbol.2) empty

theorem kinds_foldl_insert (symbols : List (String × TokenKind)) (tree : SymbolTree)
    {kind : TokenKind} (h : kind ∈ (symbols.foldl (fun t s => t.insert s.1 s.2) tree).kinds) :
    kind = .symbol ∨ kind ∈ tree.kinds ∨ ∃ symbol ∈ symbols, symbol.2 = kind := by
  induction symbols generalizing tree with
  | nil => exact .inr (.inl h)
  | cons symbol rest ih =>
    rcases ih _ h with hsingle | hinsert | ⟨other, hother, hkind⟩
    · exact .inl hsingle
    · rcases List.mem_cons.mp (kinds_insert tree symbol.1 symbol.2 hinsert) with rfl | hold
      · exact .inr (.inr ⟨symbol, List.mem_cons_self, rfl⟩)
      · exact (List.mem_cons.mp hold).imp id .inl
    · exact .inr (.inr ⟨other, List.mem_cons_of_mem _ hother, hkind⟩)

/-- If no symbol is registered with a kind, the tree has none of that kind. Single characters are
plain symbols. -/
theorem not_mem_kinds_register {symbols : List (String × TokenKind)} {kind : TokenKind}
    (hsingle : kind ≠ .symbol) (h : ∀ symbol ∈ symbols, symbol.2 ≠ kind) :
    kind ∉ (register symbols).kinds := by
  intro hmem
  rcases kinds_foldl_insert symbols empty hmem with hplain | hempty | ⟨symbol, hsymbol, hkind⟩
  · exact hsingle hplain
  · cases hempty
  · exact h symbol hsymbol hkind

theorem ofList_eq_register (symbols : List String) :
    ofList symbols = register (symbols.map (·, .symbol)) := by
  rw [ofList, register, List.foldl_map]

theorem not_mem_kinds_ofList {kind : TokenKind} (h : kind ≠ .symbol) (symbols : List String) :
    kind ∉ (ofList symbols).kinds := by
  rw [ofList_eq_register]
  refine not_mem_kinds_register h fun symbol hsymbol => ?_
  obtain ⟨text, -, rfl⟩ := List.mem_map.mp hsymbol
  exact h.symm

end SymbolTree

namespace Rules

variable {rules : Rules}

theorem slots_routeAll (routes : List (Char × Char × State)) :
    (rules.routeAll routes).slots = rules.slots := by
  induction routes generalizing rules with
  | nil => rfl
  | cons first rest ih => exact ih

theorem forall_ranges_routeAll {P : State → Prop} {routes : List (Char × Char × State)}
    (h : ∀ range ∈ rules.routes.ranges, P range.value) (hroutes : ∀ route ∈ routes, P route.2.2) :
    ∀ range ∈ (rules.routeAll routes).routes.ranges, P range.value := by
  induction routes generalizing rules with
  | nil => exact h
  | cons first rest ih =>
    obtain ⟨hfirst, hrest⟩ := List.forall_mem_cons.mp hroutes
    exact ih (CharMap.forall_ranges_insertRange h hfirst _ _) hrest

theorem LacksEof.routeAll (h : rules.LacksEof) {routes : List (Char × Char × State)}
    (hroutes : ∀ route ∈ routes, route.2.2.LacksEof) : (rules.routeAll routes).LacksEof where
  slot := by
    rw [slots_routeAll]
    exact h.slot
  routed := forall_ranges_routeAll h.routed hroutes

theorem LacksEof.fillAll (h : rules.LacksEof) {states : List State}
    (hstates : ∀ state ∈ states, state.LacksEof) : (rules.fillAll states).LacksEof := by
  induction states generalizing rules with
  | nil => exact h
  | cons first rest ih =>
    refine ih ⟨?_, h.routed⟩ (fun state hstate => hstates state (List.mem_cons_of_mem _ hstate))
    cases first with
    | symbol symbols =>
      rintro tree ⟨⟩
      exact hstates _ List.mem_cons_self symbols rfl
    | _ => exact h.slot

theorem lacksEof_empty (flags : Flags) : LacksEof { empty with flags := flags } :=
  ⟨by rintro tree ⟨⟩, by simp [empty, CharMap.ranges_empty]⟩

end Rules

theorem Expr.lacksEof_lexicon : lexicon.LacksEof := by
  refine ((Rules.lacksEof_empty _).routeAll ?_).fillAll ?_
  · simp [State.LacksEof, SymbolTree.not_mem_kinds_ofList]
  · simp [State.LacksEof, SymbolTree.not_mem_kinds_ofList]

theorem Template.lacksEof_lexicon : lexicon.LacksEof := by
  refine ((Rules.lacksEof_empty _).routeAll ?_).fillAll ?_
  · simp [State.LacksEof, SymbolTree.not_mem_kinds_ofList]
  · simp [State.LacksEof, SymbolTree.not_mem_kinds_ofList]

/-- Whatever rules a tokenizer or a tokenizer of templates has, if none of its symbols is of the
kind of the end and its flags are plain, the tokens that it divides a text into make up the text.
The rules of expressions and those inside tags are of that kind, and so are all that are put
together from states with symbols that are not registered as the end. -/
theorem tokenize_covers (text : String) :
    (∀ t : Tokenizer, t.rules.LacksEof → t.rules.flags.Plain →
      ∀ tokens, (t.tokenize text).result = .ok tokens → Covers text tokens) ∧
    (∀ s : Template.Lexer, s.tags.rules.LacksEof → s.tags.rules.flags.Plain →
      ∀ tokens, (s.tokenize text).result = .ok tokens → Covers text tokens) ∧
    (∀ flags, Rules.LacksEof { Expr.lexicon with flags := flags } ∧
      Rules.LacksEof { Template.lexicon with flags := flags }) ∧
    (∀ symbols : List (String × TokenKind), (∀ symbol ∈ symbols, symbol.2 ≠ .eof) →
      State.LacksEof (.symbol (SymbolTree.register symbols))) ∧
    (∀ flags routes states, (∀ route ∈ routes, route.2.2.LacksEof) →
      (∀ state ∈ states, state.LacksEof) →
      (({ Rules.empty with flags := flags } : Rules).routeAll routes
        |>.fillAll states).LacksEof) := by
  refine ⟨?tokenizer, ?template, ?lexicons, ?symbols, ?states⟩
  case tokenizer =>
    intro t hlacks hplain tokens hresult
    exact .of_divides (Tokenizer.divides_tokenize ⟨hlacks, hplain⟩ hresult)
  case template =>
    intro s hlacks hplain tokens hresult
    exact .of_divides (Template.Lexer.divides_tokenize ⟨hlacks, hplain⟩ hresult)
  case lexicons =>
    intro flags
    exact ⟨⟨Expr.lacksEof_lexicon.slot, Expr.lacksEof_lexicon.routed⟩,
      ⟨Template.lacksEof_lexicon.slot, Template.lacksEof_lexicon.routed⟩⟩
  case symbols =>
    rintro symbols hsymbols tree ⟨⟩
    exact SymbolTree.not_mem_kinds_register TokenKind.noConfusion hsymbols
  case states =>
    intro flags routes states hroutes hstates
    exact ((Rules.lacksEof_empty flags).routeAll hroutes).fillAll hstates

/-- The blanks between tokens and the end are tokens too, and in a template the tags beside the
text. -/
theorem tokenize_covers_blanks_and_tags :
    let rules : Rules := { Expr.lexicon with flags := .none }
    let tags : Rules := { Template.lexicon with flags := .none }
    let words : List Token :=
      [⟨.word, "ab", ⟨1, 1⟩⟩, ⟨.whitespace, " ", ⟨1, 3⟩⟩, ⟨.symbol, "<=", ⟨1, 4⟩⟩,
        ⟨.whitespace, " ", ⟨1, 6⟩⟩, ⟨.float, "1.5", ⟨1, 7⟩⟩, ⟨.eof, "", ⟨1, 10⟩⟩]
    let pieces : List Token :=
      [⟨.special, "Hi ", ⟨1, 1⟩⟩, ⟨.symbol, "\x7b\x7b", ⟨1, 4⟩⟩, ⟨.whitespace, " ", ⟨1, 6⟩⟩,
        ⟨.word, "a", ⟨1, 7⟩⟩, ⟨.symbol, "\x7d\x7d", ⟨1, 8⟩⟩, ⟨.special, "!", ⟨1, 10⟩⟩,
        ⟨.eof, "", ⟨1, 11⟩⟩]
    rules.flags.Plain ∧ rules.LacksEof ∧ tags.LacksEof ∧
      ((Tokenizer.ofRules rules).tokenize "ab <= 1.5").result = .ok words ∧
      Covers "ab <= 1.5" words ∧
      ((Template.Lexer.ofRules tags).tokenize "Hi \x7b\x7b a\x7d\x7d!").result = .ok pieces ∧
      Covers "Hi \x7b\x7b a\x7d\x7d!" pieces := by
  intro rules tags words pieces
  have hplain : rules.flags.Plain := fun _ _ => rfl
  obtain ⟨hrules, htags⟩ := (tokenize_covers "ab <= 1.5").2.2.1 .none
  have hwords : ((Tokenizer.ofRules rules).tokenize "ab <= 1.5").result = .ok words :=
    ok_of_toOption (by decide +kernel)
  have hpieces : ((Template.Lexer.ofRules tags).tokenize "Hi \x7b\x7b a\x7d\x7d!").result =
      .ok pieces :=
    ok_of_toOption (by decide +kernel)
  exact ⟨hplain, hrules, htags, hwords,
    (tokenize_covers "ab <= 1.5").1 (.ofRules rules) hrules hplain words hwords, hpieces,
    (tokenize_covers "Hi \x7b\x7b a\x7d\x7d!").2.1 (.ofRules tags) htags hplain pieces hpieces⟩

end Formulary
