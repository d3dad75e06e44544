import Formulary.Proofs.Lex.Lossless

/-!
# Strings in quotes and comments in marks

A string is written in quotes with every quote inside doubled. Such a text is closed by the quote
that ends it and by none before, as long as no further quote follows, and to make each pair of
quotes one again is to undo the doubling. Conversely a state that reads strings in quotes takes
nothing but such texts, and no other state reads a token of that kind unless a symbol is registered
for it. A comment is closed by the first closing mark.
-/

namespace Formulary

namespace Quoted

variable {quote : Char} {s cs chars after : List Char}

theorem collapse_cons_of_ne {c : Char} (h : c ≠ quote) (cs : List Char) :
    collapse quote (c :: cs) = c :: collapse quote cs := by
  cases cs with
  | nil => rfl
  | cons d rest => rw [collapse, if_neg fun hpair => h hpair.1]

theorem collapse_double (quote : Char) (s : List Char) : collapse quote (double quote s) = s := by
  induction s with
  | nil => rfl
  | cons c rest ih =>
    by_cases hc : c = quote
    · subst hc
      rw [double, if_pos rfl, collapse, if_pos ⟨rfl, rfl⟩, ih]
    · rw [double, if_neg hc, collapse_cons_of_ne hc, ih]

theorem decode_encode (quote : Char) (s : List Char) : decode (encode quote s) = s := by
  rw [encode, List.cons_append]
  cases hinside : double quote s ++ [quote] with
  | nil => exact absurd hinside (List.append_ne_nil_of_right_ne_nil _ (List.cons_ne_nil _ _))
  | cons d rest =>
    have hlast : (d :: rest).getLast? = some quote := by rw [← hinside, List.getLast?_concat]
    rw [decode, if_pos hlast, ← hinside, List.dropLast_concat, collapse_double]
    exact List.cons_ne_nil d rest

/-! The closing quote -/

theorem close?_cons_of_ne {c : Char} (h : c ≠ quote) (cs : List Char) :
    close? quote (c :: cs) = (close? quote cs).map (c :: ·) := by
  cases cs with
  | nil => simp [close?, h]
  | cons d rest => rw [close?, if_neg h]

theorem close?_at_quote (h : after.head? ≠ some quote) :
    close? quote (quote :: after) = some [quote] := by
  cases after with
  | nil => rw [close?, if_pos rfl]
  | cons d rest => rw [close?, if_pos rfl, if_neg fun hd => h (congrArg some hd)]

/-- A string with its quotes doubled is closed by the quote behind it, and not before. -/
theorem close?_double_append (h : after.head? ≠ some quote) (s : List Char) :
    close? quote (double quote s ++ quote :: after) = some (double quote s ++ [quote]) := by
  induction s with
  | nil => exact close?_at_quote h
  | cons c rest ih =>
    by_cases hc : c = quote
    · subst hc
      rw [double, if_pos rfl, List.cons_append, List.cons_append, close?, if_pos rfl, if_pos rfl,
        ih]
      rfl
    · rw [double, if_neg hc, List.cons_append, close?_cons_of_ne hc, ih]
      rfl

/-- What is closed is a string with its quotes doubled, and no further quote follows. -/
theorem exists_double_of_close? (h : close? quote cs = some chars) :
    ∃ s after, cs = double quote s ++ quote :: after ∧ after.head? ≠ some quote ∧
      chars = double quote s ++ [quote] := by
  fun_induction close? quote cs generalizing chars with
  | case1 => cases h
  | case2 =>
    cases h
    exact ⟨[], [], rfl, (Option.some_ne_none quote).symm, rfl⟩
  | case3 => cases h
  | case4 rest ih =>
    obtain ⟨closed, hclosed, rfl⟩ := Option.map_eq_some_iff.mp h
    obtain ⟨s, after, rfl, hafter, rfl⟩ := ih hclosed
    have hdouble : double quote (quote :: s) = quote :: quote :: double quote s := by
      rw [double, if_pos rfl]
    exact ⟨quote :: s, after, by rw [hdouble]; rfl, hafter, by rw [hdouble]; rfl⟩
  | case5 d rest hd =>
    cases h
    exact ⟨[], d :: rest, rfl, fun hhead => hd (Option.some.inj hhead), rfl⟩
  | case6 c d rest hc ih =>
    obtain ⟨closed, hclosed, rfl⟩ := Option.map_eq_some_iff.mp h
    obtain ⟨s, after, hrest, hafter, rfl⟩ := ih hclosed
    have hdouble : double quote (c :: s) = c :: double quote s := by rw [double, if_neg hc]
    exact ⟨c :: s, after, by rw [hrest, hdouble]; rfl, hafter, by rw [hdouble]; rfl⟩

/-- Reading a string in quotes accepts exactly what writing one produces, with no quote behind. -/
theorem scan?_eq_some_iff : scan? (quote :: cs) = some chars ↔
    ∃ s after, quote :: cs = encode quote s ++ after ∧ after.head? ≠ some quote ∧
      chars = encode quote s := by
  have hencode (s after : List Char) :
      encode quote s ++ after = quote :: (double quote s ++ quote :: after) := by
    rw [encode, List.append_assoc]
    rfl
  rw [scan?, Option.map_eq_some_iff]
  constructor
  · rintro ⟨closed, hclosed, rfl⟩
    obtain ⟨s, after, rfl, hafter, rfl⟩ := exists_double_of_close? hclosed
    exact ⟨s, after, (hencode s after).symm, hafter, rfl⟩
  · rintro ⟨s, after, hcs, hafter, rfl⟩
    rw [hencode, List.cons.injEq] at hcs
    exact ⟨double quote s ++ [quote], hcs.2 ▸ close?_double_append hafter s, rfl⟩

/-- What is never closed has all its quotes doubled. -/
theorem close?_eq_none_iff : close? quote cs = none ↔ ∃ s, cs = double quote s := by
  constructor
  · intro h
    fun_induction close? quote cs with
    | case1 => exact ⟨[], rfl⟩
    | case2 => cases h
    | case3 c hc => exact ⟨[c], by rw [double, if_neg hc]; rfl⟩
    | case4 rest ih =>
      obtain ⟨s, rfl⟩ := ih (Option.map_eq_none_iff.mp h)
      exact ⟨quote :: s, by rw [double, if_pos rfl]⟩
    | case5 => cases h
    | case6 c d rest hc ih =>
      obtain ⟨s, hs⟩ := ih (Option.map_eq_none_iff.mp h)
      exact ⟨c :: s, by rw [double, if_neg hc, hs]⟩
  · rintro ⟨s, rfl⟩
    induction s with
    | nil => rfl
    | cons c rest ih =>
      by_cases hc : c = quote
      · subst hc
        rw [double, if_pos rfl, close?, if_pos rfl, if_pos rfl, ih]
        rfl
      · rw [double, if_neg hc, close?_cons_of_ne hc, ih]
        rfl

theorem scan?_eq_none_iff : scan? (quote :: cs) = none ↔ ∃ s, cs = double quote s := by
  rw [scan?, Option.map_eq_none_iff, close?_eq_none_iff]

end Quoted

namespace Comment

variable {cs closed : List Char}

theorem close?_cons {c : Char} (h : ¬ ['*', '/'] <+: c :: cs) :
    close? (c :: cs) = (close? cs).map (c :: ·) := by
  cases cs with
  | nil => rfl
  | cons d rest =>
    rw [close?, if_neg]
    rintro ⟨rfl, rfl⟩
    exact h (List.prefix_append ['*', '/'] rest)

/-- A comment is closed by the first closing mark. -/
theorem close?_of_mark {body : List Char} (h : ¬ ['*', '/'] <:+: body) (after : List Char) :
    close? (body ++ '*' :: '/' :: after) = some (body ++ ['*', '/']) := by
  induction body with
  | nil => rfl
  | cons c rest ih =>
    rw [List.infix_cons_iff, not_or] at h
    have hmark : ¬ ['*', '/'] <+: c :: (rest ++ '*' :: '/' :: after) := by
      intro hstart
      obtain ⟨rfl, hslash⟩ := List.cons_prefix_cons.mp hstart
      cases rest with
      | nil => cases (List.cons_prefix_cons.mp hslash).1
      | cons d others =>
        obtain ⟨rfl, -⟩ := List.cons_prefix_cons.mp hslash
        exact h.1 (List.prefix_append ['*', '/'] others)
    rw [List.cons_append, close?_cons hmark, ih h.2]
    rfl

theorem close?_mark (after : List Char) : close? ('*' :: '/' :: after) = some ['*', '/'] := rfl

/-- A comment is never closed if there is no closing mark. -/
theorem close?_eq_none_iff : close? cs = none ↔ ¬ ['*', '/'] <:+: cs := by
  induction cs with
  | nil => simp [close?]
  | cons c rest ih =>
    rw [List.infix_cons_iff, not_or]
    by_cases hmark : ['*', '/'] <+: c :: rest
    · have hsome : close? (c :: rest) = some ['*', '/'] := by
        obtain ⟨after, hafter⟩ := hmark
        rw [← hafter]
        exact close?_mark after
      rw [hsome]
      exact ⟨fun hnone => absurd hnone (Option.some_ne_none _), fun h => absurd hmark h.1⟩
    · rw [close?_cons hmark, Option.map_eq_none_iff, ih]
      exact ⟨fun h => ⟨hmark, h⟩, And.right⟩

/-- A comment is closed by the first closing mark. -/
theorem close?_eq_some_iff : close? cs = some closed ↔ ∃ body after,
    cs = body ++ '*' :: '/' :: after ∧ ¬ ['*', '/'] <:+: body ∧ closed = body ++ ['*', '/'] := by
  constructor
  · intro h
    induction cs generalizing closed with
    | nil => cases h
    | cons c rest ih =>
      by_cases hmark : ['*', '/'] <+: c :: rest
      · obtain ⟨after, hafter⟩ := hmark
        rw [← hafter] at h
        cases h
        exact ⟨[], after, hafter.symm, by simp, rfl⟩
      · rw [close?_cons hmark] at h
        obtain ⟨closed, hclosed, rfl⟩ := Option.map_eq_some_iff.mp h
        obtain ⟨body, after, rfl, hbody, rfl⟩ := ih hclosed
        refine ⟨c :: body, after, rfl, ?_, rfl⟩
        rw [List.infix_cons_iff, not_or]
        exact ⟨fun hstart => hmark (hstart.trans (List.prefix_append (c :: body) _)), hbody⟩
  · rintro ⟨body, after, rfl, hbody, rfl⟩
    exact close?_of_mark hbody after

end Comment

/-- The token is a string in quotes as it is written: its first character, the string that it stands
for with that character doubled, and that character again. -/
def Token.Quotes (token : Token) : Prop :=
  ∃ quote, token.text.toList.head? = some quote ∧
    token.text.toList = Quoted.encode quote (Quoted.decode token.text.toList)

theorem Token.quotes_of_encode {token : Token} {quote : Char} {s : List Char}
    (h : token.text.toList = Quoted.encode quote s) : token.Quotes := by
  refine ⟨quote, ?_, ?_⟩
  · rw [h]
    rfl
  · rw [h, Quoted.decode_encode]

/-! Tokens of the kind of strings in quotes -/

/-- No symbol of the state is of the kind of strings in quotes. -/
def State.LacksQuoted (state : State) : Prop :=
  ∀ tree, state = .symbol tree → TokenKind.quoted ∉ tree.kinds

structure Rules.LacksQuoted (rules : Rules) : Prop where
  slot : ∀ tree ∈ rules.slots.symbol, TokenKind.quoted ∉ tree.kinds
  routed : ∀ range ∈ rules.routes.ranges, range.value.LacksQuoted

/-- Only the state for strings in quotes reads tokens of their kind. -/
theorem State.eq_quote_of_scan {symbols : Option SymbolTree} {state : State} {lexeme : Lexeme}
    {cs : List Char} (hslot : ∀ tree ∈ symbols, TokenKind.quoted ∉ tree.kinds)
    (hstate : state.LacksQuoted) (h : state.scan symbols cs = .ok lexeme)
    (hkind : lexeme.kind = .quoted) : state = .quote := by
  rw [← hkind] at hslot
  have hmem := kind_scan hslot (fun tree htree => hkind ▸ hstate tree htree) h
  rw [hkind] at hmem
  cases state with
  | quote => rfl
  | _ => simp [ownKinds] at hmem

namespace Rules

variable {rules : Rules} {cursor : Cursor} {c : Char} {rest : List Char} {lexeme : Lexeme}

/-- A token of the kind of strings in quotes has the characters of one. -/
theorem LacksQuoted.exists_encode (h : rules.LacksQuoted) (hscan : rules.scan c rest = .ok lexeme)
    (hkind : lexeme.kind = .quoted) : ∃ s, lexeme.chars = Quoted.encode c s := by
  unfold scan at hscan
  split at hscan
  · cases hscan
    cases hkind
  · next state hroute =>
    obtain ⟨range, hrange, hvalue⟩ := CharMap.exists_range_of_get? hroute
    have hrouted := h.routed range hrange
    rw [hvalue] at hrouted
    split at hscan
    · cases hscan
    · next read hread =>
      cases hscan
      split at hkind
      · cases hkind
      · next hne =>
        obtain rfl := State.eq_quote_of_scan h.slot hrouted hread hkind
        rw [if_neg hne]
        rw [State.scan] at hread
        split at hread
        · next chars hquoted =>
          cases hread
          obtain ⟨s, -, -, -, rfl⟩ := Quoted.scan?_eq_some_iff.mp hquoted
          exact ⟨s, rfl⟩
        · cases hread

end Rules

/-- A token that is kept and whose strings stay as they are written is the token that was read. -/
theorem Flags.text_of_apply {flags : Flags} {token kept : Token}
    (hdecode : flags.holds .decodeStrings = false) (h : flags.apply token = some kept)
    (hkind : kept.kind = .quoted) : kept = token := by
  unfold apply at h
  split at h
  · cases h
  · cases h
    unfold polish at hkind ⊢
    rw [hdecode] at hkind ⊢
    obtain ⟨kind, text, p⟩ := token
    cases kind <;> first | rfl | (dsimp only at hkind; split at hkind <;> cases hkind)

namespace Rules

variable {rules : Rules} {cursor : Cursor}

/-- Strings that are not decoded are handed out as they are written. -/
theorem LacksQuoted.quotes_of_next (h : rules.LacksQuoted)
    (hdecode : rules.flags.holds .decodeStrings = false) {token : Token} {after : Cursor}
    (hnext : rules.next cursor = (.ok (some token), after)) (hkind : token.kind = .quoted) :
    token.Quotes := by
  induction hn : cursor.ahead.length using Nat.strongRecOn generalizing cursor with
  | _ n ih =>
    cases hahead : cursor.ahead with
    | nil =>
      rw [next_of_end hahead] at hnext
      cases hnext
    | cons c rest =>
      cases hscan : rules.scan c rest with
      | error fault =>
        rw [next_of_fault hahead hscan] at hnext
        cases hnext
      | ok lexeme =>
        rw [next_of_scan hahead hscan] at hnext
        split at hnext
        · next kept happly =>
          cases hnext
          obtain rfl := Flags.text_of_apply hdecode happly hkind
          obtain ⟨s, hs⟩ := h.exists_encode hscan hkind
          exact Token.quotes_of_encode (by rw [← hs]; exact String.toList_ofList)
        · -- The token was dropped, and the next one comes from behind it.
          have hne := List.length_pos_iff.mpr (scan_chars_ne_nil hscan)
          refine ih _ ?_ hnext rfl
          simp only [Cursor.ahead_skip, hahead, List.length_drop, List.length_cons] at hn ⊢
          omega

end Rules

/-- Tokens of strings in quotes are written as such, up to the end or the first error. -/
theorem Tokenizer.quotes_of_mem_tokenize {t : Tokenizer} (h : t.rules.LacksQuoted)
    (hdecode : t.rules.flags.holds .decodeStrings = false) (text : String) :
    ∀ token ∈ (t.tokenize text).tokens, token.kind = .quoted → token.Quotes := by
  let Keeps (s : Tokenizer) : Prop := s.rules = t.rules ∧ s.lookahead = none
  refine Source.forall_mem_drain Keeps ?_ ⟨rfl, rfl⟩
  rintro s token s' ⟨hrules, hlookahead⟩ hnext
  rw [next_eq_read hlookahead, read] at hnext
  split at hnext
  · cases hnext
  · next cursor hcursor =>
    split at hnext
    · cases hnext
    · next read after hread =>
      cases hnext
      rw [hrules] at hread
      exact ⟨h.quotes_of_next hdecode hread, hrules, hlookahead⟩
    · split at hnext
      · cases hnext
      · cases hnext
        exact ⟨fun hkind => TokenKind.noConfusion hkind, hrules, hlookahead⟩

/-! Rules with strings in quotes -/

namespace Quoted

def quotes : List Char := ['\x27', '\x22']

theorem mem_quotes {quote : Char} : quote ∈ quotes ↔ quote = '\x27' ∨ quote = '\x22' := by
  simp [quotes]

def literal (quote : Char) (s : String) : String := String.ofList (encode quote s.toList)

theorem toList_literal_append (quote : Char) (s after : String) :
    (literal quote s ++ after).toList = encode quote s.toList ++ after.toList := by
  rw [String.toList_append, literal, String.toList_ofList]

end Quoted

/-- Rules that read a string in quotes at either quote and nowhere else. -/
structure Rules.ReadsStrings (rules : Rules) : Prop extends rules.LacksQuoted where
  routes : ∀ quote ∈ Quoted.quotes, rules.routes.get? quote = some .quote

namespace Rules

variable {rules : Rules} {cursor : Cursor} {quote : Char} {s after : List Char}

/-- A string in quotes is read up to the quote that ends it. -/
theorem scan_encode (hroute : rules.routes.get? quote = some .quote)
    (hafter : after.head? ≠ some quote) (s : List Char) :
    rules.scan quote (Quoted.double quote s ++ quote :: after) =
      .ok ⟨.quoted, Quoted.encode quote s⟩ := by
  have hscan : Quoted.scan? (quote :: (Quoted.double quote s ++ quote :: after)) =
      some (Quoted.encode quote s) :=
    Quoted.scan?_eq_some_iff.mpr ⟨s, after, by simp [Quoted.encode], hafter, rfl⟩
  rw [scan, hroute]
  dsimp only
  rw [State.scan, hscan]
  rfl

/-- The token of a string in quotes is the next one, with the string itself if it is decoded. -/
theorem next_encode (hroute : rules.routes.get? quote = some .quote)
    (hahead : cursor.ahead = Quoted.encode quote s ++ after) (hafter : after.head? ≠ some quote) :
    rules.next cursor = (.ok (some ⟨.quoted, String.ofList (if rules.flags.holds .decodeStrings
      then s else Quoted.encode quote s), cursor.nextPlace⟩),
      cursor.skip (Quoted.encode quote s).length) := by
  have hcons : cursor.ahead = quote :: (Quoted.double quote s ++ quote :: after) := by
    rw [hahead, Quoted.encode, List.append_assoc]
    rfl
  rw [next_of_scan hcons (scan_encode hroute hafter s), Flags.apply]
  dsimp only [Flags.drops, Flags.polish]
  rw [String.toList_ofList, Quoted.decode_encode]
  cases rules.flags.holds .decodeStrings <;> rfl

end Rules

end Formulary
