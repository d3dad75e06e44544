import Formulary.Proofs.Lex.Lossless

/-!
# Flags work on the tokens afterwards

Without flags, the states divide a text into raw tokens. With flags, the tokens are those that the
flags make of the raw ones when all of them are there: first the tokens of some kinds are left out,
then what stays is changed, one flag after the other. Reading on behind a token that is dropped
comes to the same, and so does the end, which is told by the kind of the last token. Flags neither
cause nor hide an error.
-/

namespace Formulary

/-! What flags make of a list of tokens -/

namespace Token

def spaced (token : Token) : Token :=
  if token.kind = .whitespace then { token with text := " " } else token

def unified (token : Token) : Token :=
  if token.kind = .integer ∨ token.kind = .float then { token with kind := .number } else token

def decoded (token : Token) : Token :=
  if token.kind = .quoted then
    { token with text := String.ofList (Quoted.decode token.text.toList) }
  else token

end Token

namespace Flags

def skips (flags : Flags) : TokenKind → Bool
  | .unknown => flags.holds .skipUnknown
  | .comment => flags.holds .skipComments
  | .whitespace => flags.holds .skipWhitespaces
  | .eof => flags.holds .skipEof
  | _ => false

def change (flags : Flags) (flag : Flag) (how : Token → Token) (token : Token) : Token :=
  if flags.holds flag then how token else token

/-- What the flags make of raw tokens: some are left out, then whitespace is merged, then numbers
are unified, then strings are decoded. -/
def afterwards (flags : Flags) (tokens : List Token) : List Token :=
  tokens.filter (fun token => !flags.skips token.kind)
    |>.map (flags.change .mergeWhitespaces Token.spaced)
    |>.map (flags.change .unifyNumbers Token.unified)
    |>.map (flags.change .decodeStrings Token.decoded)

variable {flags : Flags} {token : Token}

/-- The changes one after the other are the one that suits the kind of the token. -/
theorem change_change_change (flags : Flags) (token : Token) :
    (token |> flags.change .mergeWhitespaces Token.spaced
      |> flags.change .unifyNumbers Token.unified
      |> flags.change .decodeStrings Token.decoded) = flags.polish token := by
  obtain ⟨kind, text, place⟩ := token
  unfold change polish
  generalize flags.holds .mergeWhitespaces = merge
  generalize flags.holds .unifyNumbers = unify
  generalize flags.holds .decodeStrings = decode
  cases merge <;> cases unify <;> cases decode <;> cases kind <;> rfl

theorem afterwards_of_skips (h : flags.skips token.kind = true) (rest : List Token) :
    flags.afterwards (token :: rest) = flags.afterwards rest := by
  simp only [afterwards, List.filter_cons, h, Bool.not_true, Bool.false_eq_true, if_false]

theorem afterwards_of_kept (h : flags.skips token.kind = false) (rest : List Token) :
    flags.afterwards (token :: rest) = flags.polish token :: flags.afterwards rest := by
  simp only [afterwards, List.filter_cons, h, Bool.not_false, if_true, List.map_cons,
    change_change_change]

/-- A token that is not the end is left out or kept with the same outcome wherever it is done. -/
theorem afterwards_cons (h : token.kind ≠ .eof) (rest : List Token) :
    flags.afterwards (token :: rest) = (flags.apply token).toList ++ flags.afterwards rest := by
  have hskips : flags.skips token.kind = flags.drops token.kind := by
    cases hkind : token.kind with
    | eof => exact absurd hkind h
    | _ => rfl
  rw [apply, ← hskips]
  cases hskip : flags.skips token.kind with
  | true => exact afterwards_of_skips hskip rest
  | false => exact afterwards_of_kept hskip rest

/-- A token that is kept does not become the end. -/
theorem kind_ne_eof_of_apply {kept : Token} (h : token.kind ≠ .eof)
    (happly : flags.apply token = some kept) : kept.kind ≠ .eof := by
  unfold apply at happly
  split at happly
  · cases happly
  · cases happly
    unfold polish
    split
    · split <;> exact h
    · split
      · exact TokenKind.noConfusion
      · exact h
    · split
      · exact TokenKind.noConfusion
      · exact h
    · split <;> exact h
    · exact h

theorem afterwards_end (flags : Flags) (place : Position) :
    flags.afterwards [⟨.eof, "", place⟩] =
      if flags.holds .skipEof then [] else [⟨.eof, "", place⟩] := by
  have hskips : flags.skips (Token.mk .eof "" place).kind = flags.holds .skipEof := rfl
  split
  · next hskip => exact afterwards_of_skips (hskips.trans hskip) []
  · next hskip => exact afterwards_of_kept (hskips.trans (Bool.eq_false_iff.mpr hskip)) []

theorem apply_none (token : Token) : none.apply token = some token := by
  obtain ⟨kind, text, place⟩ := token
  cases kind <;> rfl

theorem afterwards_none (tokens : List Token) : none.afterwards tokens = tokens := by
  have hkept : ∀ token : Token, none.skips token.kind = false := by
    intro token
    cases token.kind <;> rfl
  have hsame (flag : Flag) (how : Token → Token) : none.change flag how = id := rfl
  simp [afterwards, hkept, hsame]

end Flags

/-! Raw tokens -/

namespace Rules

/-- The raw tokens of what is in front of a cursor, up to the one for the end, or the first error.
Only the states have a say in it. -/
def divide (rules : Rules) (cursor : Cursor) : Except LexError (List Token) :=
  match _ : cursor.ahead with
  | [] => .ok [⟨.eof, "", cursor.nextPlace⟩]
  | c :: rest =>
    match _ : rules.scan c rest with
    | .error fault => .error (fault.at cursor.nextPlace)
    | .ok lexeme =>
      (rules.divide (cursor.skip lexeme.chars.length)).map
        (⟨lexeme.kind, String.ofList lexeme.chars, cursor.nextPlace⟩ :: ·)
termination_by cursor.ahead.length
decreasing_by
  have hne := List.length_pos_iff.mpr (scan_chars_ne_nil ‹rules.scan c rest = .ok lexeme›)
  simp only [Cursor.ahead_skip, ‹cursor.ahead = c :: rest›, List.length_drop, List.length_cons]
  omega

variable {rules : Rules} {cursor : Cursor}

theorem divide_of_end (h : cursor.ahead = []) :
    rules.divide cursor = .ok [⟨.eof, "", cursor.nextPlace⟩] := by
  rw [divide]
  split <;> simp_all

theorem divide_of_fault {c : Char} {rest : List Char} {fault : LexFault}
    (hahead : cursor.ahead = c :: rest) (hscan : rules.scan c rest = .error fault) :
    rules.divide cursor = .error (fault.at cursor.nextPlace) := by
  rw [divide]
  split
  · simp_all
  · split <;> simp_all

theorem divide_of_scan {c : Char} {rest : List Char} {lexeme : Lexeme}
    (hahead : cursor.ahead = c :: rest) (hscan : rules.scan c rest = .ok lexeme) :
    rules.divide cursor = (rules.divide (cursor.skip lexeme.chars.length)).map
      (⟨lexeme.kind, String.ofList lexeme.chars, cursor.nextPlace⟩ :: ·) := by
  rw [divide]
  split
  · simp_all
  · split <;> simp_all

/-- Dividing a text does not ask for the flags. -/
theorem divide_flags (flags : Flags) :
    divide { rules with flags := flags } cursor = rules.divide cursor := by
  induction cursor using divide.induct rules with
  | case1 cursor hahead => rw [divide_of_end hahead, divide_of_end hahead]
  | case2 cursor c rest hahead fault hscan =>
    have hsame : scan { rules with flags := flags } c rest = .error fault := hscan
    rw [divide_of_fault hahead hscan, divide_of_fault hahead hsame]
  | case3 cursor c rest hahead lexeme hscan ih =>
    have hsame : scan { rules with flags := flags } c rest = .ok lexeme := hscan
    rw [divide_of_scan hahead hscan, divide_of_scan hahead hsame, ih]

end Rules

/-! The tokenizer under flags -/

namespace Tokenizer

/-- A tokenizer with these rules in front of a cursor, with nothing read ahead and the end still to
come. -/
structure Faces (t : Tokenizer) (rules : Rules) (cursor : Cursor) : Prop where
  rules_eq : t.rules = rules
  cursor_eq : t.cursor = some cursor
  lookahead_eq : t.lookahead = none
  lastKind_ne : t.lastKind ≠ some .eof

variable {t : Tokenizer} {rules : Rules} {cursor after : Cursor}

theorem Faces.next_eq (h : t.Faces rules cursor) : Source.next t =
    match rules.next cursor with
    | (.error e, after) => (.error e, { t with cursor := some after })
    | (.ok (some token), after) =>
      (.ok (some token), { t with cursor := some after, lastKind := some token.kind })
    | (.ok none, after) =>
      if rules.flags.holds .skipEof then (.ok none, { t with cursor := some after })
      else (.ok (some ⟨.eof, "", after.nextPlace⟩),
        { t with cursor := some after, lastKind := some .eof }) := by
  rw [next_eq_read h.lookahead_eq, read, h.cursor_eq, h.rules_eq]
  dsimp only
  rcases rules.next cursor with ⟨_ | (_ | token), after⟩
  · rfl
  · simp only [h.lastKind_ne, or_false]
  · rfl

theorem Faces.result_at_end (h : t.Faces rules cursor) (hahead : cursor.ahead = []) :
    (Source.drain t).result = .ok (rules.flags.afterwards [⟨.eof, "", cursor.nextPlace⟩]) := by
  have hnext := h.next_eq
  rw [Rules.next_of_end hahead] at hnext
  dsimp only at hnext
  rw [Flags.afterwards_end]
  split
  · next hskip =>
    rw [if_pos hskip] at hnext
    exact Source.result_of_none hnext
  · next hskip =>
    rw [if_neg hskip] at hnext
    -- The end is handed out once, since its kind is the last one now.
    obtain ⟨t', hdone⟩ := next_of_done
      (t := { t with cursor := some cursor, lastKind := some .eof })
      ⟨h.lookahead_eq, rfl, cursor, rfl, hahead⟩
    rw [Source.result_of_token hnext, Source.result_of_none hdone]
    rfl

theorem Faces.result_at_fault (h : t.Faces rules cursor) {c : Char} {rest : List Char}
    {fault : LexFault} (hahead : cursor.ahead = c :: rest)
    (hscan : rules.scan c rest = .error fault) :
    (Source.drain t).result = .error (fault.at cursor.nextPlace) := by
  have hnext := h.next_eq
  rw [Rules.next_of_fault hahead hscan] at hnext
  exact Source.result_of_error hnext

/-- A token that is scanned is drained as far as the flags keep it, and the tokenizer goes on
behind it. -/
theorem Faces.result_at_token (h : t.Faces rules cursor) {c : Char} {rest : List Char}
    {lexeme : Lexeme} (hahead : cursor.ahead = c :: rest) (hscan : rules.scan c rest = .ok lexeme)
    (hkind : lexeme.kind ≠ .eof) :
    ∃ t' : Tokenizer, t'.Faces rules (cursor.skip lexeme.chars.length) ∧
      (Source.drain t).result = (Source.drain t').result.map ((rules.flags.apply
        ⟨lexeme.kind, String.ofList lexeme.chars, cursor.nextPlace⟩).toList ++ ·) := by
  have hnext := h.next_eq
  rw [Rules.next_of_scan hahead hscan] at hnext
  cases happly : rules.flags.apply ⟨lexeme.kind, String.ofList lexeme.chars, cursor.nextPlace⟩ with
  | some token =>
    rw [happly] at hnext
    let behind : Tokenizer :=
      { t with cursor := some (cursor.skip lexeme.chars.length), lastKind := some token.kind }
    have hbehind : behind.Faces rules (cursor.skip lexeme.chars.length) :=
      ⟨h.rules_eq, rfl, h.lookahead_eq, fun heof =>
        Flags.kind_ne_eof_of_apply hkind happly (Option.some.inj heof)⟩
    exact ⟨behind, hbehind, Source.result_of_token hnext⟩
  | none =>
    rw [happly] at hnext
    let behind : Tokenizer := { t with cursor := some (cursor.skip lexeme.chars.length) }
    have hbehind : behind.Faces rules (cursor.skip lexeme.chars.length) :=
      ⟨h.rules_eq, rfl, h.lookahead_eq, h.lastKind_ne⟩
    refine ⟨behind, hbehind, ?_⟩
    have hsame : Source.next t = Source.next behind := hnext.trans hbehind.next_eq.symm
    rw [Source.result_congr hsame]
    cases (Source.drain behind).result <;> rfl

/-- What is in front of a tokenizer is drained as the raw tokens with what the flags make of
them. -/
theorem Faces.result_drain (hlacks : rules.LacksEof) (h : t.Faces rules cursor) :
    (Source.drain t).result = (rules.divide cursor).map rules.flags.afterwards := by
  induction cursor using Rules.divide.induct rules generalizing t with
  | case1 cursor hahead =>
    rw [h.result_at_end hahead, Rules.divide_of_end hahead]
    rfl
  | case2 cursor c rest hahead fault hscan =>
    rw [h.result_at_fault hahead hscan, Rules.divide_of_fault hahead hscan]
    rfl
  | case3 cursor c rest hahead lexeme hscan ih =>
    have hkind := (hlacks.of_scan hscan).2
    obtain ⟨t', ht', hresult⟩ := h.result_at_token hahead hscan hkind
    rw [hresult, ih ht', Rules.divide_of_scan hahead hscan]
    cases rules.divide (cursor.skip lexeme.chars.length) with
    | error e => rfl
    | ok tokens => exact congrArg Except.ok (Flags.afterwards_cons hkind tokens).symm

/-- A text is divided as the states divide it, and then the flags work on the tokens. -/
theorem result_tokenize (h : t.rules.LacksEof) (text : String) : (t.tokenize text).result =
    (t.rules.divide (Cursor.ofText text)).map t.rules.flags.afterwards := by
  have hfaces : (t.start (Cursor.ofText text)).Faces t.rules (Cursor.ofText text) :=
    ⟨rfl, rfl, rfl, by rintro ⟨⟩⟩
  exact hfaces.result_drain h

def withFlags (t : Tokenizer) (flags : Flags) : Tokenizer :=
  { t with rules := { t.rules with flags := flags } }

theorem result_tokenize_withFlags (h : t.rules.LacksEof) (flags : Flags) (text : String) :
    ((t.withFlags flags).tokenize text).result =
      (t.rules.divide (Cursor.ofText text)).map flags.afterwards := by
  have hlacks : (t.withFlags flags).rules.LacksEof := ⟨h.slot, h.routed⟩
  rw [result_tokenize hlacks, withFlags, Rules.divide_flags]

/-- Without flags, the tokens are those that the states divide a text into. -/
theorem result_tokenize_none (h : t.rules.LacksEof) (text : String) :
    ((t.withFlags .none).tokenize text).result = t.rules.divide (Cursor.ofText text) := by
  rw [result_tokenize_withFlags h]
  cases t.rules.divide (Cursor.ofText text) with
  | error e => rfl
  | ok raw => exact congrArg Except.ok (Flags.afterwards_none raw)

end Tokenizer

/-- Raw tokens make up the text. -/
theorem Rules.LacksEof.divides {rules : Rules} (h : rules.LacksEof) {text : String}
    {raw : List Token} (hraw : rules.divide (Cursor.ofText text) = .ok raw) :
    Divides (Cursor.ofText text) raw := by
  let t : Tokenizer := .ofRules rules
  have hlossless : (t.withFlags .none).rules.Lossless := ⟨⟨h.slot, h.routed⟩, fun _ _ => rfl⟩
  have hresult : ((t.withFlags .none).tokenize text).result = .ok raw :=
    (Tokenizer.result_tokenize_none h text).trans hraw
  exact Tokenizer.divides_tokenize hlossless hresult

/-- Under any flags, a tokenizer divides a text as it does under none, and then the flags leave out
and change tokens; it fails exactly where it fails under none, with the same error. -/
theorem tokenize_withFlags (t : Tokenizer) (h : t.rules.LacksEof) (flags : Flags) (text : String) :
    ((t.withFlags flags).tokenize text).result =
      ((t.withFlags .none).tokenize text).result.map flags.afterwards := by
  rw [Tokenizer.result_tokenize_withFlags h, Tokenizer.result_tokenize_withFlags h]
  cases t.rules.divide (Cursor.ofText text) with
  | error e => rfl
  | ok raw =>
    have hraw : flags.afterwards (Flags.none.afterwards raw) = flags.afterwards raw := by
      rw [Flags.afterwards_none]
    exact congrArg Except.ok hraw.symm

/-- A number and a string with a space between them, for a reader that wants neither the space nor
the end. -/
theorem tokenize_withFlags_number_string :
    let t : Tokenizer := .ofRules Expr.lexicon
    let flags : Flags := .ofList [.skipWhitespaces, .skipEof, .unifyNumbers, .decodeStrings]
    t.rules.LacksEof ∧
      ((t.withFlags .none).tokenize "1 'a'").result = .ok [⟨.integer, "1", ⟨1, 1⟩⟩,
        ⟨.whitespace, " ", ⟨1, 2⟩⟩, ⟨.quoted, "'a'", ⟨1, 3⟩⟩, ⟨.eof, "", ⟨1, 6⟩⟩] ∧
      ((t.withFlags flags).tokenize "1 'a'").result =
        .ok [⟨.number, "1", ⟨1, 1⟩⟩, ⟨.quoted, "a", ⟨1, 3⟩⟩] := by
  intro t flags
  have hlacks : t.rules.LacksEof := Expr.lacksEof_lexicon
  have hnumber : t.rules.scan '1' " 'a'".toList = .ok ⟨.integer, ['1']⟩ := rfl
  have hspace : t.rules.scan ' ' "'a'".toList = .ok ⟨.whitespace, [' ']⟩ := rfl
  have hstring : t.rules.scan '\x27' "a'".toList = .ok ⟨.quoted, "'a'".toList⟩ := rfl
  have hplain : ((t.withFlags .none).tokenize "1 'a'").result = .ok [⟨.integer, "1", ⟨1, 1⟩⟩,
      ⟨.whitespace, " ", ⟨1, 2⟩⟩, ⟨.quoted, "'a'", ⟨1, 3⟩⟩, ⟨.eof, "", ⟨1, 6⟩⟩] := by
    rw [Tokenizer.result_tokenize_withFlags hlacks, Rules.divide_of_scan rfl hnumber,
      Rules.divide_of_scan rfl hspace, Rules.divide_of_scan rfl hstring, Rules.divide_of_end rfl]
    rfl
  refine ⟨hlacks, hplain, ?_⟩
  rw [tokenize_withFlags t hlacks flags, hplain]
  exact congrArg Except.ok (by decide +kernel)

end Formulary
