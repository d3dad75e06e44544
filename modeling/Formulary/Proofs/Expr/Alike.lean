import Formulary.Proofs.Expr.Blurring
import Formulary.Proofs.Lex.Polishing
import Formulary.Proofs.Text.Casing

/-!
# Texts that read alike

What is overlooked in the tokens of two texts is overlooked in what the texts read as: if the tokens
are the same otherwise, both texts are programs that are the same otherwise, or both are rejected
with the same error. A string is never overlooked, since it is a value.
-/

namespace Formulary

namespace Blur

def seen (g : Blur) (token : Token) : Token :=
  ⟨token.kind, if token.kind = .quoted then token.text else g.spell token.text,
    g.move token.position⟩

def result {α β : Type} (g : Blur) (f : α → β) (x : Except Error α) : Except Error β :=
  (x.map f).mapError g.error

variable {g : Blur} {α β γ δ : Type}

/-- Results that look alike go on alike. -/
theorem result_bind_congr {f : α → β} {f' : γ → δ} {x y : Except Error α}
    {k k' : α → Except Error γ} (h : g.result f x = g.result f y)
    (hk : ∀ a b, f a = f b → g.result f' (k a) = g.result f' (k' b)) :
    g.result f' (x.bind k) = g.result f' (y.bind k') := by
  rcases of_map_mapError_eq h with ⟨a, b, rfl, rfl, hsame⟩ | ⟨e, e', rfl, rfl, hsame⟩
  · exact hk a b hsame
  · exact congrArg Except.error hsame

theorem equal_seen (token : Token) :
    Text.equalIgnoringCase (g.seen token).text.toList token.text.toList = true := by
  rw [seen]
  dsimp only
  split
  · exact Text.equalIgnoringCase_refl _
  · exact g.equal_spell token.text

theorem token_move (sign : Sign) (p : Position) : g.token ⟨sign, g.move p⟩ = g.token ⟨sign, p⟩ := by
  cases sign <;> simp only [token, g.move_move]

end Blur

/-- Whether a token is neither whitespace nor a comment. -/
def Token.visible (token : Token) : Bool := token.kind != .whitespace && token.kind != .comment

theorem Blur.seen_decoded {g : Blur} (token : Token) :
    g.seen token.decoded = (g.seen token).decoded := by
  obtain ⟨kind, text, p⟩ := token
  cases kind <;> rfl

/-! The meanings of tokens -/

namespace Sign

variable {g : Blur}

theorem readInt?_congr {s t : List Char} (h : Text.equalIgnoringCase s t = true) :
    readInt? s = readInt? t := by
  rw [← readInt?_map_toLower s, Text.map_toLower_of_equal h, readInt?_map_toLower]

theorem wholeNumber_congr {s t : List Char} (h : Text.equalIgnoringCase s t = true) :
    wholeNumber s = wholeNumber t := by
  unfold wholeNumber readInt32? readInt64?
  rw [readInt?_congr h]

theorem decimal_congr {s t : List Char} (h : Text.equalIgnoringCase s t = true) :
    decimal s = decimal t := by
  unfold decimal readDouble?
  rw [← Numeral.read?_map_toLower s, Text.map_toLower_of_equal h, Numeral.read?_map_toLower]

theorem unknown_seen {α : Type} {token : Token} (h : token.kind ≠ .quoted) (f : Sign → α) :
    g.result f (unknown (g.seen token)) = g.result f (unknown token) := by
  show Except.error (g.error _) = Except.error (g.error _)
  simp only [Blur.seen, if_neg h, Blur.error, Blur.fault, g.spell_spell, g.move_move]

theorem orUnknown_seen {α : Type} {token : Token} (h : token.kind ≠ .quoted) (f : Sign → α)
    (meaning : Option (String × Sign)) :
    g.result f (orUnknown (g.seen token) meaning) = g.result f (orUnknown token meaning) := by
  cases meaning with
  | some found => rfl
  | none => exact unknown_seen h f

theorem ofNumber_seen {α : Type} {token : Token} (h : token.kind ≠ .quoted) (f : Sign → α)
    (value : Option Value) :
    g.result f (ofNumber (g.seen token) value) = g.result f (ofNumber token value) := by
  cases value with
  | some v => rfl
  | none =>
    show Except.error (g.error _) = Except.error (g.error _)
    simp only [Blur.seen, if_neg h, Blur.error, Blur.lexError, g.spell_spell, g.move_move]

/-- Symbols have no letters, so they have no other spelling. -/
theorem beq_symbol_congr {s t : String} (h : Text.equalIgnoringCase s.toList t.toList = true)
    {word : String} (hword : ∀ c ∈ word.toList, c.isAlpha = false) :
    (s == word) = (t == word) := by
  rw [Bool.eq_iff_iff, beq_iff_eq, beq_iff_eq, ← String.toList_inj, ← String.toList_inj,
    Text.eq_iff_of_equal h hword]

/-- What is seen of the meaning of a token, or of the error that it has none, depends on what is
seen of the token. -/
theorem ofToken_seen (token : Token) :
    g.result (fun sign => g.token ⟨sign, token.position⟩) (ofToken (g.seen token)) =
      g.result (fun sign => g.token ⟨sign, token.position⟩) (ofToken token) := by
  obtain ⟨kind, text, p⟩ := token
  have hequal := g.equal_spell text
  cases kind with
  | integer =>
    show g.result _ (ofNumber (g.seen ⟨.integer, text, p⟩) (wholeNumber (g.spell text).toList)) =
      g.result _ (ofNumber ⟨.integer, text, p⟩ (wholeNumber text.toList))
    rw [wholeNumber_congr hequal]
    exact ofNumber_seen TokenKind.noConfusion _ _
  | float =>
    show g.result _ (ofNumber (g.seen ⟨.float, text, p⟩) (decimal (g.spell text).toList)) =
      g.result _ (ofNumber ⟨.float, text, p⟩ (decimal text.toList))
    rw [decimal_congr hequal]
    exact ofNumber_seen TokenKind.noConfusion _ _
  | quoted => rfl
  | word =>
    refine congrArg Except.ok ?_
    show (⟨.name (g.spell (g.spell text)), g.move p⟩ : Placed Sign) = _
    rw [g.spell_spell]
    rfl
  | keyword =>
    have hfind : (ofKeyword.find? fun word =>
          Text.equalIgnoringCase word.1.toList (g.spell text).toList) =
        ofKeyword.find? fun word => Text.equalIgnoringCase word.1.toList text.toList :=
      congrArg ofKeyword.find? <| funext fun word =>
        Text.equalIgnoringCase_congr hequal word.1.toList
    have hseen : ofToken (g.seen ⟨.keyword, text, p⟩) =
        orUnknown (g.seen ⟨.keyword, text, p⟩) (ofKeyword.find? fun word =>
          Text.equalIgnoringCase word.1.toList text.toList) := congrArg (orUnknown _) hfind
    rw [hseen]
    exact orUnknown_seen TokenKind.noConfusion _ _
  | symbol =>
    have hletterless : ∀ word ∈ ofSymbol, ∀ c ∈ word.1.toList, c.isAlpha = false := by
      simp [ofSymbol]
    have hfind : ofSymbol.find? (·.1 == g.spell text) = ofSymbol.find? (·.1 == text) := by
      refine List.find?_congr fun word hword => ?_
      rw [Bool.beq_comm, beq_symbol_congr hequal (hletterless word hword), Bool.beq_comm]
    have hseen : ofToken (g.seen ⟨.symbol, text, p⟩) =
        orUnknown (g.seen ⟨.symbol, text, p⟩) (ofSymbol.find? (·.1 == text)) :=
      congrArg (orUnknown _) hfind
    rw [hseen]
    exact orUnknown_seen TokenKind.noConfusion _ _
  | _ => exact unknown_seen TokenKind.noConfusion _

theorem isNullWord_seen (token : Token) : isNullWord (g.seen token) = isNullWord token := by
  unfold isNullWord
  rw [Text.equalIgnoringCase_congr (Blur.equal_seen token)]
  rfl

theorem called_seen (rest : List Token) :
    (rest.map g.seen).head?.any (·.is .symbol "(") = rest.head?.any (·.is .symbol "(") := by
  cases rest with
  | nil => rfl
  | cons token rest =>
    have hsymbol : ((g.seen token).text == "(") = (token.text == "(") :=
      beq_symbol_congr (Blur.equal_seen token) (by simp)
    show (token.kind == TokenKind.symbol && _) = _
    rw [hsymbol]
    rfl

theorem ofTokenBefore_seen (token : Token) (rest : List Token) :
    g.result (fun sign => g.token ⟨sign, token.position⟩)
        (ofTokenBefore (g.seen token) (rest.map g.seen)) =
      g.result (fun sign => g.token ⟨sign, token.position⟩) (ofTokenBefore token rest) := by
  unfold ofTokenBefore
  rw [called_seen, isNullWord_seen]
  dsimp only
  split
  · next hnull =>
    have hkind : token.kind ≠ .quoted := by
      intro hquoted
      simp [isNullWord, hquoted] at hnull
    refine congrArg Except.ok ?_
    show g.token ⟨.name (g.seen token).text, token.position⟩ = _
    rw [Blur.seen, if_neg hkind]
    show (⟨.name (g.spell (g.spell token.text)), g.move token.position⟩ : Placed Sign) = _
    rw [g.spell_spell]
    rfl
  · exact ofToken_seen token

/-- What is overlooked in tokens is overlooked in what they mean. -/
theorem ofTokens_seen (tokens : List Token) :
    g.result (List.map g.token) (ofTokens (tokens.map g.seen)) =
      g.result (List.map g.token) (ofTokens tokens) := by
  induction tokens with
  | nil => rfl
  | cons token rest ih =>
    refine Blur.result_bind_congr (ofTokenBefore_seen token rest) fun sign sign' hsign => ?_
    refine Blur.result_bind_congr ih fun signs signs' hsigns => ?_
    show Except.ok (g.token ⟨sign, g.move token.position⟩ :: signs.map g.token) =
      Except.ok (g.token ⟨sign', token.position⟩ :: signs'.map g.token)
    rw [Blur.token_move, hsign, hsigns]

end Sign

/-! What tokens read as -/

namespace Blur

variable {g : Blur}

theorem position_token (token : Placed Sign) :
    (g.token token).position = g.move token.position := by
  obtain ⟨sign, p⟩ := token
  cases sign <;> rfl

/-- Readers that get stuck alike report the same error. -/
theorem error_stuck_congr {s s' : Stuck (Placed Sign)} {finish finish' : Position}
    (hstuck : g.stuck s = g.stuck s') (hfinish : g.move finish = g.move finish') :
    g.error (.parse (s.error Placed.position finish)) =
      g.error (.parse (s'.error Placed.position finish')) := by
  obtain ⟨hfault, hrest⟩ := Stuck.mk.inj hstuck
  have hplace (s : Stuck (Placed Sign)) (finish : Position) :
      g.move (s.error Placed.position finish).position =
        ((s.rest.map g.token).head?.map Placed.position).getD (g.move finish) := by
    rw [Stuck.error]
    cases s.rest with
    | nil => rfl
    | cons token rest => exact (position_token token).symm
  have hposition := hplace s finish
  rw [hrest, hfinish, ← hplace s' finish'] at hposition
  show Error.parse ⟨g.fault s.fault, _⟩ = Error.parse ⟨g.fault s'.fault, _⟩
  rw [hfault, hposition]

end Blur

namespace Formula

variable {g : Blur}

/-- The program that the tokens of a text, with the one for its end, make. -/
def programOf (tokens : List Token) : Except Error Program :=
  (Sign.ofTokens (splitEnd tokens).1).bind fun signs =>
    ((Expr.ofSigns signs).mapError fun s =>
      Error.parse (s.error Placed.position (splitEnd tokens).2)).map fun tree =>
        tree.elim [] Expr.program

/-- The program of a text is that of its tokens. -/
theorem read_map_program (text : String) :
    (read text).map program = (tokenize text).bind programOf := by
  unfold read programOf
  cases tokenize text with
  | error e => rfl
  | ok tokens =>
    show Except.map program ((Sign.ofTokens (splitEnd tokens).1).bind _) =
      (Sign.ofTokens (splitEnd tokens).1).bind _
    cases Sign.ofTokens (splitEnd tokens).1 with
    | error e => rfl
    | ok signs =>
      show Except.map program (((Expr.ofSigns signs).mapError _).bind _) =
        ((Expr.ofSigns signs).mapError _).map _
      cases Expr.ofSigns signs <;> rfl

theorem splitEnd_seen (tokens : List Token) :
    (splitEnd (tokens.map g.seen)).1 = (splitEnd tokens).1.map g.seen ∧
      g.move (splitEnd (tokens.map g.seen)).2 = g.move (splitEnd tokens).2 := by
  unfold splitEnd
  rw [List.getLast?_map]
  cases tokens.getLast? with
  | none => exact ⟨rfl, rfl⟩
  | some last =>
    refine ⟨?_, g.move_move last.position⟩
    show (if last.kind = .eof then (tokens.map g.seen).dropLast else tokens.map g.seen) = _
    rw [← List.map_dropLast]
    dsimp only
    split <;> rfl

/-- What is seen of the program of tokens, or of the error, depends on what is seen of the
tokens. -/
theorem programOf_seen (tokens : List Token) :
    g.result g.program (programOf (tokens.map g.seen)) = g.result g.program (programOf tokens) := by
  obtain ⟨hbody, hfinish⟩ := splitEnd_seen (g := g) tokens
  unfold programOf
  rw [hbody]
  refine Blur.result_bind_congr (Sign.ofTokens_seen _) fun signs signs' hsigns => ?_
  have hread : g.outcome (Option.map g.expr) (Expr.ofSigns signs) =
      g.outcome (Option.map g.expr) (Expr.ofSigns signs') := by
    rw [← Expr.ofSigns_blur, ← Expr.ofSigns_blur, hsigns]
  have hprogram (tree : Option Expr) : g.program (tree.elim [] Expr.program) =
      (tree.map g.expr).elim [] Expr.program := by
    cases tree with
    | none => rfl
    | some e => exact (Expr.program_blur e).symm
  rcases of_map_mapError_eq hread with
    ⟨tree, tree', htree, htree', hsame⟩ | ⟨s, s', hstuck, hstuck', hsame⟩
  · rw [htree, htree']
    refine congrArg Except.ok ?_
    rw [hprogram, hprogram, hsame]
  · rw [hstuck, hstuck']
    exact congrArg Except.error (Blur.error_stuck_congr hsame hfinish)

/-- Texts whose tokens look alike read alike. -/
theorem read_congr {text other : String}
    (h : g.result (List.map g.seen) (tokenize text) = g.result (List.map g.seen) (tokenize other)) :
    g.result g.program ((read text).map program) =
      g.result g.program ((read other).map program) := by
  rw [read_map_program, read_map_program]
  refine Blur.result_bind_congr h fun tokens tokens' hseen => ?_
  rw [← programOf_seen tokens, hseen, programOf_seen]

/-- The tokens of a text are the visible ones that the states divide it into, with strings
decoded. -/
theorem tokenize_eq (text : String) : tokenize text =
    ((Expr.lexicon.divide (Cursor.ofText text)).map fun raw =>
      (raw.filter Token.visible).map Token.decoded).mapError .lex := by
  let flags := Expr.lexicon.flags.set .skipEof false
  have hdivide := Tokenizer.result_tokenize_withFlags (t := .ofRules Expr.lexicon)
    Expr.lacksEof_lexicon flags text
  have hafterwards : flags.afterwards = fun raw =>
      (raw.filter Token.visible).map Token.decoded := by
    funext raw
    have hkept : (fun token : Token => !flags.skips token.kind) = Token.visible := by
      funext token
      obtain ⟨kind, text, p⟩ := token
      cases kind <;> rfl
    have hspaced : flags.change .mergeWhitespaces Token.spaced = id := rfl
    have hunified : flags.change .unifyNumbers Token.unified = id := rfl
    rw [Flags.afterwards, hkept, hspaced, hunified, List.map_id, List.map_id]
    rfl
  rw [hafterwards] at hdivide
  exact congrArg (Except.mapError Error.lex) hdivide

/-- Texts that are divided alike, as far as the tokens are visible, read alike. -/
theorem read_congr_of_divide {text other : String}
    (h : (Expr.lexicon.divide (Cursor.ofText text)).map
        (fun raw => (raw.filter Token.visible).map g.seen) =
      (Expr.lexicon.divide (Cursor.ofText other)).map
        fun raw => (raw.filter Token.visible).map g.seen) :
    g.result g.program ((read text).map program) =
      g.result g.program ((read other).map program) := by
  refine read_congr ?_
  have hseen (tokens : List Token) :
      (tokens.map Token.decoded).map g.seen = (tokens.map g.seen).map Token.decoded := by
    rw [List.map_map, List.map_map]
    exact List.map_congr_left fun token _ => Blur.seen_decoded token
  rw [tokenize_eq, tokenize_eq]
  rcases of_map_eq h with ⟨raw, raw', hraw, hraw', hsame⟩ | ⟨e, hraw, hraw'⟩
  · rw [hraw, hraw']
    refine congrArg Except.ok ?_
    rw [hseen, hseen, hsame]
  · rw [hraw, hraw']

end Formula

end Formulary
