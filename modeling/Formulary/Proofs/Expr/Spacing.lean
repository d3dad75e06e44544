import Formulary.Proofs.Expr.Alike
import Formulary.Proofs.Expr.Lexing

/-!
# Layout does not matter

The tokens of an expression, written with single spaces between them, are divided into the same
tokens: each of them stands in front of a space or at the end, and behind a space no whitespace goes
on. So the text and the text with its layout replaced are the same program up to places, or are
rejected for the same reason.
-/

namespace Formulary

/-- Places are overlooked, spellings are not. -/
def Blur.places : Blur where
  spell := id
  move _ := .first
  spell_spell _ := rfl
  move_move _ := rfl
  equal_spell name := Text.equalIgnoringCase_refl name.toList

/-- The texts of tokens with a single space between any two of them. -/
def Token.spacedOut (tokens : List Token) : String := " ".intercalate (tokens.map (·.text))

namespace Expr

/-- Whitespace, comments and the end are left out, and strings stay as they are written. -/
def bareFlags : Flags := .ofList [.skipWhitespaces, .skipComments, .skipEof]

def bare (token : Token) : Bool := token.visible && token.kind != .eof

/-- The bare tokens of a text are those of its raw tokens that the flags keep. -/
theorem result_bare (text : String) :
    ((tokenizer.withFlags bareFlags).tokenize text).result =
      (lexicon.divide (Cursor.ofText text)).map (List.filter bare) := by
  have hdivide := Tokenizer.result_tokenize_withFlags (t := tokenizer) lacksEof_lexicon bareFlags
    text
  have hafterwards : bareFlags.afterwards = List.filter bare := by
    funext raw
    have hkept : (fun token : Token => !bareFlags.skips token.kind) = bare := by
      funext token
      obtain ⟨kind, text, p⟩ := token
      cases kind <;> rfl
    have hspaced : bareFlags.change .mergeWhitespaces Token.spaced = id := rfl
    have hunified : bareFlags.change .unifyNumbers Token.unified = id := rfl
    have hdecoded : bareFlags.change .decodeStrings Token.decoded = id := rfl
    rw [Flags.afterwards, hkept, hspaced, hunified, hdecoded, List.map_id, List.map_id, List.map_id]
  rwa [hafterwards] at hdivide

/-! The tokens of the text as it is -/

/-- Raw tokens that make up bare ones, each of which stands apart, in front of the end. -/
structure Bares (raw tokens : List Token) : Prop where
  bare_eq : raw.filter bare = tokens
  visible_eq : ∃ place, raw.filter Token.visible = tokens ++ [⟨.eof, "", place⟩]
  stands : ∀ token ∈ tokens, Stands token.kind token.text.toList

theorem bares_end (place : Position) : Bares [⟨.eof, "", place⟩] [] :=
  ⟨rfl, ⟨place, rfl⟩, nofun⟩

theorem Bares.hide {raw tokens : List Token} {token : Token} (h : Bares raw tokens)
    (hhidden : token.visible = false) : Bares (token :: raw) tokens := by
  obtain ⟨hbare, ⟨place, hvisible⟩, hstands⟩ := h
  have hleft : bare token = false := by rw [bare, hhidden, Bool.false_and]
  refine ⟨?_, ⟨place, ?_⟩, hstands⟩
  · rw [List.filter_cons_of_neg (Bool.eq_false_iff.mp hleft), hbare]
  · rw [List.filter_cons_of_neg (Bool.eq_false_iff.mp hhidden), hvisible]

/-- A token that stands apart can be put in front. -/
theorem Bares.take {raw tokens : List Token} {token : Token} (h : Bares raw tokens)
    (htoken : Stands token.kind token.text.toList) : Bares (token :: raw) (token :: tokens) := by
  obtain ⟨hbare, ⟨place, hvisible⟩, hstands⟩ := h
  obtain ⟨hwhitespace, hcomment, heof⟩ := htoken.visible
  have hseen : token.visible = true := by simp [Token.visible, hwhitespace, hcomment]
  have hkept : bare token = true := by simp [bare, hseen, heof]
  refine ⟨?_, ⟨place, ?_⟩, List.forall_mem_cons.mpr ⟨htoken, hstands⟩⟩
  · rw [List.filter_cons_of_pos hkept, hbare]
  · rw [List.filter_cons_of_pos hseen, hvisible, List.cons_append]

/-- The tokens that a text is divided into stand apart, unless they are whitespace or comments. -/
theorem bares_of_divide {cursor : Cursor} {raw : List Token}
    (h : lexicon.divide cursor = .ok raw) : ∃ tokens, Bares raw tokens := by
  induction cursor using Rules.divide.induct lexicon generalizing raw with
  | case1 cursor hahead =>
    rw [Rules.divide_of_end hahead] at h
    cases h
    exact ⟨[], bares_end _⟩
  | case2 cursor c rest hahead fault hscan =>
    rw [Rules.divide_of_fault hahead hscan] at h
    cases h
  | case3 cursor c rest hahead lexeme hscan ih =>
    rw [Rules.divide_of_scan hahead hscan] at h
    obtain ⟨others, hothers, rfl⟩ := of_map_ok h
    obtain ⟨tokens, htokens⟩ := ih hothers
    by_cases hkinds : lexeme.kind ≠ .whitespace ∧ lexeme.kind ≠ .comment
    · have hstands := stands_of_scan hscan hkinds.1 hkinds.2
      rw [← String.toList_ofList (l := lexeme.chars)] at hstands
      exact ⟨_, htokens.take hstands⟩
    · have hhidden : (lexeme.kind != .whitespace && lexeme.kind != .comment) = false := by
        simpa [Decidable.imp_iff_not_or] using hkinds
      exact ⟨_, htokens.hide hhidden⟩

/-! The tokens of the text that is spaced out -/

/-- A token that stands apart is read in front of a space or at the end. -/
theorem divide_of_stands {cursor : Cursor} {token : Token} {after : List Char}
    (h : Stands token.kind token.text.toList) (hafter : SpaceAhead after)
    (hahead : cursor.ahead = token.text.toList ++ after) :
    ∃ place, lexicon.divide cursor =
      (lexicon.divide (cursor.skip token.text.toList.length)).map
        (⟨token.kind, token.text, place⟩ :: ·) := by
  obtain ⟨c, rest, hchars, -, hscan⟩ := h.scan
  rw [hchars, List.cons_append] at hahead
  have hdivide := Rules.divide_of_scan hahead (hscan after hafter)
  rw [String.ofList_toList] at hdivide
  exact ⟨_, hdivide⟩

/-- A space in front of a token is whitespace by itself. -/
theorem divide_of_space {cursor : Cursor} {c : Char} {rest : List Char}
    (hc : CharMap.controlsAndSpace.holds c = false) (hahead : cursor.ahead = ' ' :: c :: rest) :
    ∃ place, lexicon.divide cursor =
      (lexicon.divide (cursor.skip 1)).map (⟨.whitespace, " ", place⟩ :: ·) := by
  have hscan : lexicon.scan ' ' (c :: rest) = .ok ⟨.whitespace, [' ']⟩ := by
    rw [scan_iff (route_of_blank rfl)]
    show Except.ok (Lexeme.mk .whitespace (' ' :: (c :: rest).takeWhile _)) = _
    rw [List.takeWhile_cons, hc]
    rfl
  exact ⟨_, Rules.divide_of_scan hahead hscan⟩

theorem exists_head_spacedOut {token : Token} (h : Stands token.kind token.text.toList)
    (rest : List Token) : ∃ c more, CharMap.controlsAndSpace.holds c = false ∧
      [' '].intercalate ((token :: rest).map (·.text.toList)) = c :: more := by
  obtain ⟨c, chars, hchars, hc, -⟩ := h.scan
  cases rest with
  | nil =>
    rw [List.map_cons, List.map_nil, List.intercalate_singleton]
    exact ⟨c, chars, hc, hchars⟩
  | cons next others =>
    rw [List.map_cons, List.map_cons, List.intercalate_cons_cons, hchars]
    exact ⟨c, _, hc, rfl⟩

/-- Tokens that stand apart are found again when they are spaced out. -/
theorem divide_spacedOut {tokens : List Token}
    (h : ∀ token ∈ tokens, Stands token.kind token.text.toList) {cursor : Cursor}
    (hahead : cursor.ahead = [' '].intercalate (tokens.map (·.text.toList))) :
    ∃ raw again, lexicon.divide cursor = .ok raw ∧ Bares raw again ∧
      again.map Token.content = tokens.map Token.content := by
  induction tokens generalizing cursor with
  | nil => exact ⟨_, [], Rules.divide_of_end hahead, bares_end _, rfl⟩
  | cons token rest ih =>
    obtain ⟨htoken, hrest⟩ := List.forall_mem_cons.mp h
    have hfirst (place : Position) {raw again : List Token} (hbares : Bares raw again)
        (hagain : again.map Token.content = rest.map Token.content) :
        Bares (⟨token.kind, token.text, place⟩ :: raw)
          (⟨token.kind, token.text, place⟩ :: again) ∧
        (⟨token.kind, token.text, place⟩ :: again).map Token.content =
          (token :: rest).map Token.content :=
      ⟨hbares.take htoken, congrArg (token.content :: ·) hagain⟩
    cases rest with
    | nil =>
      have hlast : cursor.ahead = token.text.toList ++ [] := by
        rw [hahead, List.append_nil]
        exact List.intercalate_singleton
      obtain ⟨place, hdivide⟩ := divide_of_stands htoken spaceAhead_nil hlast
      have hbehind : (cursor.skip token.text.toList.length).ahead = [] := by
        rw [Cursor.ahead_skip, hlast, List.drop_left]
      obtain ⟨raw, again, hraw, hbares, hagain⟩ := ih hrest hbehind
      rw [hraw] at hdivide
      exact ⟨_, _, hdivide, hfirst place hbares hagain⟩
    | cons next others =>
      let tail := [' '].intercalate ((next :: others).map (·.text.toList))
      have hspace : cursor.ahead = token.text.toList ++ ' ' :: tail := by
        rw [hahead, List.map_cons, List.map_cons, List.intercalate_cons_cons, List.append_assoc]
        rfl
      obtain ⟨place, hdivide⟩ := divide_of_stands htoken (spaceAhead_cons tail) hspace
      have hbehind : (cursor.skip token.text.toList.length).ahead = ' ' :: tail := by
        rw [Cursor.ahead_skip, hspace, List.drop_left]
      obtain ⟨c, more, hc, hhead⟩ :=
        exists_head_spacedOut (hrest next List.mem_cons_self) others
      have htail : tail = c :: more := hhead
      rw [htail] at hbehind
      obtain ⟨blank, hblank⟩ := divide_of_space hc hbehind
      have hnext : ((cursor.skip token.text.toList.length).skip 1).ahead = tail := by
        rw [Cursor.ahead_skip, hbehind, htail]
        rfl
      obtain ⟨raw, again, hraw, hbares, hagain⟩ := ih hrest hnext
      rw [hblank, hraw] at hdivide
      exact ⟨_, _, hdivide, hfirst place (hbares.hide rfl) hagain⟩

/-! Both texts -/

theorem toList_spacedOut (tokens : List Token) :
    (Token.spacedOut tokens).toList = [' '].intercalate (tokens.map (·.text.toList)) := by
  rw [Token.spacedOut, String.toList_intercalate, List.map_map]
  rfl

/-- Raw tokens with the same contents look alike when places are overlooked. -/
theorem seen_congr {tokens others : List Token}
    (h : tokens.map Token.content = others.map Token.content) :
    tokens.map Blur.places.seen = others.map Blur.places.seen := by
  have hseen : Blur.places.seen =
      (fun content : TokenKind × String => ⟨content.1, content.2, .first⟩) ∘ Token.content := by
    funext token
    show (⟨token.kind, if token.kind = .quoted then token.text else token.text, .first⟩ : Token) = _
    rw [ite_self]
    rfl
  rw [hseen, ← List.map_map, ← List.map_map, h]

/-- Whatever tokens a text has, spacing them out changes nothing but places: the text that they make
has the same tokens, and it is the same program or is rejected with the same error. -/
theorem read_spacedOut {text : String} {tokens : List Token}
    (h : ((tokenizer.withFlags bareFlags).tokenize text).result = .ok tokens) :
    (∃ again, ((tokenizer.withFlags bareFlags).tokenize (Token.spacedOut tokens)).result =
        .ok again ∧ again.map Token.content = tokens.map Token.content) ∧
      Blur.places.result Blur.places.program ((Formula.read text).map Formula.program) =
        Blur.places.result Blur.places.program
          ((Formula.read (Token.spacedOut tokens)).map Formula.program) := by
  rw [result_bare] at h
  obtain ⟨raw, hraw, hkept⟩ := of_map_ok h
  obtain ⟨others, hothers⟩ := bares_of_divide hraw
  obtain rfl : others = tokens := hothers.bare_eq.symm.trans hkept
  have hahead : (Cursor.ofText (Token.spacedOut others)).ahead = _ := toList_spacedOut others
  obtain ⟨raw', again, hraw', hbares, hagain⟩ := divide_spacedOut hothers.stands hahead
  refine ⟨⟨again, ?_, hagain⟩, Formula.read_congr_of_divide ?_⟩
  · rw [result_bare, hraw']
    exact congrArg Except.ok hbares.bare_eq
  · obtain ⟨place, hvisible⟩ := hothers.visible_eq
    obtain ⟨place', hvisible'⟩ := hbares.visible_eq
    rw [hraw, hraw']
    refine congrArg Except.ok (seen_congr ?_)
    rw [hvisible, hvisible', List.map_append, List.map_append, hagain]
    rfl

/-- A number, a comment in the place of a space, and a sign that a point follows. -/
theorem read_spacedOut_comment :
    let tokens : List Token := [⟨.float, "1.5e2", ⟨1, 1⟩⟩, ⟨.symbol, "<=", ⟨1, 6⟩⟩,
      ⟨.word, "x", ⟨1, 8⟩⟩, ⟨.symbol, "-", ⟨1, 13⟩⟩, ⟨.float, ".5", ⟨1, 14⟩⟩]
    ((tokenizer.withFlags bareFlags).tokenize "1.5e2<=x/**/-.5").result = .ok tokens ∧
      Token.spacedOut tokens = "1.5e2 <= x - .5" ∧
      Blur.places.result Blur.places.program
          ((Formula.read "1.5e2<=x/**/-.5").map Formula.program) =
        Blur.places.result Blur.places.program
          ((Formula.read "1.5e2 <= x - .5").map Formula.program) := by
  intro tokens
  have hresult : ((tokenizer.withFlags bareFlags).tokenize "1.5e2<=x/**/-.5").result =
      .ok tokens :=
    ok_of_toOption (by decide +kernel)
  have hspaced : Token.spacedOut tokens = "1.5e2 <= x - .5" := by decide +kernel
  refine ⟨hresult, hspaced, ?_⟩
  rw [← hspaced]
  exact (read_spacedOut hresult).2

end Expr

end Formulary
