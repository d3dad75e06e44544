import Formulary.Proofs.Expr.Alike
import Formulary.Proofs.Expr.Lexing
import Formulary.Proofs.Lex.Casing
import Formulary.Proofs.Registry.Listing

/-!
# The case of letters does not matter

A text in which letters of ASCII change their case, but not those in strings, is divided into tokens
of the same kinds at the same places. Reserved words, exponent marks and the names of variables and
functions are looked up without regard to case. So both texts are the same program up to the
spelling of names, with the same value in every environment, or they fail alike.
-/

namespace Formulary

/-- The case of letters in names is overlooked, places are not. -/
def Blur.caseless : Blur where
  spell name := String.ofList (name.toList.map Char.toLower)
  move := id
  spell_spell name := by rw [String.toList_ofList, map_toLower_map_toLower]
  move_move _ := rfl
  equal_spell name := by
    rw [String.toList_ofList, Text.equalIgnoringCase, map_toLower_map_toLower]
    exact beq_self_eq_true _

/-- Names are found in every environment whatever the case of their letters is. -/
theorem Environment.overlooks_caseless (env : Environment) : env.Overlooks Blur.caseless where
  vars name := Variables.get?_congr (Text.lowercase_ofList_map_toLower name)
  functions name := Registry.find?_congr (Text.lowercase_ofList_map_toLower name)

namespace Expr

/-! The rules of expressions -/

theorem isLetter_of_isAlpha {c : Char} (h : c.isAlpha = true) : isLetter c = true :=
  isLetter_iff.mpr (.inl (isAlpha_iff.mp h))

theorem route_of_isAlpha {c : Char} (h : c.isAlpha = true) :
    lexicon.routes.get? c = some (.word wordRule) := by
  rw [route_eq, stateOf_of_letter (isLetter_of_isAlpha h)]

theorem nameChars_of_isAlpha {c : Char} (h : c.isAlpha = true) : nameChars.holds c = true := by
  rw [holds_nameChars, isLetter_of_isAlpha h, Bool.true_or]

theorem not_blank_of_isAlpha {c : Char} (h : c.isAlpha = true) :
    CharMap.controlsAndSpace.holds c = false := by
  have hcode := isAlpha_iff.mp h
  rw [holds_blank, Bool.eq_false_iff, Ne, isBlank_iff]
  omega

/-- The rules of expressions treat the two cases of a letter alike. -/
theorem ignoresCase_lexicon : lexicon.IgnoresCase where
  routes := toLower_congr (lexicon.routes.get? ·) fun _ => route_of_isAlpha
  slot := by
    rintro tree ⟨⟩
    rfl
  states c state hroute := by
    cases leads_of_route hroute with
    | comment => trivial
    | quote hc => rcases hc with rfl | rfl <;> rfl
    | number => trivial
    | word => exact toLower_congr nameChars.holds fun _ => nameChars_of_isAlpha
    | whitespace => exact toLower_congr CharMap.controlsAndSpace.holds fun _ => not_blank_of_isAlpha
    | symbol => rfl

/-! Texts in other cases -/

/-- A text with the letters of another one in any case, but with the same strings: each quoted
string stands as it is behind as many characters as in the other text. Nothing is a string in a text
that is not divided into tokens. -/
structure Recased (text other : String) : Prop where
  letters : Text.equalIgnoringCase text.toList other.toList = true
  strings : ∀ before token after,
    ((tokenizer.withFlags .none).tokenize text).result = .ok (before ++ token :: after) →
    token.kind = .quoted →
      token.text.toList <+: other.toList.drop (String.join (before.map (·.text))).length

theorem length_lower (token : Token) : token.lower.text.length = token.text.length := by
  rw [Token.lower, String.length_ofList, List.length_map, String.length_toList]

theorem length_join_of_lower {tokens others : List Token}
    (h : tokens.map Token.lower = others.map Token.lower) :
    (String.join (tokens.map (·.text))).length = (String.join (others.map (·.text))).length := by
  have hlength (tokens : List Token) : (String.join (tokens.map (·.text))).length =
      ((tokens.map Token.lower).map (·.text.length)).sum := by
    rw [String.length_join, List.map_map, List.map_map]
    refine congrArg List.sum (List.map_congr_left fun token _ => ?_)
    rw [Function.comp_apply, Function.comp_apply, length_lower]
  rw [hlength, hlength, h]

/-- Tokens in other cases look alike if the strings among them are the same. -/
theorem seen_of_lower {token other : Token} (h : token.lower = other.lower)
    (hstring : token.kind = .quoted → token.text = other.text) :
    Blur.caseless.seen token = Blur.caseless.seen other := by
  obtain ⟨kind, text, place⟩ := token
  obtain ⟨kind', text', place'⟩ := other
  obtain ⟨rfl, hspelling, rfl⟩ := Token.mk.inj h
  by_cases hkind : kind = .quoted
  · obtain rfl : text = text' := hstring hkind
    rfl
  · rw [Blur.seen, Blur.seen, if_neg hkind, if_neg hkind]
    exact congrArg (Token.mk kind · _) hspelling

/-- Every token of the one text looks like the token in its place in the other. -/
theorem Recased.seen_raw {text other : String} (h : Recased text other) {raw raw' : List Token}
    (hraw : lexicon.divide (Cursor.ofText text) = .ok raw)
    (hraw' : lexicon.divide (Cursor.ofText other) = .ok raw')
    (hlower : raw.map Token.lower = raw'.map Token.lower) :
    raw.map Blur.caseless.seen = raw'.map Blur.caseless.seen := by
  have hresult : ((tokenizer.withFlags .none).tokenize text).result = .ok raw :=
    (Tokenizer.result_tokenize_none lacksEof_lexicon text).trans hraw
  have hdivides : Divides (Cursor.ofText other) raw' := lacksEof_lexicon.divides hraw'
  have hsplit (tokens : List Token) (i : ℕ) (hi : i < tokens.length) :
      tokens = tokens.take i ++ tokens[i] :: tokens.drop (i + 1) := by
    rw [← List.drop_eq_getElem_cons hi, List.take_append_drop]
  have hlength : raw.length = raw'.length := by
    simpa only [List.length_map] using congrArg List.length hlower
  refine List.ext_getElem (by rw [List.length_map, List.length_map, hlength]) fun i hi hi' => ?_
  rw [List.length_map] at hi hi'
  rw [List.getElem_map, List.getElem_map]
  have htoken : raw[i].lower = raw'[i].lower := by
    have hsame := congrArg (·[i]?) hlower
    simpa [hi, hi'] using hsame
  refine seen_of_lower htoken fun hquoted => ?_
  have hbefore : (raw.take i).map Token.lower = (raw'.take i).map Token.lower := by
    rw [List.map_take, List.map_take, hlower]
  have hstring := h.strings (raw.take i) raw[i] (raw.drop (i + 1))
    (hresult.trans (congrArg Except.ok (hsplit raw i hi))) hquoted
  have hstring' := hdivides.fronts (hsplit raw' i hi')
  rw [length_join_of_lower hbefore] at hstring
  have hsize : raw[i].text.toList.length = raw'[i].text.toList.length := by
    rw [String.length_toList, String.length_toList, ← length_lower, htoken, length_lower]
  have hbegins := List.prefix_of_prefix_length_le hstring hstring' hsize.le
  exact String.toList_inj.mp (hbegins.eq_of_length hsize)

/-- Texts that differ in the case of letters outside of strings are divided into tokens of which the
same is seen. -/
theorem Recased.divide {text other : String} (h : Recased text other) :
    (lexicon.divide (Cursor.ofText text)).map
        (fun raw => (raw.filter Token.visible).map Blur.caseless.seen) =
      (lexicon.divide (Cursor.ofText other)).map
        fun raw => (raw.filter Token.visible).map Blur.caseless.seen := by
  have hcursor : (Cursor.ofText text).lower = (Cursor.ofText other).lower :=
    congrArg (Cursor.mk []) (Text.map_toLower_of_equal h.letters)
  have hdivide : (lexicon.divide (Cursor.ofText text)).map (List.map Token.lower) =
      (lexicon.divide (Cursor.ofText other)).map (List.map Token.lower) := by
    rw [← ignoresCase_lexicon.divide_lower, ← ignoresCase_lexicon.divide_lower, hcursor]
  rcases of_map_eq hdivide with ⟨raw, raw', hraw, hraw', hlower⟩ | ⟨e, hraw, hraw'⟩
  · have hseen (tokens : List Token) : (tokens.filter Token.visible).map Blur.caseless.seen =
        (tokens.map Blur.caseless.seen).filter Token.visible := by
      rw [List.filter_map]
      rfl
    rw [hraw, hraw']
    refine congrArg Except.ok ?_
    dsimp only
    rw [hseen, hseen, h.seen_raw hraw hraw' hlower]
  · rw [hraw, hraw']

/-- Changing the case of letters outside of strings changes nothing but the spelling of names, in
the program and in errors that quote them, and the value is the same in every environment. -/
theorem read_recased {text other : String} (h : Recased text other) :
    Blur.caseless.result Blur.caseless.program ((Formula.read text).map Formula.program) =
        Blur.caseless.result Blur.caseless.program ((Formula.read other).map Formula.program) ∧
      ∀ f f', Formula.read text = .ok f → Formula.read other = .ok f' → ∀ env,
        (f.evaluate env).mapError Blur.caseless.error =
          (f'.evaluate env).mapError Blur.caseless.error := by
  have hread := Formula.read_congr_of_divide h.divide
  refine ⟨hread, fun f f' hf hf' env => ?_⟩
  rw [hf, hf'] at hread
  have hprogram : Blur.caseless.program f.program = Blur.caseless.program f'.program :=
    Except.ok.inj hread
  have henv := env.overlooks_caseless
  rw [Formula.evaluate, Formula.evaluate, ← Program.evaluate_blur henv, hprogram,
    Program.evaluate_blur henv]

/-- Names, a reserved word and a call by the name of the empty value, around a string. -/
theorem read_recased_around_string :
    Recased "x+'A' And F(Null(1e2))" "X+'A' aNd f(nULL(1E2))" ∧
      Blur.caseless.result Blur.caseless.program
          ((Formula.read "x+'A' And F(Null(1e2))").map Formula.program) =
        Blur.caseless.result Blur.caseless.program
          ((Formula.read "X+'A' aNd f(nULL(1E2))").map Formula.program) := by
  let raw : List Token := [⟨.word, "x", ⟨1, 1⟩⟩, ⟨.symbol, "+", ⟨1, 2⟩⟩, ⟨.quoted, "'A'", ⟨1, 3⟩⟩,
    ⟨.whitespace, " ", ⟨1, 6⟩⟩, ⟨.keyword, "And", ⟨1, 7⟩⟩, ⟨.whitespace, " ", ⟨1, 10⟩⟩,
    ⟨.word, "F", ⟨1, 11⟩⟩, ⟨.symbol, "(", ⟨1, 12⟩⟩, ⟨.keyword, "Null", ⟨1, 13⟩⟩,
    ⟨.symbol, "(", ⟨1, 17⟩⟩, ⟨.float, "1e2", ⟨1, 18⟩⟩, ⟨.symbol, ")", ⟨1, 21⟩⟩,
    ⟨.symbol, ")", ⟨1, 22⟩⟩, ⟨.eof, "", ⟨1, 23⟩⟩]
  have hfound : ((tokenizer.withFlags .none).tokenize
      "x+'A' And F(Null(1e2))").result.toOption = some raw := by
    decide +kernel
  have hstrings : ∀ i < raw.length, ∀ token ∈ raw[i]?, token.kind = .quoted →
      token.text.toList <+: "X+'A' aNd f(nULL(1E2))".toList.drop
        (String.join ((raw.take i).map (·.text))).length := by
    decide +kernel
  have hrecased : Recased "x+'A' And F(Null(1e2))" "X+'A' aNd f(nULL(1E2))" := by
    refine ⟨by decide +kernel, fun before token after hresult hquoted => ?_⟩
    rw [hresult] at hfound
    rw [← Option.some.inj hfound] at hstrings
    have hstring := hstrings before.length (by simp) token (by simp) hquoted
    rwa [List.take_left] at hstring
  exact ⟨hrecased, (read_recased hrecased).1⟩

end Expr

end Formulary
