import Formulary.Proofs.Calculator.History
import Formulary.Proofs.Expr.Alike
import Formulary.Proofs.Expr.Balance
import Formulary.Proofs.Expr.Lexing
import Formulary.Proofs.Lex.Quoting

/-!
# Literals of strings

A string in quotes is an expression, and its value is the string: it is one token, which means a
constant, and nothing follows it. The rules of expressions and those for free text read strings
alike.
-/

namespace Formulary

/-- The rules of expressions read strings, whatever the flags are. -/
theorem Expr.readsStrings_lexicon (flags : Flags) :
    Rules.ReadsStrings { lexicon with flags := flags } where
  slot := by
    rintro tree ⟨⟩
    exact SymbolTree.not_mem_kinds_ofList TokenKind.noConfusion operators
  routed := by
    refine Rules.forall_ranges_routeAll (P := State.LacksQuoted) ?_ ?_
    · simp [Rules.empty, CharMap.ranges_empty]
    · simp [State.LacksQuoted, SymbolTree.not_mem_kinds_ofList]
  routes := by
    intro quote hquote
    rcases Quoted.mem_quotes.mp hquote with rfl | rfl <;> rfl

/-- The rules for free text read strings, whatever the flags are. -/
theorem Rules.readsStrings_general (flags : Flags) :
    ReadsStrings { general with flags := flags } where
  slot := by
    rintro tree ⟨⟩
    exact SymbolTree.not_mem_kinds_ofList TokenKind.noConfusion _
  routed := by
    refine forall_ranges_routeAll (P := State.LacksQuoted) ?_ ?_
    · simp [empty, CharMap.ranges_empty]
    · simp [State.LacksQuoted, SymbolTree.not_mem_kinds_ofList]
  routes := by
    intro quote hquote
    rcases Quoted.mem_quotes.mp hquote with rfl | rfl <;> rfl

/-! The formula of a literal -/

namespace Formula

open Quoted

variable {quote : Char}

/-- A string in quotes is divided into a single token and the end. -/
theorem tokenize_literal (h : quote ∈ quotes) (s : String) : ∃ place,
    tokenize (literal quote s) = .ok [⟨.quoted, s, .first⟩, ⟨.eof, "", place⟩] := by
  let cursor := Cursor.ofText (literal quote s)
  have hroute := (Expr.readsStrings_lexicon .none).routes quote h
  have hscan : Expr.lexicon.scan quote (double quote s.toList ++ [quote]) =
      .ok ⟨.quoted, encode quote s.toList⟩ :=
    Rules.scan_encode hroute (by rintro ⟨⟩) s.toList
  have hahead : cursor.ahead = quote :: (double quote s.toList ++ [quote]) := String.toList_ofList
  have hrest : (cursor.skip (encode quote s.toList).length).ahead = [] := by
    rw [Cursor.ahead_skip, hahead]
    exact List.drop_length
  have hplace : cursor.nextPlace = .first := by
    rw [Cursor.nextPlace, hahead]
    rcases mem_quotes.mp h with rfl | rfl <;> rfl
  have hdecode : Token.decoded ⟨.quoted, literal quote s, .first⟩ = ⟨.quoted, s, .first⟩ := by
    rw [Token.decoded, if_pos rfl, literal, String.toList_ofList, decode_encode,
      String.ofList_toList]
  refine ⟨(cursor.skip (encode quote s.toList).length).nextPlace, ?_⟩
  rw [tokenize_eq, Rules.divide_of_scan hahead hscan, Rules.divide_of_end hrest, hplace, ← hdecode]
  rfl

/-- The formula of a literal is the string. -/
theorem read_literal (h : quote ∈ quotes) (s : String) :
    ∃ f, read (literal quote s) = .ok f ∧ f.tree = some (.constant (.string s) .first) := by
  obtain ⟨place, htokenize⟩ := tokenize_literal h s
  let phrase := Phrase.constant (.string s) .first
  have hsigns : Sign.ofTokens [⟨.quoted, s, .first⟩] = .ok phrase.tokens := rfl
  have hnesting : phrase.nesting ≤ Expr.levels := by simp [phrase, Phrase.nesting, Expr.levels]
  exact ⟨_, read_of_tokens htokenize rfl hsigns rfl hnesting, rfl⟩

end Formula

theorem Calculator.evaluateWith_of_constant {c : Calculator} {v : Value} {p : Position}
    (h : c.formula.tree = some (.constant v p)) (vars : Option Variables)
    (functions : Option Functions) : c.evaluateWith vars functions = .ok v := by
  rw [evaluateWith, Formula.evaluate, Formula.program, h]
  rfl

/-- A string `s` in either quote is an expression with the value `s`. In front of any text that does
not begin with the same quote it is the first token, and the tokenizer stands behind it; with
strings decoded the token is `s` itself. Conversely every token of that kind is a string in quotes,
up to the end of any text or its first error. The rules of expressions and those for free text read
strings in this way, whatever their flags. -/
theorem Quoted.literals_round_trip {quote : Char} (hquote : quote ∈ quotes) (s : String) :
    (∀ (c : Calculator) (vars : Option Variables) (functions : Option Functions),
      ∃ c', c.setText (literal quote s) = (.ok (), c') ∧
        c'.evaluateWith vars functions = .ok (.string s)) ∧
    (∀ t : Tokenizer, t.rules.ReadsStrings →
      (∀ after : String, after.toList.head? ≠ some quote →
        ∃ t' cursor, (t.start (Cursor.ofText (literal quote s ++ after))).next =
          (.ok (some ⟨.quoted, if t.rules.flags.holds .decodeStrings then s else literal quote s,
            .first⟩), t') ∧ t'.cursor = some cursor ∧ cursor.ahead = after.toList) ∧
      (t.rules.flags.holds .decodeStrings = false →
        ∀ text, ∀ token ∈ (t.tokenize text).tokens, token.kind = .quoted → token.Quotes)) ∧
    ∀ flags, Rules.ReadsStrings { Expr.lexicon with flags := flags } ∧
      Rules.ReadsStrings { Rules.general with flags := flags } := by
  refine ⟨?evaluates, fun t ht => ⟨?first, ?converse⟩, fun flags =>
    ⟨Expr.readsStrings_lexicon flags, Rules.readsStrings_general flags⟩⟩
  case evaluates =>
    intro c vars functions
    obtain ⟨f, hread, htree⟩ := Formula.read_literal hquote s
    exact ⟨_, Calculator.setText_of_ok hread, Calculator.evaluateWith_of_constant htree _ _⟩
  case first =>
    intro after hafter
    let cursor := Cursor.ofText (literal quote s ++ after)
    have hahead : cursor.ahead = encode quote s.toList ++ after.toList :=
      toList_literal_append quote s after
    have hplace : cursor.nextPlace = .first := by
      rw [Cursor.nextPlace, hahead]
      rcases mem_quotes.mp hquote with rfl | rfl <;> rfl
    have htext : String.ofList (if t.rules.flags.holds .decodeStrings then s.toList
        else encode quote s.toList) =
        if t.rules.flags.holds .decodeStrings then s else literal quote s := by
      split
      · exact String.ofList_toList
      · rfl
    have hnext := Rules.next_encode (ht.routes quote hquote) hahead hafter
    rw [htext, hplace] at hnext
    refine ⟨_, _, Tokenizer.next_start hnext, rfl, ?_⟩
    rw [Cursor.ahead_skip, hahead, List.drop_left]
  case converse =>
    intro hdecode text
    exact Tokenizer.quotes_of_mem_tokenize ht.toLacksQuoted hdecode text

/-- A string with an apostrophe in front of a sum. -/
theorem Quoted.literals_round_trip_apostrophe :
    let t := Expr.tokenizer.withFlags .none
    let c : Calculator := ⟨.new, .empty, .lenient⟩
    let token : Token := ⟨.quoted, "'it''s'", .first⟩
    '\x27' ∈ quotes ∧ t.rules.ReadsStrings ∧ "+1".toList.head? ≠ some '\x27' ∧
      t.rules.flags.holds .decodeStrings = false ∧ token ∈ (t.tokenize "'it''s'+1").tokens ∧
      (∃ c', c.setText "'it''s'" = (.ok (), c') ∧ c'.evaluate = .ok (.string "it's")) ∧
      (∃ t' cursor, (t.start (Cursor.ofText "'it''s'+1")).next = (.ok (some token), t') ∧
        t'.cursor = some cursor ∧ cursor.ahead = ['+', '1']) ∧ token.Quotes := by
  intro t c token
  have hquote : '\x27' ∈ quotes := List.mem_cons_self
  obtain ⟨hevaluates, hreads, hrules⟩ := literals_round_trip hquote "it's"
  have hstrings : t.rules.ReadsStrings := (hrules .none).1
  have hafter : "+1".toList.head? ≠ some '\x27' := by decide
  have hfirst : ∃ t' cursor, (t.start (Cursor.ofText "'it''s'+1")).next = (.ok (some token), t') ∧
      t'.cursor = some cursor ∧ cursor.ahead = ['+', '1'] := (hreads t hstrings).1 "+1" hafter
  have hmem : token ∈ (t.tokenize "'it''s'+1").tokens := by
    obtain ⟨t', -, hnext, -⟩ := hfirst
    rw [Tokenizer.tokenize, Source.drain_of_token hnext]
    exact List.mem_cons_self
  exact ⟨hquote, hstrings, hafter, rfl, hmem, hevaluates c none none, hfirst,
    (hreads t hstrings).2 rfl "'it''s'+1" token hmem rfl⟩

end Formulary
