import Formulary.Proofs.Expr.Lexing
import Formulary.Proofs.Lex.Symbols
import Formulary.Proofs.Lex.Polishing
import Formulary.Proofs.Lex.Quoting

/-!
# The lexical grammar of expressions

A text is read from left to right. What stands in front of it is told by its form: a run of blanks,
a name, a number, a string in quotes or a comment. Only where nothing of that form stands and no
quote and no comment is left open, an operator or a single character is a symbol. The sort of the
first character decides which of the forms can stand there, and so the rules read exactly what the
grammar says.
-/

namespace Formulary

namespace Expr

open Quoted

/-! The grammar -/

def isInLine (c : Char) : Bool := c != '\n' && c != '\r'

/-- A letter with letters and digits behind it. -/
inductive Name : List Char → Prop
  | mk {c rest} (hc : isLetter c = true) (h : ∀ d ∈ rest, (isLetter d || d.isDigit) = true) :
    Name (c :: rest)

def Reserved (chars : List Char) : Prop :=
  ∃ word ∈ keywords, Text.equalIgnoringCase word.toList chars = true

/-- An operator of two characters or a single character. -/
def Symbol (chars : List Char) : Prop := chars.length = 1 ∨ String.ofList chars ∈ operators

/-- What stands in front of a text and has a form of its own. -/
inductive Form : List Char → Lexeme → Prop
  | blanks {cs chars} (h : Longest (Run isBlank) cs chars) : Form cs ⟨.whitespace, chars⟩
  | keyword {cs chars} (h : Longest Name cs chars) (hword : Reserved chars) :
    Form cs ⟨.keyword, chars⟩
  | word {cs chars} (h : Longest Name cs chars) (hword : ¬ Reserved chars) : Form cs ⟨.word, chars⟩
  | number {cs number} (h : numberRule.Allows number)
    (hlongest : Longest numberRule.Numeral cs number.chars) : Form cs ⟨number.kind, number.chars⟩
  | string {quote s after} (hquote : quote ∈ quotes) (hafter : after.head? ≠ some quote) :
    Form (encode quote s ++ after) ⟨.quoted, encode quote s⟩
  | line {cs chars} (hmark : ['/', '/'] <+: cs) (h : Longest (Run isInLine) cs chars) :
    Form cs ⟨.comment, chars⟩
  | block {body after} (h : ¬ ['*', '/'] <:+: body) :
    Form ('/' :: '*' :: (body ++ '*' :: '/' :: after)) ⟨.comment, '/' :: '*' :: (body ++ ['*', '/'])⟩

/-- A quote whose further quotes are all doubled or a comment without a closing mark. -/
inductive Unclosed : List Char → LexFault → Prop
  | string {quote s} (hquote : quote ∈ quotes) :
    Unclosed (quote :: double quote s) .unterminatedQuote
  | block {rest} (h : ¬ ['*', '/'] <:+: rest) : Unclosed ('/' :: '*' :: rest) .unterminatedComment

inductive Ahead (cs : List Char) : Except LexFault Lexeme → Prop
  | form {lexeme} (h : Form cs lexeme) : Ahead cs (.ok lexeme)
  | unclosed {fault} (h : Unclosed cs fault) : Ahead cs (.error fault)
  | symbol {chars} (hform : ∀ lexeme, ¬ Form cs lexeme) (hunclosed : ∀ fault, ¬ Unclosed cs fault)
    (h : Longest Symbol cs chars) : Ahead cs (.ok ⟨.symbol, chars⟩)

/-- The tokens of what is in front of a cursor, each at the place of its first character, up to the
one for the end or up to something that is never closed. -/
inductive Reads : Cursor → List Token → Option LexError → Prop
  | finish {cursor} (h : cursor.ahead = []) : Reads cursor [⟨.eof, "", cursor.nextPlace⟩] none
  | stop {cursor fault} (h : Ahead cursor.ahead (.error fault)) :
    Reads cursor [] (some (fault.at cursor.nextPlace))
  | take {cursor lexeme tokens error} (first : Ahead cursor.ahead (.ok lexeme))
    (others : Reads (cursor.skip lexeme.chars.length) tokens error) :
    Reads cursor (⟨lexeme.kind, String.ofList lexeme.chars, cursor.nextPlace⟩ :: tokens) error

variable {c : Char} {rest cs chars : List Char} {lexeme : Lexeme} {fault : LexFault}
variable {answer : Except LexFault Lexeme}

/-! The rules read what the grammar says -/

theorem scan_of_state (h : (stateOf c).scan lexicon.slots.symbol (c :: rest) = answer) :
    lexicon.scan c rest = answer := by
  cases answer with
  | ok lexeme => exact (scan_iff (route_eq c)).mpr h
  | error fault =>
    rw [Rules.scan, route_eq]
    dsimp only
    rw [h]

/-- The longest name in front of a text goes on through all letters and digits. -/
theorem longest_name (hc : isLetter c = true) (rest : List Char) :
    Longest Name (c :: rest) (c :: rest.takeWhile nameChars.holds) where
  holds := ⟨hc, fun d hd => (holds_nameChars d).symm.trans (List.mem_takeWhile_imp hd)⟩
  isPrefix := (List.prefix_cons_inj c).mpr (List.takeWhile_prefix _)
  longest := by
    rintro other @⟨d, more, -, hmore⟩ hstart
    obtain ⟨rfl, hrest⟩ := List.cons_prefix_cons.mp hstart
    have hrun : more <+: rest.takeWhile nameChars.holds :=
      isPrefix_takeWhile hrest fun e he => (holds_nameChars e).trans (hmore e he)
    exact Nat.succ_le_succ hrun.length_le

/-- A name is read to its end, as a keyword if it is reserved. -/
theorem scan_of_name (h : Longest Name cs chars) : ∃ c rest, cs = c :: rest ∧
    lexicon.scan c rest = .ok ⟨if Text.isOneOf keywords chars then .keyword else .word, chars⟩ := by
  obtain @⟨c, more, hc, -⟩ := h.holds
  obtain ⟨rest, rfl⟩ := h.exists_cons
  refine ⟨c, rest, rfl, scan_of_state ?_⟩
  rw [stateOf_of_letter hc, h.unique (longest_name hc rest)]
  rfl

theorem reserved_iff : Text.isOneOf keywords chars = true ↔ Reserved chars := List.any_eq_true

theorem scan_block (rest : List Char) : lexicon.scan '/' ('*' :: rest) =
    (Comment.close? rest).elim (.error .unterminatedComment) fun closed =>
      .ok ⟨.comment, '/' :: '*' :: closed⟩ := by
  have hstyle : CommentStyle.lineAndBlock ≠ .line := by decide
  have hstate : stateOf '/' = .comment .lineAndBlock := rfl
  refine scan_of_state ?_
  rw [hstate, State.scan, Comment.scan_block hstyle]
  cases Comment.close? rest <;> rfl

/-- What has a form is read. -/
theorem scan_of_form (h : Form cs lexeme) :
    ∃ c rest, cs = c :: rest ∧ lexicon.scan c rest = .ok lexeme := by
  cases h with
  | blanks h =>
    obtain ⟨hne, hblank⟩ := h.holds
    obtain ⟨c, more, rfl⟩ := List.exists_cons_of_ne_nil hne
    obtain ⟨rest, rfl⟩ := h.exists_cons
    have hc := hblank c List.mem_cons_self
    refine ⟨c, rest, rfl, scan_of_state ?_⟩
    rw [stateOf_of_blank hc, h.unique (longest_takeWhile hc rest), ← holds_blank]
    rfl
  | keyword h hword =>
    obtain ⟨c, rest, hcs, hscan⟩ := scan_of_name h
    rw [if_pos (reserved_iff.mpr hword)] at hscan
    exact ⟨c, rest, hcs, hscan⟩
  | word h hword =>
    obtain ⟨c, rest, hcs, hscan⟩ := scan_of_name h
    rw [if_neg (mt reserved_iff.mp hword)] at hscan
    exact ⟨c, rest, hcs, hscan⟩
  | @number _ number h hlongest =>
    have hnone : number.sign = [] := h.sign.resolve_right fun hsign => Bool.noConfusion hsign.1
    obtain ⟨c, more, hchars, hc⟩ := NumberRule.exists_cons_of_unsigned h hnone
    obtain ⟨rest, rfl⟩ : ∃ rest, cs = c :: rest := (hchars ▸ hlongest).exists_cons
    have hscan := NumberRule.scan_eq_some_iff.mpr ⟨number, h, hlongest, rfl, rfl⟩
    refine ⟨c, rest, rfl, scan_of_state ?_⟩
    rw [stateOf_of_number hc, State.scan, hscan]
  | @string quote s after hquote hafter =>
    refine ⟨quote, double quote s ++ quote :: after, by simp [encode], ?_⟩
    exact Rules.scan_encode ((route_eq quote).trans (congrArg some (stateOf_of_quote hquote)))
      hafter s
  | line hmark h =>
    obtain ⟨rest, rfl⟩ := hmark
    refine ⟨'/', '/' :: rest, rfl, scan_of_state ?_⟩
    rw [h.unique (longest_takeWhile rfl _)]
    rfl
  | @block body after h =>
    refine ⟨'/', '*' :: (body ++ '*' :: '/' :: after), rfl, ?_⟩
    rw [scan_block, Comment.close?_of_mark h]
    rfl

/-- Where something is never closed, reading fails. -/
theorem scan_of_unclosed (h : Unclosed cs fault) :
    ∃ c rest, cs = c :: rest ∧ lexicon.scan c rest = .error fault := by
  cases h with
  | @string quote s hquote =>
    refine ⟨quote, double quote s, rfl, scan_of_state ?_⟩
    rw [stateOf_of_quote hquote, State.scan, scan?_eq_none_iff.mpr ⟨s, rfl⟩]
  | @block rest h =>
    refine ⟨'/', '*' :: rest, rfl, ?_⟩
    rw [scan_block, Comment.close?_eq_none_iff.mpr h]
    rfl

theorem scan_of_form_cons (h : Form (c :: rest) lexeme) : lexicon.scan c rest = .ok lexeme := by
  obtain ⟨_, _, heq, hscan⟩ := scan_of_form h
  cases heq
  exact hscan

theorem scan_of_unclosed_cons (h : Unclosed (c :: rest) fault) :
    lexicon.scan c rest = .error fault := by
  obtain ⟨_, _, heq, hscan⟩ := scan_of_unclosed h
  cases heq
  exact hscan

theorem not_symbol_nil : ¬ Symbol [] := by
  rintro (hlength | hmem)
  · cases hlength
  · revert hmem
    decide

/-- A text that is left to the symbols begins with one. -/
theorem exists_symbol (h : (stateOf c).scan lexicon.slots.symbol (c :: rest) =
    State.scanAnySymbol lexicon.slots.symbol (c :: rest)) :
    ∃ chars, lexicon.scan c rest = .ok ⟨.symbol, chars⟩ ∧ Longest Symbol (c :: rest) chars := by
  obtain ⟨chars, hscan, hlongest⟩ := State.longest_scanSymbol operators c rest
  have hsymbol {s : List Char} : Symbol s ↔ s.length = 1 ∨ (s ≠ [] ∧ String.ofList s ∈ operators) := by
    refine or_congr_right ⟨fun hs => ⟨?_, hs⟩, And.right⟩
    rintro rfl
    exact not_symbol_nil (.inr hs)
  refine ⟨chars, scan_of_state (h.trans (congrArg Except.ok hscan)), hsymbol.mpr hlongest.holds,
    hlongest.isPrefix, fun other hother => hlongest.longest other (hsymbol.mp hother)⟩

/-- Something has a form in front of a text, or is never closed, or is read as a symbol. -/
def Recognised (c : Char) (rest : List Char) : Prop :=
  (∃ lexeme, Form (c :: rest) lexeme) ∨ (∃ fault, Unclosed (c :: rest) fault) ∨
    ∃ chars, lexicon.scan c rest = .ok ⟨.symbol, chars⟩ ∧ Longest Symbol (c :: rest) chars

theorem recognised_slash (rest : List Char) : Recognised '/' rest := by
  cases rest with
  | nil => exact .inr (.inr (exists_symbol rfl))
  | cons d more =>
    by_cases hline : d = '/'
    · subst hline
      exact .inl ⟨_, .line (List.prefix_append ['/', '/'] more) (longest_takeWhile rfl _)⟩
    · by_cases hblock : d = '*'
      · subst hblock
        cases hclose : Comment.close? more with
        | none => exact .inr (.inl ⟨_, .block (Comment.close?_eq_none_iff.mp hclose)⟩)
        | some closed =>
          obtain ⟨body, after, rfl, hbody, -⟩ := Comment.close?_eq_some_iff.mp hclose
          exact .inl ⟨_, .block hbody⟩
      · have hstate : stateOf '/' = .comment .lineAndBlock := rfl
        refine .inr (.inr (exists_symbol ?_))
        rw [hstate, State.scan, Comment.scan_none (by decide) (by simp [hline, hblock])]

theorem recognised_quote (h : c ∈ quotes) (rest : List Char) : Recognised c rest := by
  cases hscan : scan? (c :: rest) with
  | none =>
    obtain ⟨s, rfl⟩ := scan?_eq_none_iff.mp hscan
    exact .inr (.inl ⟨_, .string h⟩)
  | some chars =>
    obtain ⟨s, after, hcs, hafter, -⟩ := scan?_eq_some_iff.mp hscan
    rw [Recognised, hcs]
    exact .inl ⟨_, .string h hafter⟩

theorem recognised_number (h : c = '.' ∨ c.isDigit = true) (rest : List Char) :
    Recognised c rest := by
  cases hscan : numberRule.scan (c :: rest) with
  | none =>
    refine .inr (.inr (exists_symbol ?_))
    rw [stateOf_of_number h, State.scan, hscan]
  | some found =>
    obtain ⟨number, hallows, hlongest, -⟩ := NumberRule.scan_eq_some_iff.mp hscan
    exact .inl ⟨_, .number hallows hlongest⟩

theorem recognised_letter (h : isLetter c = true) (rest : List Char) : Recognised c rest := by
  have hname := longest_name h rest
  by_cases hword : Reserved (c :: rest.takeWhile nameChars.holds)
  · exact .inl ⟨_, .keyword hname hword⟩
  · exact .inl ⟨_, .word hname hword⟩

/-- Whatever stands in front of a text is recognised. -/
theorem recognised (c : Char) (rest : List Char) : Recognised c rest := by
  by_cases hslash : c = '/'
  · exact hslash ▸ recognised_slash rest
  by_cases hquote : c ∈ quotes
  · exact recognised_quote hquote rest
  by_cases hnumber : c = '.' ∨ c.isDigit = true
  · exact recognised_number hnumber rest
  by_cases hletter : isLetter c = true
  · exact recognised_letter hletter rest
  by_cases hblank : isBlank c = true
  · exact .inl ⟨_, .blanks (longest_takeWhile hblank rest)⟩
  refine .inr (.inr (exists_symbol ?_))
  rw [stateOf, if_neg hslash, if_neg hquote, if_neg hnumber, if_neg hletter, if_neg hblank]
  rfl

/-- Neither of the two kinds that nothing with a form has. -/
theorem kind_of_form (h : Form cs lexeme) : lexeme.kind ≠ .symbol ∧ lexeme.kind ≠ .unknown := by
  cases h with
  | @number _ number =>
    dsimp only [NumberParts.kind]
    split <;> exact ⟨TokenKind.noConfusion, TokenKind.noConfusion⟩
  | _ => exact ⟨TokenKind.noConfusion, TokenKind.noConfusion⟩

/-- The rules read in front of a text what the grammar says, and fail where it says so. -/
theorem scan_eq_iff : lexicon.scan c rest = answer ↔ Ahead (c :: rest) answer := by
  constructor
  · rintro rfl
    rcases recognised c rest with ⟨lexeme, hform⟩ | ⟨fault, hunclosed⟩ |
      ⟨chars, hscan, hlongest⟩
    · rw [scan_of_form_cons hform]
      exact .form hform
    · rw [scan_of_unclosed_cons hunclosed]
      exact .unclosed hunclosed
    · rw [hscan]
      refine .symbol (fun lexeme hform => ?_) (fun fault hunclosed => ?_) hlongest
      · have hsame := (scan_of_form_cons hform).symm.trans hscan
        cases hsame
        exact (kind_of_form hform).1 rfl
      · cases (scan_of_unclosed_cons hunclosed).symm.trans hscan
  · rintro (hform | hunclosed | ⟨hform, hunclosed, hlongest⟩)
    · exact scan_of_form_cons hform
    · exact scan_of_unclosed_cons hunclosed
    · rcases recognised c rest with ⟨lexeme, hother⟩ | ⟨fault, hother⟩ |
        ⟨chars, hscan, hother⟩
      · exact absurd hother (hform lexeme)
      · exact absurd hother (hunclosed fault)
      · rw [hscan, hlongest.unique hother]

theorem Ahead.exists_cons (h : Ahead cs answer) :
    ∃ c rest, cs = c :: rest ∧ lexicon.scan c rest = answer := by
  cases cs with
  | cons c rest => exact ⟨c, rest, rfl, scan_eq_iff.mpr h⟩
  | nil =>
    rcases h with hform | hunclosed | ⟨-, -, hlongest⟩
    · obtain ⟨c, rest, hcs, -⟩ := scan_of_form hform
      cases hcs
    · obtain ⟨c, rest, hcs, -⟩ := scan_of_unclosed hunclosed
      cases hcs
    · have hnil := List.prefix_nil.mp hlongest.isPrefix
      exact absurd (hnil ▸ hlongest.holds) not_symbol_nil

theorem Ahead.unique {other : Except LexFault Lexeme} (h : Ahead cs answer)
    (hother : Ahead cs other) : answer = other := by
  obtain ⟨c, rest, rfl, rfl⟩ := h.exists_cons
  exact scan_eq_iff.mpr hother

/-! Whole texts -/

variable {cursor : Cursor} {tokens others : List Token} {error error' : Option LexError}

/-- There is one way to read a text. -/
theorem Reads.unique (h : Reads cursor tokens error) (hother : Reads cursor others error') :
    tokens = others ∧ error = error' := by
  induction h generalizing others error' with
  | finish hahead =>
    cases hother with
    | finish => exact ⟨rfl, rfl⟩
    | stop hfirst =>
      obtain ⟨c, rest, hcs, -⟩ := hfirst.exists_cons
      cases hahead.symm.trans hcs
    | take hfirst =>
      obtain ⟨c, rest, hcs, -⟩ := hfirst.exists_cons
      cases hahead.symm.trans hcs
  | stop hfirst =>
    cases hother with
    | finish hahead =>
      obtain ⟨c, rest, hcs, -⟩ := hfirst.exists_cons
      cases hahead.symm.trans hcs
    | stop hsame =>
      cases hfirst.unique hsame
      exact ⟨rfl, rfl⟩
    | take hsame => cases hfirst.unique hsame
  | take hfirst _ ih =>
    cases hother with
    | finish hahead =>
      obtain ⟨c, rest, hcs, -⟩ := hfirst.exists_cons
      cases hahead.symm.trans hcs
    | stop hsame => cases hfirst.unique hsame
    | take hsame hmore =>
      cases hfirst.unique hsame
      obtain ⟨rfl, rfl⟩ := ih hmore
      exact ⟨rfl, rfl⟩

def rawLexicon : Rules := { lexicon with flags := .none }

/-- A tokenizer without flags that stands in front of a cursor hands out what is read there. -/
theorem reads_drain {t : Tokenizer} (h : t.Faces rawLexicon cursor) :
    Reads cursor (Source.drain t).tokens (Source.drain t).error := by
  have hnext := h.next_eq
  induction cursor using Rules.divide.induct rawLexicon generalizing t with
  | case1 cursor hahead =>
    rw [Rules.next_of_end hahead] at hnext
    obtain ⟨t', hdone⟩ := Tokenizer.next_of_done
      (t := { t with cursor := some cursor, lastKind := some .eof })
      ⟨h.lookahead_eq, rfl, cursor, rfl, hahead⟩
    rw [Source.drain_of_token hnext, Source.drain_of_none hdone]
    exact .finish hahead
  | case2 cursor c rest hahead fault hscan =>
    rw [Rules.next_of_fault hahead hscan] at hnext
    rw [Source.drain_of_error hnext]
    exact .stop (hahead ▸ scan_eq_iff.mp hscan)
  | case3 cursor c rest hahead lexeme hscan ih =>
    let token : Token := ⟨lexeme.kind, String.ofList lexeme.chars, cursor.nextPlace⟩
    have hkind : lexeme.kind ≠ .eof := (lacksEof_lexicon.of_scan hscan).2
    have happly : rawLexicon.flags.apply token = some token := Flags.apply_none token
    rw [Rules.next_of_scan hahead hscan, happly] at hnext
    let behind : Tokenizer :=
      { t with cursor := some (cursor.skip lexeme.chars.length), lastKind := some lexeme.kind }
    have hbehind : behind.Faces rawLexicon (cursor.skip lexeme.chars.length) :=
      ⟨h.rules_eq, rfl, h.lookahead_eq, fun heof => hkind (Option.some.inj heof)⟩
    rw [Source.drain_of_token hnext]
    exact .take (hahead ▸ scan_eq_iff.mp hscan) (ih hbehind hbehind.next_eq)

theorem kind_of_ahead (h : Ahead cs (.ok lexeme)) : lexeme.kind ≠ .unknown := by
  cases h with
  | form hform => exact (kind_of_form hform).2
  | symbol => exact TokenKind.noConfusion

theorem fault_of_ahead (h : Ahead cs (.error fault)) : fault ≠ .missingSymbols := by
  cases h with
  | unclosed hunclosed => cases hunclosed <;> exact LexFault.noConfusion

theorem Reads.kind_ne_unknown (h : Reads cursor tokens error) :
    ∀ token ∈ tokens, token.kind ≠ .unknown := by
  induction h with
  | finish => exact List.forall_mem_singleton.mpr TokenKind.noConfusion
  | stop => exact List.forall_mem_nil _
  | take hfirst _ ih => exact List.forall_mem_cons.mpr ⟨kind_of_ahead hfirst, ih⟩

/-- Nothing is wrong with a text but a quote or a comment that is never closed. -/
theorem Reads.error_eq (h : Reads cursor tokens error) :
    error = none ∨ ∃ p, error = some (.unterminatedQuote p) ∨ error = some (.unterminatedComment p) := by
  induction h with
  | finish => exact .inl rfl
  | @stop cursor fault hfirst =>
    cases fault with
    | unterminatedQuote => exact .inr ⟨_, .inl rfl⟩
    | unterminatedComment => exact .inr ⟨_, .inr rfl⟩
    | missingSymbols => exact absurd rfl (fault_of_ahead hfirst)
  | take _ _ ih => exact ih

/-- Without flags, the tokens of any text and the error behind them, if there is one, are those of
the one way to read it: in front of the text stands something with a form, or else a symbol, and so
on behind it up to the end, or up to a quote or a comment that is never closed, where reading fails.
No token is of the kind of unknown ones, and nothing else is an error. -/
theorem reads_tokenize (text : String) :
    let drained := (tokenizer.withFlags .none).tokenize text
    (∀ tokens error, drained.tokens = tokens ∧ drained.error = error ↔
      Reads (Cursor.ofText text) tokens error) ∧
    (∀ token ∈ drained.tokens, token.kind ≠ .unknown) ∧
    (drained.error = none ∨ ∃ p, drained.error = some (.unterminatedQuote p) ∨
      drained.error = some (.unterminatedComment p)) := by
  intro drained
  have hfaces : ((tokenizer.withFlags .none).start (Cursor.ofText text)).Faces rawLexicon
      (Cursor.ofText text) := ⟨rfl, rfl, rfl, by rintro ⟨⟩⟩
  have hreads : Reads (Cursor.ofText text) drained.tokens drained.error := reads_drain hfaces
  refine ⟨fun tokens error => ⟨?_, fun h => hreads.unique h⟩, hreads.kind_ne_unknown,
    hreads.error_eq⟩
  rintro ⟨rfl, rfl⟩
  exact hreads

/-- A name and an operator in front of a quote that is never closed. -/
theorem reads_tokenize_unclosed :
    let drained := (tokenizer.withFlags .none).tokenize "x<='"
    let operator : Token := ⟨.symbol, "<=", ⟨1, 2⟩⟩
    Reads (Cursor.ofText "x<='") [⟨.word, "x", ⟨1, 1⟩⟩, operator]
        (some (.unterminatedQuote ⟨1, 4⟩)) ∧
      (drained.tokens = [⟨.word, "x", ⟨1, 1⟩⟩, operator] ∧
        drained.error = some (.unterminatedQuote ⟨1, 4⟩)) ∧
      operator ∈ drained.tokens ∧ operator.kind ≠ .unknown := by
  intro drained operator
  have hname : lexicon.scan 'x' "<='".toList = .ok ⟨.word, ['x']⟩ := rfl
  have hoperator : lexicon.scan '<' "='".toList = .ok ⟨.symbol, ['<', '=']⟩ := rfl
  have hquote : lexicon.scan '\x27' [] = .error .unterminatedQuote := rfl
  let cursor := Cursor.ofText "x<='"
  have hstop : Reads ((cursor.skip 1).skip 2) [] (some (.unterminatedQuote ⟨1, 4⟩)) :=
    @Reads.stop _ .unterminatedQuote (scan_eq_iff.mp hquote)
  have hbehind : Reads (cursor.skip 1) [operator] (some (.unterminatedQuote ⟨1, 4⟩)) :=
    @Reads.take _ ⟨.symbol, ['<', '=']⟩ _ _ (scan_eq_iff.mp hoperator) hstop
  have hreads : Reads cursor [⟨.word, "x", ⟨1, 1⟩⟩, operator] (some (.unterminatedQuote ⟨1, 4⟩)) :=
    @Reads.take _ ⟨.word, ['x']⟩ _ _ (scan_eq_iff.mp hname) hbehind
  obtain ⟨hiff, hkinds, -⟩ := reads_tokenize "x<='"
  have hdrained := (hiff _ _).mpr hreads
  have hmem : operator ∈ drained.tokens := by
    rw [hdrained.1]
    exact List.mem_cons_of_mem _ List.mem_cons_self
  exact ⟨hreads, hdrained, hmem, hkinds operator hmem⟩

end Expr

end Formulary
