import Formulary.Proofs.Lex.Quoting
import Formulary.Proofs.Lex.Spacing
import Formulary.Proofs.Text.Casing

/-!
# Tokens of expressions in front of a space

The sort of the first character of a token leads to the state that reads it, since later ranges of
characters hide the earlier ones. Whatever that state is, the token is read again when a space or
nothing follows it, unless it is whitespace or a comment itself. A slash or a point that is left to
the symbols is a symbol there as well, since no comment and no number begins with it in front of a
space.
-/

namespace Formulary

namespace Expr

def wordRule : WordRule := ⟨nameChars, keywords⟩

def numberRule : NumberRule := ⟨false, true⟩

/-- The routes of the rules, one range after the other. -/
theorem routes_eq : lexicon.routes = (CharMap.empty
    |>.insertRange (Char.ofNat 0) CharMap.lastChar (.symbol (.ofList operators))
    |>.insertRange (Char.ofNat 0) ' ' (.whitespace .controlsAndSpace)
    |>.insertRange 'a' 'z' (.word wordRule)
    |>.insertRange 'A' 'Z' (.word wordRule)
    |>.insertRange '_' '_' (.word wordRule)
    |>.insertRange firstWideLetter CharMap.lastChar (.word wordRule)
    |>.insertRange '0' '9' (.number numberRule)
    |>.insertRange '.' '.' (.number numberRule)
    |>.insertRange '\x22' '\x22' .quote
    |>.insertRange '\x27' '\x27' .quote
    |>.insertRange '/' '/' (.comment .lineAndBlock)) := rfl

/-! Sorts of characters -/

def isBlank (c : Char) : Bool := c ≤ ' '

/-- ASCII letters, the underscore and everything from the first wide letter on. -/
def isLetter (c : Char) : Bool := c.isAlpha || c == '_' || firstWideLetter ≤ c

theorem isBlank_iff {c : Char} : isBlank c = true ↔ c.toNat ≤ 32 := by
  rw [isBlank, decide_eq_true_eq, CharRange.le_iff]
  rfl

theorem isLetter_iff {c : Char} : isLetter c = true ↔ ((65 ≤ c.toNat ∧ c.toNat ≤ 90) ∨
    (97 ≤ c.toNat ∧ c.toNat ≤ 122)) ∨ c.toNat = 95 ∨ 192 ≤ c.toNat := by
  rw [isLetter, Bool.or_eq_true, Bool.or_eq_true, isAlpha_iff, beq_iff_eq, decide_eq_true_eq,
    CharRange.le_iff, ← Char.toNat_inj, or_assoc]
  rfl

theorem toNat_firstWideLetter : firstWideLetter.toNat = 192 := rfl

theorem holds_nameChars (c : Char) : nameChars.holds c = (isLetter c || c.isDigit) := by
  have hc := CharMap.toNat_le_lastChar c
  rw [Bool.eq_iff_iff, Bool.or_eq_true, isLetter_iff, Char.isDigit_iff_toNat]
  simp only [CharMap.holds, nameChars, CharMap.wordChars, CharMap.insert, CharMap.get?_insertRange,
    CharMap.get?_empty, Char.reduceToNat, toNat_firstWideLetter]
  grind

theorem holds_blank : CharMap.controlsAndSpace.holds = isBlank := by
  funext c
  rw [Bool.eq_iff_iff, isBlank_iff, CharMap.holds, CharMap.controlsAndSpace,
    CharMap.get?_insertRange, CharMap.get?_empty]
  by_cases hc : c.toNat ≤ 32 <;> simp [hc]

def stateOf (c : Char) : State :=
  if c = '/' then .comment .lineAndBlock
  else if c ∈ Quoted.quotes then .quote
  else if c = '.' ∨ c.isDigit = true then .number numberRule
  else if isLetter c = true then .word wordRule
  else if isBlank c = true then .whitespace .controlsAndSpace
  else .symbol (.ofList operators)

/-- The sorts of a character in numbers. -/
theorem stateOf_eq (c : Char) : stateOf c =
    if c.toNat = 47 then .comment .lineAndBlock
    else if c.toNat = 39 ∨ c.toNat = 34 then .quote
    else if c.toNat = 46 ∨ (48 ≤ c.toNat ∧ c.toNat ≤ 57) then .number numberRule
    else if ((65 ≤ c.toNat ∧ c.toNat ≤ 90) ∨ (97 ≤ c.toNat ∧ c.toNat ≤ 122)) ∨ c.toNat = 95 ∨
      192 ≤ c.toNat then .word wordRule
    else if c.toNat ≤ 32 then .whitespace .controlsAndSpace
    else .symbol (.ofList operators) := by
  simp only [stateOf, Quoted.quotes, List.mem_cons, List.not_mem_nil, or_false, ← Char.toNat_inj,
    Char.isDigit_iff_toNat, isLetter_iff, isBlank_iff, Char.reduceToNat]

/-- Later ranges of characters hide the earlier ones. -/
theorem route_eq (c : Char) : lexicon.routes.get? c = some (stateOf c) := by
  have hc := CharMap.toNat_le_lastChar c
  rw [routes_eq, stateOf_eq]
  simp only [CharMap.get?_insertRange, Char.reduceToNat, toNat_firstWideLetter]
  grind

theorem stateOf_of_quote {c : Char} (h : c ∈ Quoted.quotes) : stateOf c = .quote := by
  rcases Quoted.mem_quotes.mp h with rfl | rfl <;> rfl

theorem stateOf_of_number {c : Char} (h : c = '.' ∨ c.isDigit = true) :
    stateOf c = .number numberRule := by
  simp only [Char.isDigit_iff_toNat, ← Char.toNat_inj, Char.reduceToNat] at h
  rw [stateOf_eq]
  grind

theorem stateOf_of_letter {c : Char} (h : isLetter c = true) : stateOf c = .word wordRule := by
  rw [isLetter_iff] at h
  rw [stateOf_eq]
  grind

theorem stateOf_of_blank {c : Char} (h : isBlank c = true) :
    stateOf c = .whitespace .controlsAndSpace := by
  rw [isBlank_iff] at h
  rw [stateOf_eq]
  grind

inductive Leads (c : Char) : State → Prop
  | comment (h : c = '/') : Leads c (.comment .lineAndBlock)
  | quote (h : c = '\x27' ∨ c = '\x22') : Leads c .quote
  | number (h : c = '.' ∨ c.isDigit = true) : Leads c (.number numberRule)
  | word : Leads c (.word wordRule)
  | whitespace (h : CharMap.controlsAndSpace.holds c = true) :
    Leads c (.whitespace .controlsAndSpace)
  | symbol : Leads c (.symbol (.ofList operators))

theorem leads_of_route {c : Char} {state : State} (h : lexicon.routes.get? c = some state) :
    Leads c state := by
  obtain rfl : stateOf c = state := Option.some.inj ((route_eq c).symm.trans h)
  unfold stateOf
  split_ifs with hslash hquote hnumber hletter hblank
  · exact .comment hslash
  · exact .quote (Quoted.mem_quotes.mp hquote)
  · exact .number hnumber
  · exact .word
  · exact .whitespace (holds_blank ▸ hblank)
  · exact .symbol

/-- The space and everything below it lead to whitespace. -/
theorem route_of_blank {c : Char} (h : CharMap.controlsAndSpace.holds c = true) :
    lexicon.routes.get? c = some (.whitespace .controlsAndSpace) := by
  rw [holds_blank] at h
  rw [route_eq, stateOf_of_blank h]

/-! Tokens in front of a space -/

theorem scanSymbol_single {c : Char} (h : c = '.' ∨ c = '/') (rest : List Char) :
    State.scanSymbol (.ofList operators) (c :: rest) = ⟨.symbol, [c]⟩ := by
  rw [State.scanSymbol_cons]
  rcases h with rfl | rfl <;> rfl

theorem scanSymbol_ne_nil (c : Char) (rest : List Char) :
    (State.scanSymbol (.ofList operators) (c :: rest)).chars ≠ [] := by
  rw [State.scanSymbol_cons]
  cases hlongest : (SymbolTree.ofList operators).longest? (c :: rest) with
  | none => exact List.cons_ne_nil c []
  | some found =>
    have hpos : found.2 ≠ 0 := SymbolTree.longest?_ne_zero hlongest
    exact fun hnil => (List.take_eq_nil_iff.mp hnil).elim hpos (List.cons_ne_nil c rest)

theorem numberRule_scan_point {after : List Char} (hafter : SpaceAhead after) :
    numberRule.scan ('.' :: after) = none := by
  have hdigits : after.takeWhile Char.isDigit = [] := by
    cases after with
    | nil => rfl
    | cons c rest => rw [hafter c rfl]; rfl
  simp [NumberRule.scan, numberRule, NumberRule.fraction, hdigits]

theorem numberRule_scan_digit {c : Char} (hc : c.isDigit = true) (rest : List Char) :
    numberRule.scan (c :: rest) ≠ none := by
  simp [NumberRule.scan, numberRule, hc]

theorem commentScan_blank {after : List Char} (hafter : SpaceAhead after) :
    Comment.scan .lineAndBlock ('/' :: after) = .none := by
  cases after with
  | nil => rfl
  | cons c rest => rw [hafter c rfl]; rfl

theorem state_scan_ne_nil {c : Char} {rest : List Char} {state : State} {lexeme : Lexeme}
    (hleads : Leads c state) (h : state.scan lexicon.slots.symbol (c :: rest) = .ok lexeme) :
    lexeme.chars ≠ [] := by
  have hsymbol (h : State.scanAnySymbol lexicon.slots.symbol (c :: rest) = .ok lexeme) :
      lexeme.chars ≠ [] := by
    cases h
    exact scanSymbol_ne_nil c rest
  cases hleads with
  | comment hc =>
    rw [State.scan] at h
    split at h
    · next hscan =>
      cases h
      exact Comment.scan_ne_nil hscan
    · cases h
    · exact hsymbol h
  | quote hc =>
    rw [State.scan, Quoted.scan?] at h
    cases hclose : Quoted.close? c rest with
    | none =>
      rw [hclose] at h
      cases h
    | some closed =>
      rw [hclose] at h
      cases h
      exact List.cons_ne_nil c closed
  | number hc =>
    rw [State.scan] at h
    split at h
    · next hscan =>
      cases h
      exact NumberRule.scan_ne_nil hscan
    · exact hsymbol h
  | word =>
    cases h
    exact List.cons_ne_nil c _
  | whitespace hblank =>
    cases h
    rw [List.takeWhile_cons, hblank]
    exact List.cons_ne_nil c _
  | symbol => exact hsymbol h

/-- What a state reads is read in front of a space as well, unless it is whitespace or a comment. -/
theorem state_scan_append {c : Char} {rest after : List Char} {state : State} {lexeme : Lexeme}
    (hleads : Leads c state) (h : state.scan lexicon.slots.symbol (c :: rest) = .ok lexeme)
    (hwhitespace : lexeme.kind ≠ .whitespace) (hcomment : lexeme.kind ≠ .comment)
    (hafter : SpaceAhead after) :
    state.scan lexicon.slots.symbol (lexeme.chars ++ after) = .ok lexeme := by
  have hsingle (hc : c = '.' ∨ c = '/')
      (hsymbol : State.scanAnySymbol lexicon.slots.symbol (c :: rest) = .ok lexeme) :
      lexeme = ⟨.symbol, [c]⟩ ∧
        State.scanAnySymbol lexicon.slots.symbol (c :: after) = .ok ⟨.symbol, [c]⟩ :=
    ⟨Except.ok.inj (hsymbol.symm.trans (congrArg Except.ok (scanSymbol_single hc rest))),
      congrArg Except.ok (scanSymbol_single hc after)⟩
  cases hleads with
  | comment hc =>
    subst hc
    rw [State.scan] at h
    split at h
    · cases h
      exact (hcomment rfl).elim
    · cases h
    · obtain ⟨rfl, hsymbol⟩ := hsingle (.inr rfl) h
      show State.scan lexicon.slots.symbol (.comment .lineAndBlock) ('/' :: after) = _
      rw [State.scan, commentScan_blank hafter]
      exact hsymbol
  | quote hc =>
    rw [State.scan, Quoted.scan?] at h
    cases hclose : Quoted.close? c rest with
    | none =>
      rw [hclose] at h
      cases h
    | some closed =>
      rw [hclose] at h
      cases h
      have hquote : after.head? ≠ some c := by
        intro hhead
        have hspace := hafter c hhead
        rcases hc with rfl | rfl <;> cases hspace
      show State.scan _ .quote (c :: (closed ++ after)) = _
      rw [State.scan, Quoted.scan?, Quoted.close?_append hclose hquote]
      rfl
  | number hc =>
    rw [State.scan] at h
    split at h
    · next kind chars hscan =>
      cases h
      rw [State.scan, NumberRule.scan_append rfl hscan hafter]
    · next hnone =>
      have hpoint : c = '.' :=
        hc.resolve_right fun hdigit => numberRule_scan_digit hdigit rest hnone
      subst hpoint
      obtain ⟨rfl, hsymbol⟩ := hsingle (.inl rfl) h
      show State.scan lexicon.slots.symbol (.number numberRule) ('.' :: after) = _
      rw [State.scan, numberRule_scan_point hafter]
      exact hsymbol
  | word =>
    cases h
    exact congrArg Except.ok (State.scanWord_append rfl c rest hafter)
  | whitespace =>
    cases h
    exact (hwhitespace rfl).elim
  | symbol =>
    cases h
    exact congrArg Except.ok (State.scanSymbol_append rfl rfl (scanSymbol_ne_nil c rest) hafter)

/-- A character is read by the state that it leads to. -/
theorem scan_iff {c : Char} {rest : List Char} {state : State} {lexeme : Lexeme}
    (hroute : lexicon.routes.get? c = some state) : lexicon.scan c rest = .ok lexeme ↔
      state.scan lexicon.slots.symbol (c :: rest) = .ok lexeme := by
  rw [Rules.scan, hroute]
  dsimp only
  cases hscan : state.scan lexicon.slots.symbol (c :: rest) with
  | error fault => simp
  | ok read =>
    have hne := state_scan_ne_nil (leads_of_route hroute) hscan
    dsimp only
    rw [if_neg (by rwa [List.isEmpty_iff])]

/-- A token of an expression, seen apart from the text around it: it is what is read in front of a
space or nothing, and it begins with a character that is no whitespace itself. -/
structure Stands (kind : TokenKind) (chars : List Char) : Prop where
  visible : kind ≠ .whitespace ∧ kind ≠ .comment ∧ kind ≠ .eof
  scan : ∃ c rest, chars = c :: rest ∧ CharMap.controlsAndSpace.holds c = false ∧
    ∀ after, SpaceAhead after → lexicon.scan c (rest ++ after) = .ok ⟨kind, chars⟩

/-- What is read and is no whitespace and no comment is read in front of a space as well. -/
theorem stands_of_scan {c : Char} {rest : List Char} {lexeme : Lexeme}
    (h : lexicon.scan c rest = .ok lexeme) (hwhitespace : lexeme.kind ≠ .whitespace)
    (hcomment : lexeme.kind ≠ .comment) : Stands lexeme.kind lexeme.chars := by
  have heof := (lacksEof_lexicon.of_scan h).2
  have hvisible : CharMap.controlsAndSpace.holds c = false := by
    rw [Bool.eq_false_iff]
    intro hblank
    cases (scan_iff (route_of_blank hblank)).mp h
    exact hwhitespace rfl
  refine ⟨⟨hwhitespace, hcomment, heof⟩, ?_⟩
  cases hroute : lexicon.routes.get? c with
  | none =>
    rw [Rules.scan, hroute] at h
    cases h
    exact ⟨c, [], rfl, hvisible, fun after _ => by rw [Rules.scan, hroute]⟩
  | some state =>
    have hleads := leads_of_route hroute
    have hread := (scan_iff hroute).mp h
    obtain ⟨more, hmore⟩ := State.scan_isPrefix hread
    cases hchars : lexeme.chars with
    | nil => exact (state_scan_ne_nil hleads hread hchars).elim
    | cons d chars =>
      rw [hchars] at hmore
      obtain ⟨rfl, rfl⟩ := List.cons.inj hmore
      refine ⟨d, chars, rfl, hvisible, fun after hafter => ?_⟩
      have hagain := state_scan_append hleads hread hwhitespace hcomment hafter
      rw [hchars, List.cons_append] at hagain
      rw [(scan_iff hroute).mpr hagain, ← hchars]

end Expr

end Formulary
