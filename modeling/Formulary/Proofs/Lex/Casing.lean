import Formulary.Proofs.Lex.Polishing
import Formulary.Proofs.Text.Casing

/-!
# Dividing a text without regard to case

If the states of a tokenizer treat the two cases of a letter alike, they divide a text and the same
text in small letters at the same places into tokens of the same kinds. A quote must not be a
letter, or a letter of the other case would not close its string, and the symbols must have no
letters.
-/

namespace Formulary

def Lexeme.lower (lexeme : Lexeme) : Lexeme := ⟨lexeme.kind, lexeme.chars.map Char.toLower⟩

def Token.lower (token : Token) : Token :=
  { token with text := String.ofList (token.text.toList.map Char.toLower) }

variable {cs : List Char}

namespace NumberRule

theorem minus_map_toLower (cs : List Char) :
    minus (cs.map Char.toLower) = (minus cs).map Char.toLower := by
  cases cs with
  | nil => rfl
  | cons c rest =>
    by_cases hminus : c = '-'
    · subst hminus
      rfl
    · have hminus' : c.toLower ≠ '-' := (toLower_eq_iff rfl).not.mpr hminus
      simp [minus, hminus, hminus']

theorem fraction_map_toLower (cs : List Char) :
    fraction (cs.map Char.toLower) = (fraction cs).map Char.toLower := by
  cases cs with
  | nil => rfl
  | cons c rest =>
    by_cases hpoint : c = '.'
    · subst hpoint
      show fraction ('.' :: rest.map Char.toLower) = _
      rw [fraction, fraction, takeWhile_map_toLower isDigit_toLower, List.isEmpty_map]
      split <;> rfl
    · have hpoint' : c.toLower ≠ '.' := (toLower_eq_iff rfl).not.mpr hpoint
      simp [fraction, hpoint, hpoint']

theorem powerSign_map_toLower (cs : List Char) :
    powerSign (cs.map Char.toLower) = (powerSign cs).map Char.toLower := by
  cases cs with
  | nil => rfl
  | cons c rest =>
    rw [List.map_cons, powerSign, powerSign, beq_toLower rfl, beq_toLower rfl]
    split <;> rfl

theorem power_map_toLower (cs : List Char) :
    power (cs.map Char.toLower) = (power cs).map Char.toLower := by
  cases cs with
  | nil => rfl
  | cons e rest =>
    rw [List.map_cons, power_cons, power_cons, isMark_toLower, powerSign_map_toLower,
      List.length_map, ← List.map_drop, takeWhile_map_toLower isDigit_toLower]
    dsimp only
    rw [List.isEmpty_map]
    split
    · split
      · rfl
      · rw [List.map_append, List.map_cons]
    · rfl

/-- A number is found alike in either case. -/
theorem scan_map_toLower (rule : NumberRule) (cs : List Char) :
    rule.scan (cs.map Char.toLower) =
      (rule.scan cs).map fun found => (found.1, found.2.map Char.toLower) := by
  have hsign : (if rule.sign then minus (cs.map Char.toLower) else []) =
      (if rule.sign then minus cs else []).map Char.toLower := by
    split
    · exact minus_map_toLower cs
    · rfl
  have hpower (cs : List Char) : (if rule.exponent then power (cs.map Char.toLower) else []) =
      (if rule.exponent then power cs else []).map Char.toLower := by
    split
    · exact power_map_toLower cs
    · rfl
  rw [scan, scan]
  simp only [hsign, hpower, List.length_map, ← List.map_drop,
    takeWhile_map_toLower isDigit_toLower, fraction_map_toLower, List.isEmpty_map,
    apply_ite (Option.map _), Option.map_none, Option.map_some, List.map_append]

end NumberRule

theorem Quoted.close?_map_toLower {quote : Char} (hquote : quote.isAlpha = false) (cs : List Char) :
    close? quote (cs.map Char.toLower) = (close? quote cs).map (List.map Char.toLower) := by
  have hsame : quote.toLower = quote := (toLower_eq_iff hquote).mpr rfl
  fun_induction close? quote cs with
  | case1 => rfl
  | case2 => simp [close?, hsame]
  | case3 c hc => simp [close?, toLower_eq_iff hquote, hc]
  | case4 rest ih =>
    rw [List.map_cons, List.map_cons, hsame, close?, if_pos rfl, if_pos rfl, ih]
    cases close? quote rest <;> simp [hsame]
  | case5 d rest hd => simp [close?, hsame, toLower_eq_iff hquote, hd]
  | case6 c d rest hc ih =>
    rw [List.map_cons, List.map_cons, close?, if_neg ((toLower_eq_iff hquote).not.mpr hc)]
    rw [List.map_cons] at ih
    rw [ih]
    cases close? quote (d :: rest) <;> rfl

namespace Comment

def Opening.lower : Opening → Opening
  | none => none
  | comment text => comment (text.map Char.toLower)
  | unterminated => unterminated

theorem line_map_toLower (cs : List Char) :
    line (cs.map Char.toLower) = (line cs).map Char.toLower := by
  refine takeWhile_map_toLower (fun c => ?_) cs
  rw [bne, bne, beq_toLower rfl, beq_toLower rfl]
  rfl

theorem close?_map_toLower (cs : List Char) :
    close? (cs.map Char.toLower) = (close? cs).map (List.map Char.toLower) := by
  fun_induction close? cs with
  | case1 => rfl
  | case2 => rfl
  | case3 c d rest hmark =>
    obtain ⟨rfl, rfl⟩ := hmark
    rfl
  | case4 c d rest hmark ih =>
    have hmark' : ¬ (c.toLower = '*' ∧ d.toLower = '/') := by
      rwa [toLower_eq_iff rfl, toLower_eq_iff rfl]
    rw [List.map_cons, List.map_cons, close?, if_neg hmark']
    rw [List.map_cons] at ih
    rw [ih]
    cases close? (d :: rest) <;> rfl

/-- A comment is found alike in either case. -/
theorem scan_map_toLower (style : CommentStyle) (cs : List Char) :
    scan style (cs.map Char.toLower) = (scan style cs).lower := by
  have hline (cs : List Char) :
      Opening.comment (line (cs.map Char.toLower)) = (Opening.comment (line cs)).lower :=
    congrArg Opening.comment (line_map_toLower cs)
  by_cases hstyle : style = .line
  · rw [hstyle]
    exact hline cs
  · match cs with
    | [] => cases style <;> rfl
    | [c] => cases style <;> simp_all [scan, Opening.lower]
    | c :: d :: rest =>
      by_cases hopens : c = '/' ∧ (d = '/' ∨ d = '*')
      · obtain ⟨rfl, rfl | rfl⟩ := hopens
        · cases style with
          | line => exact (hstyle rfl).elim
          | lineAndBlock => exact hline ('/' :: '/' :: rest)
          | block => rfl
        · show scan style ('/' :: '*' :: rest.map Char.toLower) = _
          rw [scan_block hstyle, scan_block hstyle, close?_map_toLower]
          cases close? rest <;> rfl
      · have hopens' : ¬ (c.toLower = '/' ∧ (d.toLower = '/' ∨ d.toLower = '*')) := by
          rwa [toLower_eq_iff rfl, toLower_eq_iff rfl, toLower_eq_iff rfl]
        rw [scan_none hstyle hopens]
        exact scan_none hstyle hopens' (rest.map Char.toLower)

end Comment

/-! Symbols and words -/

/-- Symbols without letters are found alike in either case. -/
theorem SymbolTree.longestFrom?_map_toLower {tree : SymbolTree}
    (h : tree.avoids Char.isAlpha = true) (i : Nat) (cs : List Char) :
    tree.longestFrom? i (cs.map Char.toLower) = tree.longestFrom? i cs := by
  induction cs generalizing i with
  | nil => rfl
  | cons c rest ih =>
    have hchild : tree.child? i c.toLower = tree.child? i c :=
      toLower_congr (tree.child? i) (fun d hd => child?_eq_none_of_avoids h hd i) c
    rw [List.map_cons, longestFrom?, longestFrom?, hchild]
    cases hbelow : tree.child? i c with
    | none => rfl
    | some below =>
      dsimp only
      rw [ih]

namespace State

theorem scanSymbol_map_toLower {tree : SymbolTree} (h : tree.avoids Char.isAlpha = true)
    (cs : List Char) : scanSymbol tree (cs.map Char.toLower) = (scanSymbol tree cs).lower := by
  cases cs with
  | nil => rfl
  | cons c rest =>
    have hlongest : SymbolTree.longest? ((c :: rest).map Char.toLower) tree =
        SymbolTree.longest? (c :: rest) tree := SymbolTree.longestFrom?_map_toLower h 0 (c :: rest)
    rw [List.map_cons] at hlongest ⊢
    unfold scanSymbol SymbolTree.next?
    dsimp only
    rw [hlongest]
    cases SymbolTree.longest? (c :: rest) tree with
    | none => rfl
    | some found => simp only [Lexeme.lower, List.map_take, List.map_cons]

theorem scanWord_map_toLower {rule : WordRule}
    (h : ∀ c : Char, rule.chars.holds c.toLower = rule.chars.holds c) (cs : List Char) :
    scanWord rule (cs.map Char.toLower) = (scanWord rule cs).lower := by
  cases cs with
  | nil => rfl
  | cons c rest =>
    simp only [List.map_cons, scanWord, takeWhile_map_toLower h, Lexeme.lower]
    rw [← List.map_cons, Text.isOneOf_map_toLower]

/-- Whether a state treats the two cases of a letter alike in a text that begins with `c`. -/
def IgnoresCase (c : Char) : State → Prop
  | symbol tree => tree.avoids Char.isAlpha = true
  | number _ | comment _ => True
  | quote => c.isAlpha = false
  | whitespace chars => ∀ d : Char, chars.holds d.toLower = chars.holds d
  | word rule => ∀ d : Char, rule.chars.holds d.toLower = rule.chars.holds d

/-- A state that ignores case reads the same token in small letters. -/
theorem scan_map_toLower {symbols : Option SymbolTree} {state : State} {c : Char}
    (hslot : ∀ tree ∈ symbols, tree.avoids Char.isAlpha = true) (h : state.IgnoresCase c)
    (rest : List Char) : state.scan symbols (c.toLower :: rest.map Char.toLower) =
      (state.scan symbols (c :: rest)).map Lexeme.lower := by
  rw [← List.map_cons]
  have hany : scanAnySymbol symbols ((c :: rest).map Char.toLower) =
      (scanAnySymbol symbols (c :: rest)).map Lexeme.lower := by
    cases symbols with
    | none => rfl
    | some tree => exact congrArg Except.ok (scanSymbol_map_toLower (hslot tree rfl) (c :: rest))
  cases state with
  | symbol tree => exact congrArg Except.ok (scanSymbol_map_toLower h (c :: rest))
  | number rule =>
    rw [scan, scan, NumberRule.scan_map_toLower]
    cases rule.scan (c :: rest) with
    | none => exact hany
    | some found => rfl
  | quote =>
    rw [scan, scan, List.map_cons, Quoted.scan?, Quoted.scan?, (toLower_eq_iff h).mpr rfl,
      Quoted.close?_map_toLower h]
    cases Quoted.close? c rest with
    | none => rfl
    | some chars =>
      simp only [Option.map_some, Except.map, Lexeme.lower, List.map_cons,
        (toLower_eq_iff h).mpr rfl]
  | whitespace chars =>
    exact congrArg (Except.ok ∘ Lexeme.mk .whitespace) (takeWhile_map_toLower h (c :: rest))
  | word rule => exact congrArg Except.ok (scanWord_map_toLower h (c :: rest))
  | comment style =>
    rw [scan, scan, Comment.scan_map_toLower]
    cases Comment.scan style (c :: rest) with
    | none => exact hany
    | comment text => rfl
    | unterminated => rfl

end State

/-- Rules whose states treat the two cases of a letter alike, wherever they are used. -/
structure Rules.IgnoresCase (rules : Rules) : Prop where
  routes : ∀ c : Char, rules.routes.get? c.toLower = rules.routes.get? c
  slot : ∀ tree ∈ rules.slots.symbol, tree.avoids Char.isAlpha = true
  states : ∀ c state, rules.routes.get? c = some state → state.IgnoresCase c

/-- Rules that ignore case read the same token in small letters. -/
theorem Rules.IgnoresCase.scan_map_toLower {rules : Rules} (h : rules.IgnoresCase) (c : Char)
    (rest : List Char) : rules.scan c.toLower (rest.map Char.toLower) =
      (rules.scan c rest).map Lexeme.lower := by
  unfold scan
  rw [h.routes]
  cases hroute : rules.routes.get? c with
  | none => rfl
  | some state =>
    dsimp only
    rw [State.scan_map_toLower h.slot (h.states c state hroute)]
    cases state.scan rules.slots.symbol (c :: rest) with
    | error fault => rfl
    | ok lexeme =>
      refine congrArg Except.ok ?_
      rw [Lexeme.lower, List.isEmpty_map]
      split <;> rfl

/-! Cursors -/

namespace Cursor

def lower (cursor : Cursor) : Cursor :=
  ⟨cursor.behind.map fun passed => (passed.1.toLower, passed.2), cursor.ahead.map Char.toLower⟩

theorem placeAfter_toLower (p : Position) (before : Option Char) (c : Char)
    (after : Option Char) :
    placeAfter p (before.map Char.toLower) c.toLower (after.map Char.toLower) =
      placeAfter p before c after := by
  have hoption (neighbour : Option Char) :
      (neighbour.map Char.toLower != some '
') = (neighbour != some '
') := by
    cases neighbour with
    | none => rfl
    | some d => exact congrArg (!·) (beq_toLower rfl d)
  unfold placeAfter endsLine
  rw [beq_toLower rfl, beq_toLower rfl, hoption, hoption]

theorem nextPlace_lower (cursor : Cursor) : cursor.lower.nextPlace = cursor.nextPlace := by
  obtain ⟨behind, ahead⟩ := cursor
  have hplace : (lower ⟨behind, ahead⟩).place = place ⟨behind, ahead⟩ := by
    cases behind <;> rfl
  have hlast : (lower ⟨behind, ahead⟩).last? = (last? ⟨behind, ahead⟩).map Char.toLower := by
    cases behind <;> rfl
  cases ahead with
  | nil =>
    show Position.mk (lower ⟨behind, []⟩).place.line _ = _
    rw [hplace]
    rfl
  | cons c rest =>
    show placeAfter (lower ⟨behind, c :: rest⟩).place (lower ⟨behind, c :: rest⟩).last? c.toLower
      (rest.map Char.toLower).head? = _
    rw [hplace, hlast, List.head?_map]
    exact placeAfter_toLower ..

theorem skip_lower (cursor : Cursor) (n : Nat) : cursor.lower.skip n = (cursor.skip n).lower := by
  induction n generalizing cursor with
  | zero => rfl
  | succ n ih =>
    have hend : cursor.lower.atEnd = cursor.atEnd := List.isEmpty_map
    rw [skip, skip, hend]
    split
    · rfl
    · rw [← ih]
      congr 1
      have hplace := nextPlace_lower cursor
      obtain ⟨behind, ahead⟩ := cursor
      cases ahead with
      | nil => rfl
      | cons c rest =>
        show Cursor.mk ((c.toLower, _) :: _) _ = _
        rw [hplace]
        rfl

end Cursor

namespace Rules

variable {rules : Rules}

/-- A text in small letters is divided as the text itself. -/
theorem IgnoresCase.divide_lower (h : rules.IgnoresCase) (cursor : Cursor) :
    rules.divide cursor.lower = (rules.divide cursor).map (List.map Token.lower) := by
  induction cursor using divide.induct rules with
  | case1 cursor hahead =>
    have hlower : cursor.lower.ahead = [] := congrArg (List.map Char.toLower) hahead
    rw [divide_of_end hahead, divide_of_end hlower, Cursor.nextPlace_lower]
    rfl
  | case2 cursor c rest hahead fault hscan =>
    have hlower : cursor.lower.ahead = c.toLower :: rest.map Char.toLower :=
      congrArg (List.map Char.toLower) hahead
    have hfault : rules.scan c.toLower (rest.map Char.toLower) = .error fault := by
      rw [h.scan_map_toLower, hscan]
      rfl
    rw [divide_of_fault hahead hscan, divide_of_fault hlower hfault, Cursor.nextPlace_lower]
    rfl
  | case3 cursor c rest hahead lexeme hscan ih =>
    have hlower : cursor.lower.ahead = c.toLower :: rest.map Char.toLower :=
      congrArg (List.map Char.toLower) hahead
    have hlexeme : rules.scan c.toLower (rest.map Char.toLower) = .ok lexeme.lower := by
      rw [h.scan_map_toLower, hscan]
      rfl
    have hlength : lexeme.lower.chars.length = lexeme.chars.length := List.length_map _
    rw [divide_of_scan hahead hscan, divide_of_scan hlower hlexeme, Cursor.nextPlace_lower,
      hlength, Cursor.skip_lower, ih]
    cases rules.divide (cursor.skip lexeme.chars.length) with
    | error e => rfl
    | ok tokens =>
      refine congrArg Except.ok ?_
      rw [List.map_cons, Token.lower, String.toList_ofList]
      rfl

end Rules

end Formulary
