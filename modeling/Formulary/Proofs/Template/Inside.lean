import Formulary.Proofs.Lex.Scanning
import Formulary.Proofs.Template.Lexing
import Formulary.Proofs.Text.Casing
import Mathlib

/-!
# What the rules inside tags find

Brackets are found whole because the longest of them is taken and no third brace stands behind a
pair. Marks are symbols of one character. A name is found whole because neither a blank nor a brace
goes on with it, and the names of helpers are names.
-/

namespace Formulary.Template

/-! Brackets and marks -/

def brackets : SymbolTree :=
  .ofList [openBrackets, closeBrackets, openRawBrackets, closeRawBrackets]

variable {c : Char}

/-- Below the root stand three braces of a sort one below the other, and nothing else below the
second and the third. -/
theorem nodes_brackets (hbrace : c = '\x7b' ∨ c = '\x7d') : ∃ one two three,
    brackets.child? 0 c = some one ∧ brackets.child? one c = some two ∧
      brackets.node two = ⟨one, [(c, three)], some .symbol⟩ ∧
      brackets.node three = ⟨two, [], some .symbol⟩ := by
  rcases hbrace with rfl | rfl
  · exact ⟨1, 2, 5, rfl, rfl, rfl, rfl⟩
  · exact ⟨3, 4, 6, rfl, rfl, rfl, rfl⟩

theorem longest?_pair (hbrace : c = '\x7b' ∨ c = '\x7d') {rest : List Char}
    (hrest : rest.head? ≠ some c) : brackets.longest? (c :: c :: rest) = some (.symbol, 2) := by
  obtain ⟨one, two, three, hone, htwo, hnode, -⟩ := nodes_brackets hbrace
  have hstop : brackets.longestFrom? two rest = some (.symbol, 0) := by
    cases rest with
    | nil => rw [SymbolTree.longestFrom?, SymbolNodes.kind?, hnode]; rfl
    | cons d more =>
      have hne : (d == c) = false := by simpa using hrest
      simp [SymbolTree.longestFrom?, SymbolNodes.child?, SymbolNodes.kind?, hnode, List.lookup_cons,
        hne]
  simp [SymbolTree.longest?, SymbolTree.longestFrom?, hone, htwo, hstop]

theorem longest?_triple (hbrace : c = '\x7b' ∨ c = '\x7d') (rest : List Char) :
    brackets.longest? (c :: c :: c :: rest) = some (.symbol, 3) := by
  obtain ⟨one, two, three, hone, htwo, hnode, hlast⟩ := nodes_brackets hbrace
  have hthree : brackets.child? two c = some three := by simp [SymbolNodes.child?, hnode]
  have hstop : brackets.longestFrom? three rest = some (.symbol, 0) := by
    cases rest <;> simp [SymbolTree.longestFrom?, SymbolNodes.child?, SymbolNodes.kind?, hlast]
  simp [SymbolTree.longest?, SymbolTree.longestFrom?, hone, htwo, hthree, hstop]

theorem scan_brackets {rest : List Char} {n : Nat} (hbrace : c = '\x7b' ∨ c = '\x7d')
    (hlongest : brackets.longest? (c :: c :: rest) = some (.symbol, n + 1)) :
    lexicon.scan c (c :: rest) = .ok ⟨.symbol, (c :: c :: rest).take (n + 1)⟩ := by
  have hroute : lexicon.routes.get? c = some (.symbol brackets) := by
    rcases hbrace with rfl | rfl <;> rfl
  rw [Rules.scan, hroute]
  dsimp only [State.scan]
  rw [State.scanSymbol, SymbolTree.next?, hlongest]
  rfl

theorem finds_pair {rest : List Char} (hbrace : c = '\x7b' ∨ c = '\x7d')
    (hrest : rest.head? ≠ some c) :
    Finds (c :: c :: rest) (.symbol, String.ofList [c, c]) rest :=
  finds_of_scan (scan_brackets hbrace (longest?_pair hbrace hrest)) rfl (.inr rfl)

theorem finds_triple (hbrace : c = '\x7b' ∨ c = '\x7d') (rest : List Char) :
    Finds (c :: c :: c :: rest) (.symbol, String.ofList [c, c, c]) rest :=
  finds_of_scan (scan_brackets hbrace (longest?_triple hbrace rest)) rfl (.inr rfl)

variable {rest : List Char} {contents : List (TokenKind × String)}

theorem splits_open (hrest : rest.head? ≠ some '\x7b') (others : Splits .opened rest contents) :
    Splits .text ('\x7b' :: '\x7b' :: rest) ((.symbol, openBrackets) :: contents) :=
  .token (fun _ => rfl) nofun (finds_pair (.inl rfl) hrest) others

theorem splits_openRaw (others : Splits .opened rest contents) :
    Splits .text ('\x7b' :: '\x7b' :: '\x7b' :: rest) ((.symbol, openRawBrackets) :: contents) :=
  .token (fun _ => rfl) nofun (finds_triple (.inl rfl) rest) others

theorem splits_close (hrest : rest.head? ≠ some '\x7d') (others : Splits .text rest contents) :
    Splits .inside ('\x7d' :: '\x7d' :: rest) ((.symbol, closeBrackets) :: contents) :=
  .token nofun nofun (finds_pair (.inr rfl) hrest) others

theorem splits_closeRaw (others : Splits .text rest contents) :
    Splits .inside ('\x7d' :: '\x7d' :: '\x7d' :: rest) ((.symbol, closeRawBrackets) :: contents) :=
  .token nofun nofun (finds_triple (.inr rfl) rest) others

theorem splits_mark {c : Char} (hmark : c = '#' ∨ c = '^' ∨ c = '/' ∨ c = '>')
    (others : Splits .inside rest contents) :
    Splits .opened (c :: rest) ((.symbol, String.ofList [c]) :: contents) := by
  rcases hmark with rfl | rfl | rfl | rfl
  all_goals exact .token nofun (fun _ => nofun) (finds_of_scan rfl rfl (.inr rfl)) others

/-! Names -/

def nameRule : WordRule := ⟨CharMap.wordChars.insert '.' true, []⟩

/-- The routes of the rules inside tags, one range after the other. -/
theorem routes_eq : lexicon.routes = (CharMap.empty
    |>.insertRange (Char.ofNat 0) CharMap.lastChar (.symbol brackets)
    |>.insertRange (Char.ofNat 0) ' ' (.whitespace .controlsAndSpace)
    |>.insertRange 'a' 'z' (.word nameRule)
    |>.insertRange 'A' 'Z' (.word nameRule)
    |>.insertRange '0' '9' (.word nameRule)
    |>.insertRange '_' '_' (.word nameRule)
    |>.insertRange '.' '.' (.word nameRule)
    |>.insertRange firstWideLetter CharMap.lastChar (.word nameRule)
    |>.insertRange '\x22' '\x22' .quote
    |>.insertRange '\x27' '\x27' .quote) := rfl

/-- What a character leads to. Blanks and the mark of a comment do not lead to names. -/
theorem of_route {c : Char} {state : State} (h : lexicon.routes.get? c = some state) :
    (state = .word nameRule ∧ '!' < c) ∨ state = .quote ∨
      state = .whitespace .controlsAndSpace ∨ state = .symbol brackets := by
  have hwide : firstWideLetter.toNat = 192 := rfl
  rw [routes_eq] at h
  simp only [CharMap.get?_insertRange, CharMap.get?_empty, Char.reduceToNat, hwide] at h
  simp only [CharRange.lt_iff, Char.reduceToNat]
  split_ifs at h <;> cases h
  all_goals first
    | exact .inl ⟨rfl, by omega⟩
    | exact .inr (.inl rfl)
    | exact .inr (.inr (.inl rfl))
    | exact .inr (.inr (.inr rfl))

theorem kind_brackets (cs : List Char) : (State.scanSymbol brackets cs).kind = .symbol := by
  unfold State.scanSymbol
  split
  · next hnext =>
    have hkinds : brackets.kinds = List.replicate 6 .symbol := rfl
    rcases (SymbolTree.of_next? hnext).2 with hkind | hkind
    · rw [hkinds] at hkind
      simpa using hkind
    · exact hkind
  · rfl

/-- Only the rule of names reads words. -/
theorem route_of_scan {c : Char} {chars : List Char} {lexeme : Lexeme}
    (h : lexicon.scan c chars = .ok lexeme) (hword : lexeme.kind = .word) :
    lexicon.routes.get? c = some (.word nameRule) ∧ '!' < c := by
  unfold Rules.scan at h
  split at h
  · cases h
    cases hword
  · next state hroute =>
    split at h
    · cases h
    · next scanned hscan =>
      cases h
      have hkind : scanned.kind = .word := by
        split at hword
        · cases hword
        · exact hword
      rcases of_route hroute with ⟨rfl, hmark⟩ | rfl | rfl | rfl
      · exact ⟨hroute, hmark⟩
      · rw [State.scan] at hscan
        split at hscan <;> cases hscan
        cases hkind
      · cases hscan
        cases hkind
      · cases hscan
        rw [kind_brackets] at hkind
        cases hkind

/-- A name is read up to the first character that does not go on with it. -/
theorem scan_name {c : Char} {chars : List Char}
    (h : lexicon.scan c chars = .ok ⟨.word, c :: chars⟩) {rest : List Char}
    (hrest : ∀ d ∈ rest.head?, nameRule.chars.holds d = false) :
    lexicon.scan c (chars ++ rest) = .ok ⟨.word, c :: chars⟩ := by
  have hroute := (route_of_scan h rfl).1
  have hscan (more : List Char) : lexicon.scan c more =
      .ok ⟨.word, c :: more.takeWhile nameRule.chars.holds⟩ := by
    rw [Rules.scan, hroute]
    rfl
  rw [hscan] at h
  have hchars : chars.takeWhile nameRule.chars.holds = chars := by
    simpa using h
  have hstop : rest.takeWhile nameRule.chars.holds = [] := by
    cases rest with
    | nil => rfl
    | cons d more => rw [List.takeWhile_cons, hrest d rfl]; rfl
  rw [hscan, List.takeWhile_append, if_pos (by rw [hchars]), hstop, List.append_nil]

/-! Names of helpers -/

theorem route_of_isAlpha {c : Char} (h : c.isAlpha = true) :
    lexicon.routes.get? c = some (.word nameRule) ∧ nameRule.chars.holds c = true := by
  have hcode := isAlpha_iff.mp h
  have hwide : firstWideLetter.toNat = 192 := rfl
  rw [routes_eq]
  simp only [CharMap.holds, nameRule, CharMap.wordChars, CharMap.insert, CharMap.get?_insertRange,
    Char.reduceToNat, hwide]
  grind

/-- A word of letters is a name. -/
theorem isName_of_letters {name : String} (hne : name.toList ≠ [])
    (h : ∀ c ∈ name.toList, c.isAlpha = true) : IsName name := by
  cases hname : name.toList with
  | nil => exact (hne hname).elim
  | cons c chars =>
    rw [hname] at h
    have hroute := (route_of_isAlpha (h c List.mem_cons_self)).1
    have hchars : chars.takeWhile nameRule.chars.holds = chars :=
      List.takeWhile_eq_self_iff.mpr fun d hd =>
        (route_of_isAlpha (h d (List.mem_cons_of_mem c hd))).2
    refine ⟨c, chars, hname, ?_⟩
    rw [Rules.scan, hroute]
    dsimp only [State.scan, State.scanWord]
    rw [hchars]
    rfl

/-- The names of helpers are names. -/
theorem isName_of_helper {helper : String} {inverted : Bool}
    (h : Tag.helper? helper = some inverted) : IsName helper := by
  have hspelled : ∃ word : String, (word = "if" ∨ word = "unless") ∧
      helper.toList.map Char.toLower = word.toList.map Char.toLower := by
    unfold Tag.helper? at h
    split at h
    · next hif => exact ⟨"if", .inl rfl, (beq_iff_eq.mp hif).symm⟩
    split at h
    · next hunless => exact ⟨"unless", .inr rfl, (beq_iff_eq.mp hunless).symm⟩
    · cases h
  obtain ⟨word, hword, hspelled⟩ := hspelled
  have hlower : (word.toList.map Char.toLower).all Char.isLower = true := by
    rcases hword with rfl | rfl <;> rfl
  refine isName_of_letters ?_ ?_
  · intro hempty
    rw [hempty] at hspelled
    rcases hword with rfl | rfl <;> simp at hspelled
  · intro c hc
    have hmem : c.toLower ∈ word.toList.map Char.toLower := by
      rw [← hspelled]
      exact List.mem_map_of_mem hc
    rw [← Char.isLower_toLower_eq_isAlpha]
    exact List.all_eq_true.mp hlower _ hmem

/-! Names in their places -/

namespace IsName

variable {name : String}

theorem head (h : IsName name) : ∃ c chars, name.toList = c :: chars ∧ '!' < c ∧
    c ≠ '\x7b' ∧ c ≠ '\x7d' := by
  obtain ⟨c, chars, hname, hscan⟩ := h
  obtain ⟨hroute, hmark⟩ := route_of_scan hscan rfl
  refine ⟨c, chars, hname, hmark, ?_, ?_⟩
  · rintro rfl
    exact State.noConfusion (Option.some.inj hroute)
  · rintro rfl
    exact State.noConfusion (Option.some.inj hroute)

/-- A name in front of a bracket or a space is read as one word. -/
theorem finds (h : IsName name) (hrest : rest.head? = some '\x7d' ∨ rest.head? = some ' ') :
    Finds (name.toList ++ rest) (.word, name) rest := by
  obtain ⟨c, chars, hname, hscan⟩ := h
  have hstop : ∀ d ∈ rest.head?, nameRule.chars.holds d = false := by
    rcases hrest with hrest | hrest
    all_goals
      rw [hrest]
      rintro d ⟨⟩
      rfl
  have hfinds := finds_of_scan (scan_name hscan hstop) (List.cons_append ..).symm (.inl rfl)
  rw [← hname, String.ofList_toList] at hfinds
  rw [hname]
  exact hfinds

theorem behind (h : IsName name) : Mode.behind name = .inside := by
  obtain ⟨c, chars, hname, -, hopen, hclose⟩ := h.head
  rw [Mode.behind, if_neg, if_neg]
  · rintro (rfl | rfl)
    · exact hopen (List.cons.inj hname).1.symm
    · exact hopen (List.cons.inj hname).1.symm
  · rintro (rfl | rfl)
    · exact hclose (List.cons.inj hname).1.symm
    · exact hclose (List.cons.inj hname).1.symm

theorem splits_behind (h : IsName name) (others : Splits .inside rest contents) :
    Splits (Mode.behind name) rest contents := by
  rw [h.behind]
  exact others

theorem splits {mode : Mode} (h : IsName name) (hmode : mode ≠ .text)
    (hrest : rest.head? = some '\x7d' ∨ rest.head? = some ' ')
    (others : Splits .inside rest contents) :
    Splits mode (name.toList ++ rest) ((.word, name) :: contents) := by
  obtain ⟨c, chars, hname, hmark, -⟩ := h.head
  have hhead : (name.toList ++ rest).head? ≠ some '!' := by
    rw [hname]
    rintro ⟨⟩
    exact absurd hmark (by decide)
  exact .token (fun htext => (hmode htext).elim) (fun _ => hhead) (h.finds hrest)
    (h.splits_behind others)

theorem splits_blank (h : IsName name)
    (hrest : rest.head? = some '\x7d' ∨ rest.head? = some ' ')
    (others : Splits .inside rest contents) :
    Splits .inside (' ' :: (name.toList ++ rest)) ((.word, name) :: contents) := by
  obtain ⟨c, chars, hname, hmark, -⟩ := h.head
  have hblank : CharMap.controlsAndSpace.holds c = false := by
    have hspace : ¬ c.toNat ≤ 32 := by
      simp only [CharRange.lt_iff, Char.reduceToNat] at hmark
      omega
    simp [CharMap.holds, CharMap.controlsAndSpace, CharMap.get?_insertRange, CharMap.get?_empty,
      hspace]
  have hfinds : Finds (' ' :: (name.toList ++ rest)) (.word, name) rest := by
    have hfinds := h.finds hrest
    rw [hname] at hfinds ⊢
    exact finds_blank hblank hfinds
  exact .token (fun hmode => by cases hmode) (fun hmode => by cases hmode) hfinds
    (h.splits_behind others)

end IsName

end Formulary.Template
