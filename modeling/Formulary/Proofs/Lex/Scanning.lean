import Formulary.Lex.Rules

/-!
# What a lexical state takes

Whatever a state answers with stands at the front of the text that it was given: numbers that are
put together from their parts, strings with their quotes, comments with their marks, and symbols
that are found on the way back from a longer beginning. The kinds of the symbols are those that
were registered.
-/

namespace Formulary

variable {cs chars : List Char}

namespace CharMap

variable {α : Type} {map : CharMap α}

/-- The ranges of a map: every entry of the table as a range of one character, and the ranges beyond
the table. -/
def ranges (map : CharMap α) : List (CharRange α) :=
  (List.finRange 0x100).filterMap (fun code => (map.table code).map fun value =>
    ⟨Char.ofNat code, Char.ofNat code, value⟩) ++ map.wide

theorem mem_ranges {range : CharRange α} : range ∈ map.ranges ↔
    (∃ code value, map.table code = some value ∧
      range = ⟨Char.ofNat code, Char.ofNat code, value⟩) ∨ range ∈ map.wide := by
  simp only [ranges, List.mem_append, List.mem_filterMap, List.mem_finRange, true_and,
    Option.map_eq_some_iff, eq_comm (a := range)]

theorem ranges_empty : (empty : CharMap α).ranges = [] := by
  simp [ranges, empty]

/-- A value is that of a range. -/
theorem exists_range_of_get? {c : Char} {value : α} (h : map.get? c = some value) :
    ∃ range ∈ map.ranges, range.value = value := by
  unfold get? at h
  split at h
  · next hc => exact ⟨_, mem_ranges.mpr (.inl ⟨⟨c.toNat, hc⟩, value, h, rfl⟩), rfl⟩
  · obtain ⟨range, hfind, hvalue⟩ := Option.map_eq_some_iff.mp h
    exact ⟨range, mem_ranges.mpr (.inr (List.mem_of_find?_eq_some hfind)), hvalue⟩

/-- A range that is registered brings no other value than its own. -/
theorem forall_ranges_insertRange {P : α → Prop} (h : ∀ range ∈ map.ranges, P range.value)
    {value : α} (hvalue : P value) (first last : Char) :
    ∀ range ∈ (map.insertRange first last value).ranges, P range.value := by
  intro range hrange
  unfold insertRange at hrange
  split at hrange
  · exact h range hrange
  · obtain ⟨code, entry, hentry, rfl⟩ | hwide := mem_ranges.mp hrange
    · dsimp only [overwrite] at hentry
      split at hentry
      · cases hentry
        exact hvalue
      · exact h _ (mem_ranges.mpr (.inl ⟨code, entry, hentry, rfl⟩))
    · dsimp only at hwide
      split at hwide
      · exact h range (mem_ranges.mpr (.inr hwide))
      · obtain rfl | hwide := List.mem_cons.mp hwide
        · exact hvalue
        · exact h range (mem_ranges.mpr (.inr hwide))

end CharMap

namespace NumberRule

theorem scan_kind {rule : NumberRule} {kind : TokenKind}
    (h : rule.scan cs = some (kind, chars)) : kind ∈ [TokenKind.integer, .float] := by
  unfold scan at h
  extract_lets sign unsigned whole afterWhole fraction' power' kind' at h
  split at h
  · cases h
  · have hkind : kind' = kind := congrArg Prod.fst (Option.some.inj h)
    rw [← hkind]
    dsimp only [kind']
    split <;> simp

end NumberRule

theorem Quoted.close?_isPrefix {quote : Char} (h : close? quote cs = some chars) :
    chars <+: cs := by
  fun_induction close? quote cs generalizing chars with
  | case1 => cases h
  | case2 => cases h; exact List.prefix_rfl
  | case3 => cases h
  | case4 rest ih =>
    obtain ⟨closed, hclosed, rfl⟩ := Option.map_eq_some_iff.mp h
    exact (List.prefix_cons_inj _).mpr ((List.prefix_cons_inj _).mpr (ih hclosed))
  | case5 => cases h; exact ⟨_, rfl⟩
  | case6 _ _ _ _ ih =>
    obtain ⟨closed, hclosed, rfl⟩ := Option.map_eq_some_iff.mp h
    exact (List.prefix_cons_inj _).mpr (ih hclosed)

theorem Quoted.scan?_isPrefix (h : scan? cs = some chars) : chars <+: cs := by
  cases cs with
  | nil =>
    cases h
    exact List.prefix_rfl
  | cons quote rest =>
    obtain ⟨closed, hclosed, rfl⟩ := Option.map_eq_some_iff.mp h
    exact (List.prefix_cons_inj quote).mpr (close?_isPrefix hclosed)

theorem Comment.close?_isPrefix (h : close? cs = some chars) : chars <+: cs := by
  fun_induction close? cs generalizing chars with
  | case1 => cases h
  | case2 => cases h
  | case3 c d rest hmark =>
    cases h
    rw [hmark.1, hmark.2]
    exact ⟨rest, rfl⟩
  | case4 c d rest hmark ih =>
    obtain ⟨closed, hclosed, rfl⟩ := Option.map_eq_some_iff.mp h
    exact (List.prefix_cons_inj c).mpr (ih hclosed)

theorem Comment.scan_isPrefix {style : CommentStyle} (h : scan style cs = .comment chars) :
    chars <+: cs := by
  unfold scan at h
  split at h
  · cases h
    exact List.takeWhile_prefix _
  · cases h
    exact List.takeWhile_prefix _
  · split at h
    · next closed hclosed =>
      cases h
      have hbody := close?_isPrefix hclosed
      exact (List.prefix_cons_inj '/').mpr ((List.prefix_cons_inj '*').mpr hbody)
    · cases h
  · cases h

namespace Comment

/-- A text opens a block comment unless the comments are line comments alone. -/
theorem scan_block {style : CommentStyle} (hstyle : style ≠ .line) (rest : List Char) :
    scan style ('/' :: '*' :: rest) =
      (close? rest).elim .unterminated fun closed => .comment ('/' :: '*' :: closed) := by
  cases style with
  | line => exact (hstyle rfl).elim
  | _ => cases hclose : close? rest <;> simp [scan, hclose]

theorem scan_none {style : CommentStyle} (hstyle : style ≠ .line) {c d : Char}
    (h : ¬ (c = '/' ∧ (d = '/' ∨ d = '*'))) (rest : List Char) :
    scan style (c :: d :: rest) = .none := by
  have hother : ∀ mark, (mark = '/' ∨ mark = '*') → c = '/' → d ≠ mark := by
    rintro mark hmark hc rfl
    exact h ⟨hc, hmark⟩
  cases style with
  | line => exact (hstyle rfl).elim
  | _ => simp +contextual [scan, hother]

end Comment

namespace SymbolTree

variable {tree : SymbolTree}

def kinds (tree : SymbolTree) : List TokenKind := tree.table.filterMap (·.kind)

theorem mem_kinds_iff {kind : TokenKind} : kind ∈ tree.kinds ↔ ∃ i, tree.kind? i = some kind := by
  rw [kinds, List.mem_filterMap]
  constructor
  · rintro ⟨node, hmem, hkind⟩
    obtain ⟨i, hi, rfl⟩ := List.mem_iff_getElem.mp hmem
    refine ⟨i, ?_⟩
    rw [SymbolNodes.kind?, SymbolNodes.node_of_lt hi, hkind]
  · rintro ⟨i, hkind⟩
    by_cases hi : i < tree.table.length
    · refine ⟨tree.table[i], List.getElem_mem hi, ?_⟩
      rwa [SymbolNodes.kind?, SymbolNodes.node_of_lt hi] at hkind
    · rw [SymbolNodes.kind?, SymbolNodes.node_of_size_le (Nat.le_of_not_lt hi)] at hkind
      cases hkind

theorem of_own {i n : Nat} {kind : TokenKind} (h : (tree.kind? i).map (·, 0) = some (kind, n)) :
    kind ∈ tree.kinds ∧ n = 0 := by
  obtain ⟨k, hk, heq⟩ := Option.map_eq_some_iff.mp h
  cases heq
  exact ⟨mem_kinds_iff.mpr ⟨i, hk⟩, rfl⟩

theorem mem_kinds_of_longestFrom? {i n : Nat} {kind : TokenKind}
    (h : tree.longestFrom? i cs = some (kind, n)) : kind ∈ tree.kinds := by
  induction cs generalizing i n with
  | nil => exact (of_own h).1
  | cons c rest ih =>
    rw [longestFrom?] at h
    split at h
    · exact (of_own h).1
    · split at h
      · next hbelow =>
        cases h
        exact ih hbelow
      · exact (of_own h).1

/-- The longest symbol is one of the tree. -/
theorem mem_kinds_of_longest? {kind : TokenKind} {n : Nat}
    (h : longest? cs tree = some (kind, n)) : kind ∈ tree.kinds :=
  mem_kinds_of_longestFrom? h

/-- A symbol, or else a single character, stands in front of the text. -/
theorem of_next? {kind : TokenKind} (h : tree.next? cs = some (kind, chars)) :
    chars <+: cs ∧ (kind ∈ tree.kinds ∨ kind = .symbol) := by
  unfold next? at h
  split at h
  · cases h
  · next c rest =>
    split at h
    · next k n hlongest =>
      cases h
      exact ⟨List.take_prefix _ _, .inl (mem_kinds_of_longest? hlongest)⟩
    · cases h
      exact ⟨⟨rest, rfl⟩, .inr rfl⟩

/-! Characters that no symbol of a tree has -/

def avoids (p : Char → Bool) (tree : SymbolTree) : Bool :=
  tree.table.all fun node => node.children.all fun child => !p child.1

theorem child?_eq_none_of_avoids {p : Char → Bool} {c : Char} (h : tree.avoids p = true)
    (hc : p c = true) (i : Nat) : tree.child? i c = none := by
  by_cases hi : i < tree.table.length
  · rw [avoids, List.all_eq_true] at h
    have hnode := List.all_eq_true.mp (h _ (List.getElem_mem hi))
    rw [SymbolNodes.child?, SymbolNodes.node_of_lt hi, List.lookup_eq_none_iff]
    intro child hchild
    have havoids := hnode child hchild
    have hne : c ≠ child.1 := by
      rintro rfl
      rw [hc] at havoids
      cases havoids
    simpa using hne
  · rw [SymbolNodes.child?, SymbolNodes.node_of_size_le (Nat.le_of_not_lt hi)]
    rfl

/-! The kinds of a tree come from the symbols that were put into it and from single characters. -/

theorem kind?_enter {nodes : SymbolNodes} {i j : Nat} {kind : TokenKind} (hi : i < nodes.size)
    (c : Char) (h : (nodes.enter i c).1.kind? j = some kind) :
    kind = .symbol ∨ nodes.kind? j = some kind := by
  unfold SymbolNodes.enter at h
  split at h
  · exact .inr h
  · rw [SymbolNodes.kind?_link hi] at h
    split at h
    · split at h
      · exact .inl (Option.some.inj h).symm
      · cases h
    · exact .inr h

theorem kind?_spell {nodes : SymbolNodes} {i j : Nat} {kind : TokenKind}
    (hnodes : nodes.WellFormed) (hi : i < nodes.size) (symbol : List Char)
    (h : (nodes.spell i symbol).1.kind? j = some kind) :
    kind = .symbol ∨ nodes.kind? j = some kind := by
  induction symbol generalizing nodes i with
  | nil => exact .inr h
  | cons c rest ih =>
    obtain ⟨hentered, hbelow⟩ := hnodes.enter hi c
    exact (ih hentered hbelow.2 h).elim .inl (kind?_enter hi c)

/-- A new symbol adds its kind to those of a tree, and the kind of the symbols that were not
named. -/
theorem kinds_insert (tree : SymbolTree) (symbol : String) (kind : TokenKind) :
    (tree.insert symbol kind).kinds ⊆ kind :: .symbol :: tree.kinds := by
  intro k hk
  obtain ⟨i, hi⟩ := mem_kinds_iff.mp hk
  have hspell := tree.wellFormed.spell tree.wellFormed.size_pos symbol.toList
  have hspelled (h : (tree.spell 0 symbol.toList).1.kind? i = some k) :
      k ∈ kind :: .symbol :: tree.kinds := by
    rcases kind?_spell tree.wellFormed tree.wellFormed.size_pos symbol.toList h with rfl | hold
    · simp
    · simp [mem_kinds_iff.mpr ⟨i, hold⟩]
  rw [insert] at hi
  unfold SymbolNodes.insert at hi
  dsimp only at hi
  split at hi
  · exact hspelled hi
  · rw [SymbolNodes.kind?_mark hspell.2] at hi
    split at hi
    · simp [Option.some.inj hi]
    · exact hspelled hi

end SymbolTree

namespace State

/-- A state answers with the front of its text. -/
theorem scan_isPrefix {symbols : Option SymbolTree} {state : State} {lexeme : Lexeme}
    (h : state.scan symbols cs = .ok lexeme) : lexeme.chars <+: cs := by
  have hsymbol (tree : SymbolTree) : (scanSymbol tree cs).chars <+: cs := by
    unfold scanSymbol
    split
    · next hnext => exact (SymbolTree.of_next? hnext).1
    · exact List.nil_prefix
  have hany (h : scanAnySymbol symbols cs = .ok lexeme) : lexeme.chars <+: cs := by
    unfold scanAnySymbol at h
    split at h
    · cases h
      exact hsymbol _
    · cases h
  cases state with
  | symbol tree =>
    cases h
    exact hsymbol tree
  | number rule =>
    rw [scan] at h
    split at h
    · next hscan =>
      cases h
      exact NumberRule.scan_isPrefix hscan
    · exact hany h
  | quote =>
    rw [scan] at h
    split at h
    · next hscan =>
      cases h
      exact Quoted.scan?_isPrefix hscan
    · cases h
  | whitespace chars =>
    cases h
    exact List.takeWhile_prefix _
  | word rule =>
    cases h
    cases cs with
    | nil => exact List.prefix_rfl
    | cons c rest => exact (List.prefix_cons_inj c).mpr (List.takeWhile_prefix _)
  | comment style =>
    rw [scan] at h
    split at h
    · next hscan =>
      cases h
      exact Comment.scan_isPrefix hscan
    · cases h
    · exact hany h

/-- The kinds of the tokens that a state reads on its own, without any symbols. -/
def ownKinds : State → List TokenKind
  | symbol _ => []
  | number _ => [.integer, .float]
  | quote => [.quoted]
  | whitespace _ => [.whitespace]
  | word _ => [.word, .keyword]
  | comment _ => [.comment]

theorem kind_scanSymbol (tree : SymbolTree) (cs : List Char) :
    (scanSymbol tree cs).kind ∈ tree.kinds ∨ (scanSymbol tree cs).kind = .symbol := by
  unfold scanSymbol
  split
  · next hnext => exact (SymbolTree.of_next? hnext).2
  · exact .inr rfl

/-- A kind that no symbol is registered with is one that the state gives on its own, or that of
single characters. -/
theorem kind_scan {symbols : Option SymbolTree} {state : State} {lexeme : Lexeme}
    (hslot : ∀ tree ∈ symbols, lexeme.kind ∉ tree.kinds)
    (hstate : ∀ tree, state = .symbol tree → lexeme.kind ∉ tree.kinds)
    (h : state.scan symbols cs = .ok lexeme) :
    lexeme.kind ∈ state.ownKinds ∨ lexeme.kind = .symbol := by
  have hany (h : scanAnySymbol symbols cs = .ok lexeme) : lexeme.kind = .symbol := by
    unfold scanAnySymbol at h
    split at h
    · cases h
      exact (kind_scanSymbol _ cs).resolve_left (hslot _ rfl)
    · cases h
  cases state with
  | symbol tree =>
    cases h
    exact .inr ((kind_scanSymbol tree cs).resolve_left (hstate tree rfl))
  | number rule =>
    rw [scan] at h
    split at h
    · next hscan =>
      cases h
      exact .inl (NumberRule.scan_kind hscan)
    · exact .inr (hany h)
  | quote =>
    rw [scan] at h
    split at h <;> cases h
    exact .inl List.mem_cons_self
  | whitespace chars =>
    cases h
    exact .inl List.mem_cons_self
  | word rule =>
    cases h
    left
    dsimp only [scanWord]
    split <;> simp [ownKinds]
  | comment style =>
    rw [scan] at h
    split at h
    · cases h
      exact .inl List.mem_cons_self
    · cases h
    · exact .inr (hany h)

/-- Only a symbol can be of the kind that marks the end of the text. -/
theorem scan_kind_ne_eof {symbols : Option SymbolTree} {state : State} {lexeme : Lexeme}
    (hslot : ∀ tree ∈ symbols, TokenKind.eof ∉ tree.kinds)
    (hstate : ∀ tree, state = .symbol tree → TokenKind.eof ∉ tree.kinds)
    (h : state.scan symbols cs = .ok lexeme) : lexeme.kind ≠ .eof := by
  intro heof
  rw [← heof] at hslot hstate
  have hkind := kind_scan hslot hstate h
  rw [heof] at hkind
  cases state <;> simp [ownKinds] at hkind

end State

end Formulary
