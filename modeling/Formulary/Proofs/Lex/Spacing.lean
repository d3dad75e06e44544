import Mathlib.Data.List.TakeWhile
import Formulary.Proofs.Lex.Scanning

/-!
# Tokens in front of a space

What a state reads is read again when a space or nothing follows it. A number that was cut in front
of a point or an exponent mark without digits ends at the space as well, a closed string stays
closed, and the longest symbol stays the longest if no symbol has a space.
-/

namespace Formulary

def SpaceAhead (rest : List Char) : Prop := ∀ c ∈ rest.head?, c = ' '

theorem spaceAhead_nil : SpaceAhead [] := by
  rintro c ⟨⟩

theorem spaceAhead_cons (rest : List Char) : SpaceAhead (' ' :: rest) := by
  rintro c ⟨⟩
  rfl

variable {cs rest after : List Char}

theorem mem_head?_append {c : Char} (h : c ∈ (cs ++ rest).head?) :
    c ∈ cs.head? ∨ c ∈ rest.head? := by
  cases cs with
  | nil => exact .inr h
  | cons d more => exact .inl h

/-- A run of characters is found again in front of one that ends it. -/
theorem takeWhile_append_of_stop {p : Char → Bool} (h : ∀ c ∈ rest.head?, p c = false) :
    (cs.takeWhile p ++ rest).takeWhile p = cs.takeWhile p := by
  have hrest : rest.takeWhile p = [] := by
    cases rest with
    | nil => rfl
    | cons c more => rw [List.takeWhile_cons, h c rfl]; rfl
  rw [List.takeWhile_append_of_pos fun c hc => List.mem_takeWhile_imp hc, hrest, List.append_nil]

namespace NumberRule

theorem head_fraction (cs : List Char) : ∀ c ∈ (fraction cs).head?, c = '.' := by
  unfold fraction
  split
  · dsimp only
    split
    · rintro c ⟨⟩
    · rintro c ⟨⟩
      rfl
  · rintro c ⟨⟩

theorem head_power (cs : List Char) : ∀ c ∈ (power cs).head?, c = 'e' ∨ c = 'E' := by
  match cs with
  | [] => rintro c ⟨⟩
  | e :: rest =>
    rw [power_cons]
    split
    · next hmark =>
      dsimp only
      split
      · rintro c ⟨⟩
      · intro c hc
        rw [List.cons_append] at hc
        cases hc
        simpa using hmark
    · rintro c ⟨⟩

theorem fraction_append (h : ∀ c ∈ rest.head?, c.isDigit = false ∧ c ≠ '.') :
    fraction (fraction cs ++ rest) = fraction cs := by
  have hnone : fraction rest = [] := by
    unfold fraction
    split
    · exact absurd rfl (h '.' rfl).2
    · rfl
  have hdigits (c : Char) (hc : c ∈ rest.head?) : c.isDigit = false := (h c hc).1
  match cs with
  | [] => exact hnone
  | c :: more =>
    by_cases hpoint : c = '.'
    · subst hpoint
      by_cases hempty : (more.takeWhile Char.isDigit).isEmpty = true
      · have hfraction : fraction ('.' :: more) = [] := by rw [fraction, if_pos hempty]
        rw [hfraction]
        exact hnone
      · have hfraction : fraction ('.' :: more) = '.' :: more.takeWhile Char.isDigit := by
          rw [fraction, if_neg hempty]
        rw [hfraction, List.cons_append, fraction, takeWhile_append_of_stop hdigits, if_neg hempty]
    · have hfraction : fraction (c :: more) = [] := by simp [fraction, hpoint]
      rw [hfraction]
      exact hnone

theorem powerSign_append (h : ∀ c ∈ rest.head?, c.isDigit = true) :
    powerSign (powerSign cs ++ rest) = powerSign cs := by
  have hnone : powerSign rest = [] := by
    cases rest with
    | nil => rfl
    | cons c more =>
      have hdigit := h c rfl
      rw [powerSign, if_neg]
      intro hsign
      have hsign : c = '+' ∨ c = '-' := by simpa using hsign
      rcases hsign with rfl | rfl <;> cases hdigit
  cases cs with
  | nil => exact hnone
  | cons c more =>
    by_cases hsign : (c == '+' || c == '-') = true
    · rw [powerSign, if_pos hsign, List.singleton_append, powerSign, if_pos hsign]
    · rw [powerSign, if_neg hsign]
      exact hnone

/-- What follows an exponent does not change it, if it cannot go on with it. -/
theorem power_append (h : ∀ c ∈ rest.head?, c.isDigit = false ∧ c ≠ 'e' ∧ c ≠ 'E') :
    power (power cs ++ rest) = power cs := by
  have hnone : power rest = [] := by
    match rest with
    | [] => rfl
    | c :: more =>
      obtain ⟨-, hsmall, hcapital⟩ := h c rfl
      rw [power_cons, if_neg (by simp [hsmall, hcapital])]
  have hdigits (c : Char) (hc : c ∈ rest.head?) : c.isDigit = false := (h c hc).1
  match cs with
  | [] => exact hnone
  | e :: more =>
    by_cases hmark : (e == 'e' || e == 'E') = true
    · let digits := (more.drop (powerSign more).length).takeWhile Char.isDigit
      by_cases hempty : digits.isEmpty = true
      · have hpower : power (e :: more) = [] := by rw [power_cons, if_pos hmark, if_pos hempty]
        rw [hpower]
        exact hnone
      · have hpower : power (e :: more) = e :: (powerSign more ++ digits) := by
          rw [power_cons, if_pos hmark, if_neg hempty, List.cons_append]
        have hhead : ∀ c ∈ (digits ++ rest).head?, c.isDigit = true := by
          intro c hc
          obtain ⟨first, others, heq⟩ := List.exists_cons_of_ne_nil (mt List.isEmpty_iff.mpr hempty)
          rw [heq] at hc
          cases hc
          exact List.mem_takeWhile_imp (heq ▸ List.mem_cons_self)
        have hsign : powerSign (powerSign more ++ digits ++ rest) = powerSign more := by
          rw [List.append_assoc]
          exact powerSign_append hhead
        rw [hpower, List.cons_append, power_cons, if_pos hmark, hsign, List.append_assoc,
          List.drop_left]
        dsimp only
        rw [takeWhile_append_of_stop hdigits, if_neg hempty]
        rfl
    · have hpower : power (e :: more) = [] := by rw [power_cons, if_neg hmark]
      rw [hpower]
      exact hnone

/-- A number is found again in front of a space or nothing. -/
theorem scan_append {rule : NumberRule} (hrule : rule.sign = false) {kind : TokenKind}
    {chars : List Char} (h : rule.scan cs = some (kind, chars)) (hafter : SpaceAhead after) :
    rule.scan (chars ++ after) = some (kind, chars) := by
  have hscan (cs : List Char) : rule.scan cs =
      let whole := cs.takeWhile Char.isDigit
      let behind := cs.drop whole.length
      let fraction := fraction behind
      let power := if rule.exponent then power (behind.drop fraction.length) else []
      if whole.isEmpty && fraction.isEmpty then none
      else some (if fraction.isEmpty && power.isEmpty then .integer else .float,
        whole ++ fraction ++ power) := by
    unfold scan
    simp [hrule]
  rw [hscan] at h ⊢
  extract_lets whole behind fraction' power' at h
  have hpowerHead : ∀ c ∈ (power' ++ after).head?, c = 'e' ∨ c = 'E' ∨ c = ' ' := by
    intro c hc
    rcases mem_head?_append hc with hc | hc
    · dsimp only [power'] at hc
      split at hc
      · exact (head_power _ c hc).imp_right .inl
      · cases hc
    · exact .inr (.inr (hafter c hc))
  have hfractionHead : ∀ c ∈ (fraction' ++ (power' ++ after)).head?, c.isDigit = false := by
    intro c hc
    rcases mem_head?_append hc with hc | hc
    · rw [head_fraction behind c hc]
      rfl
    · rcases hpowerHead c hc with rfl | rfl | rfl <;> rfl
  split at h
  · cases h
  · next hsome =>
    have hchars : whole ++ fraction' ++ power' = chars := congrArg Prod.snd (Option.some.inj h)
    have hinput : chars ++ after = whole ++ (fraction' ++ (power' ++ after)) := by
      rw [← hchars, List.append_assoc, List.append_assoc]
    have hwhole : (chars ++ after).takeWhile Char.isDigit = whole := by
      rw [hinput]
      exact takeWhile_append_of_stop hfractionHead
    have hbehind : (chars ++ after).drop whole.length = fraction' ++ (power' ++ after) := by
      rw [hinput, List.drop_left]
    have hfraction : fraction (fraction' ++ (power' ++ after)) = fraction' :=
      fraction_append fun c hc => by rcases hpowerHead c hc with rfl | rfl | rfl <;> decide
    have hpower : (if rule.exponent then power (power' ++ after) else []) = power' := by
      dsimp only [power']
      split
      · exact power_append fun c hc => by rw [hafter c hc]; decide
      · rfl
    dsimp only
    rw [hwhole, hbehind, hfraction, List.drop_left, hpower, if_neg hsome]
    exact h

theorem scan_ne_nil {rule : NumberRule} {kind : TokenKind} {chars : List Char}
    (h : rule.scan cs = some (kind, chars)) : chars ≠ [] := by
  unfold scan at h
  extract_lets sign unsigned whole behind fraction' power' kind' at h
  split at h
  · cases h
  · next hsome =>
    have hchars : sign ++ whole ++ fraction' ++ power' = chars :=
      congrArg Prod.snd (Option.some.inj h)
    rintro rfl
    simp only [List.append_eq_nil_iff] at hchars
    obtain ⟨⟨⟨-, hwhole⟩, hfraction⟩, -⟩ := hchars
    exact hsome (by rw [hwhole, hfraction]; rfl)

end NumberRule

theorem Comment.scan_ne_nil {chars : List Char} (h : scan .lineAndBlock cs = .comment chars) :
    chars ≠ [] := by
  unfold scan at h
  split at h
  · contradiction
  · cases h
    simp [line]
  · split at h
    · cases h
      exact List.cons_ne_nil _ _
    · cases h
  · cases h

theorem Quoted.close?_ne_nil (quote : Char) (cs : List Char) : close? quote cs ≠ some [] := by
  fun_induction close? quote cs <;> simp

/-- A quoted string is closed at the same place in front of anything but another quote. -/
theorem Quoted.close?_append {quote : Char} {chars : List Char} (h : close? quote cs = some chars)
    (hafter : after.head? ≠ some quote) : close? quote (chars ++ after) = some chars := by
  have hend : close? quote (quote :: after) = some [quote] := by
    cases after with
    | nil => simp [close?]
    | cons d more =>
      have hd : d ≠ quote := fun hd => hafter (congrArg some hd)
      simp [close?, hd]
  fun_induction close? quote cs generalizing chars with
  | case1 => cases h
  | case2 =>
    cases h
    exact hend
  | case3 => cases h
  | case4 rest ih =>
    obtain ⟨closed, hclosed, rfl⟩ := Option.map_eq_some_iff.mp h
    rw [List.cons_append, List.cons_append, close?, if_pos rfl, if_pos rfl, ih hclosed]
    rfl
  | case5 =>
    cases h
    exact hend
  | case6 c d rest hc ih =>
    obtain ⟨closed, hclosed, rfl⟩ := Option.map_eq_some_iff.mp h
    have hmore := ih hclosed
    cases closed with
    | nil => exact (close?_ne_nil quote (d :: rest) hclosed).elim
    | cons e others =>
      rw [List.cons_append] at hmore ⊢
      rw [List.cons_append, close?, if_neg hc, hmore]
      rfl

/-! Symbols -/

namespace SymbolTree

variable {tree : SymbolTree}

theorem length_of_longestFrom? {i n : Nat} {kind : TokenKind}
    (h : tree.longestFrom? i cs = some (kind, n)) : n ≤ cs.length := by
  induction cs generalizing i n with
  | nil => exact (of_own h).2.le
  | cons c rest ih =>
    have hown (h : (tree.kind? i).map (·, 0) = some (kind, n)) : n ≤ (c :: rest).length := by
      rw [(of_own h).2]
      exact Nat.zero_le _
    rw [longestFrom?] at h
    split at h
    · exact hown h
    · split at h
      · next hbelow =>
        cases h
        exact Nat.succ_le_succ (ih hbelow)
      · exact hown h

theorem length_of_longest? {kind : TokenKind} {n : Nat} (h : longest? cs tree = some (kind, n)) :
    n ≤ cs.length :=
  length_of_longestFrom? h

/-- The empty symbol is none, so the longest one has a character. -/
theorem longest?_ne_zero {found : TokenKind × Nat} (h : longest? cs tree = some found) :
    found.2 ≠ 0 := by
  cases cs with
  | nil =>
    rw [longest?, longestFrom?, tree.wellFormed.kind_root] at h
    cases h
  | cons c rest =>
    rw [longest?, longestFrom?, tree.wellFormed.kind_root] at h
    split at h
    · cases h
    · split at h
      · cases h
        exact Nat.succ_ne_zero _
      · cases h

/-- Nothing but a node's own symbol is found in front of a character that no symbol has. -/
theorem longestFrom?_of_stop {p : Char → Bool} (h : tree.avoids p = true)
    (hafter : ∀ c ∈ after.head?, p c = true) (i : Nat) :
    tree.longestFrom? i after = (tree.kind? i).map (·, 0) := by
  cases after with
  | nil => rfl
  | cons c rest => rw [longestFrom?, child?_eq_none_of_avoids h (hafter c rfl)]

/-- The longest symbol stays the longest in front of a character that no symbol has. -/
theorem longestFrom?_take_append {p : Char → Bool} (htree : tree.avoids p = true)
    (hafter : ∀ c ∈ after.head?, p c = true) {i m : Nat}
    (h : ∀ kind n, tree.longestFrom? i cs = some (kind, n) → n ≤ m) :
    tree.longestFrom? i (cs.take m ++ after) = tree.longestFrom? i cs := by
  induction m generalizing cs i with
  | zero =>
    rw [List.take_zero, List.nil_append, longestFrom?_of_stop htree hafter]
    cases cs with
    | nil => rfl
    | cons c rest =>
      rw [longestFrom?]
      cases hchild : tree.child? i c with
      | none => rfl
      | some below =>
        cases hbelow : tree.longestFrom? below rest with
        | none =>
          dsimp only
          rw [hbelow]
        | some found =>
          have hn := h found.1 (found.2 + 1) (by rw [longestFrom?, hchild]; dsimp only; rw [hbelow])
          omega
  | succ m ih =>
    cases cs with
    | nil => exact longestFrom?_of_stop htree hafter i
    | cons c rest =>
      rw [List.take_succ_cons, List.cons_append, longestFrom?, longestFrom?]
      cases hchild : tree.child? i c with
      | none => rfl
      | some below =>
        have hbelow : tree.longestFrom? below (rest.take m ++ after) =
            tree.longestFrom? below rest := by
          refine ih fun kind n hfound => ?_
          have hn := h kind (n + 1) (by rw [longestFrom?, hchild]; dsimp only; rw [hfound])
          omega
        dsimp only
        rw [hbelow]

/-- The longest symbol is found again in front of a character that no symbol has. -/
theorem longest?_take_append {p : Char → Bool} (htree : tree.avoids p = true)
    (hafter : ∀ c ∈ after.head?, p c = true) {m : Nat}
    (h : ∀ kind n, longest? cs tree = some (kind, n) → n ≤ m) :
    longest? (cs.take m ++ after) tree = longest? cs tree :=
  longestFrom?_take_append htree hafter h

end SymbolTree

namespace State

theorem scanSymbol_cons (tree : SymbolTree) (c : Char) (rest : List Char) :
    scanSymbol tree (c :: rest) = (tree.longest? (c :: rest)).elim ⟨.symbol, [c]⟩ fun found =>
      ⟨found.1, (c :: rest).take found.2⟩ := by
  rw [scanSymbol, SymbolTree.next?]
  cases tree.longest? (c :: rest) <;> rfl

/-- A symbol is found again in front of a space or nothing. -/
theorem scanSymbol_append {tree : SymbolTree} (htree : tree.avoids (· == ' ') = true)
    {lexeme : Lexeme} (h : scanSymbol tree cs = lexeme) (hne : lexeme.chars ≠ [])
    (hafter : SpaceAhead after) : scanSymbol tree (lexeme.chars ++ after) = lexeme := by
  have hstop : ∀ c ∈ after.head?, (c == ' ') = true := fun c hc => beq_iff_eq.mpr (hafter c hc)
  subst h
  cases cs with
  | nil => exact (hne rfl).elim
  | cons c rest =>
    rw [scanSymbol_cons] at hne ⊢
    cases hlongest : tree.longest? (c :: rest) with
    | none =>
      have hlonger : tree.longest? ((c :: rest).take 1 ++ after) = tree.longest? (c :: rest) := by
        refine SymbolTree.longest?_take_append htree hstop fun kind n hfound => ?_
        rw [hlongest] at hfound
        cases hfound
      have hsame : tree.longest? (c :: after) = none := hlonger.trans hlongest
      show scanSymbol tree (c :: after) = _
      rw [scanSymbol_cons, hsame]
      rfl
    | some found =>
      obtain ⟨kind, n⟩ := found
      rw [hlongest] at hne
      have hlength : n ≤ (c :: rest).length := SymbolTree.length_of_longest? hlongest
      have hsame : tree.longest? ((c :: rest).take n ++ after) = some (kind, n) := by
        rw [← hlongest]
        refine SymbolTree.longest?_take_append htree hstop fun kind' n' hfound => ?_
        rw [hlongest] at hfound
        cases hfound
        exact Nat.le_refl _
      show scanSymbol tree ((c :: rest).take n ++ after) = ⟨kind, (c :: rest).take n⟩
      cases n with
      | zero => exact (hne rfl).elim
      | succ n =>
        rw [List.take_succ_cons, List.cons_append] at hsame ⊢
        rw [scanSymbol_cons, hsame]
        simp only [Option.elim, List.take_succ_cons, Lexeme.mk.injEq, true_and, List.cons.injEq]
        exact List.take_left' (List.length_take_of_le (Nat.le_of_succ_le_succ hlength))

/-- A word is found again in front of a space or nothing. -/
theorem scanWord_append {rule : WordRule} (hspace : rule.chars.holds ' ' = false) (c : Char)
    (rest : List Char) (hafter : SpaceAhead after) :
    scanWord rule ((scanWord rule (c :: rest)).chars ++ after) = scanWord rule (c :: rest) := by
  have hstop : ∀ d ∈ after.head?, rule.chars.holds d = false := fun d hd => by
    rw [hafter d hd, hspace]
  simp only [scanWord, List.cons_append, takeWhile_append_of_stop hstop]

end State

end Formulary
