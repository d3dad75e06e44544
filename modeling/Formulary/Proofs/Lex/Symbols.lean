import Formulary.Proofs.Lex.Longest
import Formulary.Proofs.Lex.Lossless
import Mathlib.Data.List.Induction
import Mathlib.Logic.Function.Iterate

/-!
# The longest symbol

The nodes of a tree spell what was put into it: the way from the root to a node is the only one, so
a symbol that is added changes what its own characters spell and nothing else, save that a single
character now begins a symbol. What is read at a place is the longest symbol that stands there, of
the kind of its last registration.
-/

namespace Formulary

variable {cs : List Char}

/-! What the nodes spell -/

namespace SymbolNodes

variable {nodes : SymbolNodes} {i j : Nat} {c : Char} {s t symbol : List Char} {kind : TokenKind}

def walk? (nodes : SymbolNodes) (i : Nat) : List Char → Option Nat
  | [] => some i
  | c :: rest => (nodes.child? i c).bind fun child => nodes.walk? child rest

def kindFrom? (nodes : SymbolNodes) (i : Nat) : List Char → Option TokenKind
  | [] => nodes.kind? i
  | c :: rest => (nodes.child? i c).bind fun child => nodes.kindFrom? child rest

theorem walk?_concat (i : Nat) (s : List Char) (c : Char) :
    nodes.walk? i (s ++ [c]) = (nodes.walk? i s).bind fun last => nodes.child? last c := by
  induction s generalizing i with
  | nil => cases hchild : nodes.child? i c <;> simp [walk?, hchild]
  | cons d rest ih =>
    rw [List.cons_append, walk?, walk?]
    cases nodes.child? i d with
    | none => rfl
    | some child => exact ih child

/-- The last step of a way comes from the node above. -/
theorem walk?_last (hnodes : nodes.WellFormed) (h : nodes.walk? 0 s = some i) (hne : s ≠ []) :
    ∃ front c, s = front ++ [c] ∧ nodes.walk? 0 front = some (nodes.parent i) ∧
      nodes.child? (nodes.parent i) c = some i := by
  obtain ⟨front, c, rfl⟩ : ∃ front c, s = front ++ [c] :=
    ⟨_, _, (List.dropLast_concat_getLast hne).symm⟩
  rw [walk?_concat] at h
  obtain ⟨above, hfront, hchild⟩ := Option.bind_eq_some_iff.mp h
  have hparent : nodes.parent i = above := hnodes.parent_child above c i hchild
  subst hparent
  exact ⟨front, c, rfl, hfront, hchild⟩

theorem walk?_ne_root (hnodes : nodes.WellFormed) (h : nodes.walk? 0 s = some i) (hne : s ≠ []) :
    0 < i := by
  obtain ⟨_, c, -, -, hchild⟩ := walk?_last hnodes h hne
  exact (hnodes.below_child _ c i hchild).1

/-- Only one way leads from the root to a node. -/
theorem walk?_inj (hnodes : nodes.WellFormed) (hs : nodes.walk? 0 s = some i)
    (ht : nodes.walk? 0 t = some i) : s = t := by
  induction i using Nat.strongRecOn generalizing s t with
  | _ i ih =>
    by_cases hroot : i = 0
    · subst hroot
      have hempty {s : List Char} (h : nodes.walk? 0 s = some 0) : s = [] := by
        by_contra hne
        exact Nat.lt_irrefl 0 (walk?_ne_root hnodes h hne)
      rw [hempty hs, hempty ht]
    · have hne {s : List Char} (h : nodes.walk? 0 s = some i) : s ≠ [] := by
        rintro rfl
        exact hroot (Option.some.inj h).symm
      have hlt := hnodes.parent_lt i (Nat.pos_of_ne_zero hroot)
      obtain ⟨front, c, rfl, hfront, hc⟩ := walk?_last hnodes hs (hne hs)
      obtain ⟨other, d, rfl, hother, hd⟩ := walk?_last hnodes ht (hne ht)
      rw [ih _ hlt hfront hother, hnodes.child_inj _ c d i hc hd]

/-! Growing -/

/-- A new node spells no symbol but a single character, right below the root. -/
theorem kindFrom?_link (hnodes : nodes.WellFormed) (hi : i < nodes.size)
    (hnone : nodes.child? i c = none) (hj : j < nodes.size) (s : List Char) :
    (nodes.link i c).kindFrom? j s =
      if i = 0 ∧ j = 0 ∧ s = [c] then some .symbol else nodes.kindFrom? j s := by
  induction s generalizing j with
  | nil =>
    rw [kindFrom?, kind?_link hi, if_neg (Nat.ne_of_lt hj), if_neg (by simp), kindFrom?]
  | cons d rest ih =>
    rw [kindFrom?, child?_link hi]
    by_cases hnew : j = i ∧ d = c
    · obtain ⟨rfl, rfl⟩ := hnew
      rw [if_pos ⟨rfl, rfl⟩, kindFrom?, hnone]
      cases rest with
      | nil =>
        rw [Option.bind_some, kindFrom?, kind?_link hi, if_pos rfl]
        by_cases hroot : j = 0 <;> simp [hroot]
      | cons e more =>
        have hleaf : nodes.child? nodes.size e = none := by
          rw [child?, node_of_size_le le_rfl]
          rfl
        have hother : ¬ nodes.size = j := Nat.ne_of_gt hj
        simp [kindFrom?, child?_link hi, hleaf, hother]
    · have hold : ¬ (i = 0 ∧ j = 0 ∧ d :: rest = [c]) := by
        rintro ⟨rfl, rfl, heq⟩
        exact hnew ⟨rfl, (List.cons.inj heq).1⟩
      rw [if_neg hnew, if_neg hold, kindFrom?]
      cases hchild : nodes.child? j d with
      | none => rfl
      | some child =>
        have hbelow := hnodes.below_child j d child hchild
        have hinner : ¬ (i = 0 ∧ child = 0 ∧ rest = [c]) := fun h => Nat.ne_of_gt hbelow.1 h.2.1
        rw [Option.bind_some, ih hbelow.2, if_neg hinner, Option.bind_some]

/-- A node that is made adds no symbol but that of its own character right below the root. -/
theorem kindFrom?_enter (hnodes : nodes.WellFormed) (hi : i < nodes.size) (c : Char)
    (s : List Char) : (nodes.enter i c).1.kindFrom? 0 s =
      (nodes.kindFrom? 0 s).or (if i = 0 ∧ s = [c] then some .symbol else none) := by
  unfold enter
  split
  · next child hchild =>
    by_cases hsingle : i = 0 ∧ s = [c]
    · obtain ⟨rfl, rfl⟩ := hsingle
      have hfirst : nodes.kind? child ≠ none :=
        hnodes.kind_first child (hnodes.below_child 0 c child hchild)
          (hnodes.parent_child 0 c child hchild)
      obtain ⟨kind, hkind⟩ := Option.ne_none_iff_exists'.mp hfirst
      simp [kindFrom?, hchild, hkind]
    · rw [if_neg hsingle, Option.or_none]
  · next hnone =>
    rw [kindFrom?_link hnodes hi hnone hnodes.size_pos]
    by_cases hsingle : i = 0 ∧ s = [c]
    · obtain ⟨rfl, rfl⟩ := hsingle
      simp [kindFrom?, hnone]
    · have hold : ¬ (i = 0 ∧ 0 = 0 ∧ s = [c]) := fun h => hsingle ⟨h.1, h.2.2⟩
      rw [if_neg hsingle, if_neg hold, Option.or_none]

/-- Further down nothing new is spelled until a symbol is marked. -/
theorem kindFrom?_spell_of_below (hnodes : nodes.WellFormed) (hi : nodes.Below i)
    (symbol s : List Char) : (nodes.spell i symbol).1.kindFrom? 0 s = nodes.kindFrom? 0 s := by
  induction symbol generalizing nodes i with
  | nil => rfl
  | cons c rest ih =>
    obtain ⟨hentered, hbelow⟩ := hnodes.enter hi.2 c
    have hinner : ¬ (i = 0 ∧ s = [c]) := fun h => Nat.ne_of_gt hi.1 h.1
    rw [spell, ih hentered hbelow, kindFrom?_enter hnodes hi.2, if_neg hinner, Option.or_none]

theorem kindFrom?_spell (hnodes : nodes.WellFormed) (c : Char) (rest s : List Char) :
    (nodes.spell 0 (c :: rest)).1.kindFrom? 0 s =
      (nodes.kindFrom? 0 s).or (if s = [c] then some .symbol else none) := by
  obtain ⟨hentered, hbelow⟩ := hnodes.enter hnodes.size_pos c
  rw [spell, kindFrom?_spell_of_below hentered hbelow, kindFrom?_enter hnodes hnodes.size_pos]
  simp

/-- Growing keeps the ways that are there. -/
theorem child?_enter (hi : i < nodes.size) {d : Char} {child : Nat}
    (h : nodes.child? j d = some child) : (nodes.enter i c).1.child? j d = some child := by
  unfold enter
  split
  · exact h
  · next hnone =>
    have hold : ¬ (j = i ∧ d = c) := by
      rintro ⟨rfl, rfl⟩
      cases hnone.symm.trans h
    rw [child?_link hi, if_neg hold, h]

theorem child?_enter_self (hi : i < nodes.size) :
    (nodes.enter i c).1.child? i c = some (nodes.enter i c).2 := by
  unfold enter
  split
  · assumption
  · rw [child?_link hi, if_pos ⟨rfl, rfl⟩]

theorem child?_spell (hnodes : nodes.WellFormed) (hi : i < nodes.size) (symbol : List Char)
    {d : Char} {child : Nat} (h : nodes.child? j d = some child) :
    (nodes.spell i symbol).1.child? j d = some child := by
  induction symbol generalizing nodes i with
  | nil => exact h
  | cons c rest ih =>
    obtain ⟨hentered, hbelow⟩ := hnodes.enter hi c
    exact ih hentered hbelow.2 (child?_enter hi h)

/-- The characters lead to the node that was made for them. -/
theorem walk?_spell (hnodes : nodes.WellFormed) (hi : i < nodes.size) (symbol : List Char) :
    (nodes.spell i symbol).1.walk? i symbol = some (nodes.spell i symbol).2 := by
  induction symbol generalizing nodes i with
  | nil => rfl
  | cons c rest ih =>
    obtain ⟨hentered, hbelow⟩ := hnodes.enter hi c
    have hstep := child?_spell hentered hbelow.2 rest (child?_enter_self hi)
    rw [spell, walk?, hstep]
    exact ih hentered hbelow.2

/-- A mark changes what the way to its node spells. -/
theorem kindFrom?_mark (hi : i < nodes.size) (kind : TokenKind) (j : Nat) (s : List Char) :
    (nodes.mark i kind).kindFrom? j s =
      if nodes.walk? j s = some i then some kind else nodes.kindFrom? j s := by
  induction s generalizing j with
  | nil => simp [kindFrom?, kind?_mark hi, walk?]
  | cons d rest ih =>
    rw [kindFrom?, child?_mark hi, walk?, kindFrom?]
    cases nodes.child? j d with
    | none => rfl
    | some child => exact ih child

/-- A symbol that is added is spelled by its own characters, and its first character is a symbol.
All others are spelled as before. -/
theorem kindFrom?_insert (hnodes : nodes.WellFormed) (symbol : List Char) (kind : TokenKind)
    (s : List Char) : (nodes.insert symbol kind).kindFrom? 0 s =
      if s ≠ [] ∧ s = symbol then some kind
      else (nodes.kindFrom? 0 s).or
        (if s ≠ [] ∧ s = symbol.take 1 then some .symbol else none) := by
  obtain ⟨hspelled, hlast⟩ := hnodes.spell hnodes.size_pos symbol
  have hwalk := walk?_spell hnodes hnodes.size_pos symbol
  unfold insert
  cases symbol with
  | nil =>
    have hnot : ¬ (s ≠ [] ∧ s = []) := fun h => h.1 h.2
    rw [List.take_nil, if_neg hnot, if_neg hnot, Option.or_none]
    rfl
  | cons c rest =>
    have hpos := walk?_ne_root hspelled hwalk (List.cons_ne_nil c rest)
    have hsame : (nodes.spell 0 (c :: rest)).1.walk? 0 s = some (nodes.spell 0 (c :: rest)).2 ↔
        s = c :: rest := by
      refine ⟨fun h => walk?_inj hspelled h hwalk, ?_⟩
      rintro rfl
      exact hwalk
    dsimp only
    rw [if_neg (Nat.ne_of_gt hpos), kindFrom?_mark hlast, kindFrom?_spell hnodes]
    simp only [hsame, List.take_succ_cons, List.take_zero]
    by_cases hs : s = c :: rest
    · simp [hs]
    · by_cases hsingle : s = [c] <;> simp [hs, hsingle]

end SymbolNodes

namespace SymbolTree

variable {tree : SymbolTree} {s : List Char}

def kindOf? (s : List Char) (tree : SymbolTree) : Option TokenKind := tree.kindFrom? 0 s

theorem kindOf?_empty (s : List Char) : kindOf? s empty = none := by
  cases s <;> rfl

theorem kindOf?_insert (tree : SymbolTree) (symbol : String) (kind : TokenKind) (s : List Char) :
    kindOf? s (tree.insert symbol kind) =
      if s ≠ [] ∧ s = symbol.toList then some kind
      else (kindOf? s tree).or
        (if s ≠ [] ∧ s = symbol.toList.take 1 then some .symbol else none) :=
  SymbolNodes.kindFrom?_insert tree.wellFormed symbol.toList kind s

/-! The longest symbol -/

/-- Where no symbol is found, none stands in front of the text. -/
theorem kindFrom?_of_longestFrom?_eq_none {i : Nat} (h : tree.longestFrom? i cs = none) :
    ∀ other, other <+: cs → tree.kindFrom? i other = none := by
  induction cs generalizing i with
  | nil =>
    intro other hother
    rw [List.prefix_nil.mp hother]
    exact kind?_of_longestFrom? h
  | cons c rest ih =>
    intro other hother
    rcases List.prefix_cons_iff.mp hother with rfl | ⟨more, rfl, hmore⟩
    · exact kind?_of_longestFrom? h
    · rw [SymbolNodes.kindFrom?]
      cases hchild : tree.child? i c with
      | none => rfl
      | some below =>
        refine ih ?_ more hmore
        cases hbelow : tree.longestFrom? below rest with
        | none => rfl
        | some found =>
          rw [longestFrom?, hchild] at h
          dsimp only at h
          rw [hbelow] at h
          cases h

/-- The symbol that is found is the longest that stands in front of the text. -/
theorem kindFrom?_of_longestFrom? {i n : Nat} {kind : TokenKind}
    (h : tree.longestFrom? i cs = some (kind, n)) : tree.kindFrom? i (cs.take n) = some kind ∧
      ∀ other, tree.kindFrom? i other ≠ none → other <+: cs →
        other.length ≤ (cs.take n).length := by
  induction cs generalizing i n with
  | nil =>
    obtain ⟨k, hkind, heq⟩ := Option.map_eq_some_iff.mp h
    cases heq
    exact ⟨hkind, fun other _ hother => hother.length_le⟩
  | cons c rest ih =>
    have hempty (hown : (tree.kind? i).map (·, 0) = some (kind, n))
        (hbelow : ∀ more, more <+: rest → tree.kindFrom? i (c :: more) = none) :
        tree.kindFrom? i ((c :: rest).take n) = some kind ∧
          ∀ other, tree.kindFrom? i other ≠ none → other <+: c :: rest →
            other.length ≤ ((c :: rest).take n).length := by
      obtain ⟨k, hkind, heq⟩ := Option.map_eq_some_iff.mp hown
      cases heq
      refine ⟨hkind, fun other hsome hother => ?_⟩
      rcases List.prefix_cons_iff.mp hother with rfl | ⟨more, rfl, hmore⟩
      · exact Nat.zero_le _
      · exact absurd (hbelow more hmore) hsome
    have hstep (more : List Char) : tree.kindFrom? i (c :: more) =
        (tree.child? i c).bind fun child => tree.kindFrom? child more := rfl
    rw [longestFrom?] at h
    split at h
    · next hchild => exact hempty h fun more _ => by rw [hstep, hchild]; rfl
    · next below hchild =>
      split at h
      · next k m hfound =>
        cases h
        obtain ⟨hkind, hlongest⟩ := ih hfound
        refine ⟨?_, fun other hsome hother => ?_⟩
        · rw [List.take_succ_cons, hstep, hchild]
          exact hkind
        · rcases List.prefix_cons_iff.mp hother with rfl | ⟨more, rfl, hmore⟩
          · exact Nat.zero_le _
          · rw [hstep, hchild] at hsome
            rw [List.take_succ_cons, List.length_cons, List.length_cons]
            exact Nat.succ_le_succ (hlongest more hsome hmore)
      · next hnone =>
        refine hempty h fun more hmore => ?_
        rw [hstep, hchild]
        exact kindFrom?_of_longestFrom?_eq_none hnone more hmore

/-- Where no symbol is found, no front of the text is one. -/
theorem kindOf?_of_longest?_eq_none (h : longest? cs tree = none) :
    ∀ other, other <+: cs → kindOf? other tree = none :=
  kindFrom?_of_longestFrom?_eq_none h

/-- The symbol that is found is the longest front of the text that is one. -/
theorem longest_of_longest? {kind : TokenKind} {n : Nat} (h : longest? cs tree = some (kind, n)) :
    kindOf? (cs.take n) tree = some kind ∧
      Longest (fun s => kindOf? s tree ≠ none) cs (cs.take n) := by
  obtain ⟨hkind, hlongest⟩ := kindFrom?_of_longestFrom? h
  refine ⟨hkind, ⟨?_, List.take_prefix n cs, hlongest⟩⟩
  rw [kindOf?, hkind]
  exact Option.some_ne_none kind

/-! Registered symbols -/

/-- The characters are those of a registered symbol. The empty one is none. -/
def Registered (symbols : List (String × TokenKind)) (s : List Char) : Prop :=
  s ≠ [] ∧ ∃ symbol ∈ symbols, symbol.1.toList = s

def lastKind? (symbols : List (String × TokenKind)) (s : List Char) : Option TokenKind :=
  (symbols.reverse.find? (·.1.toList = s)).map (·.2)

/-- The kind of a single character with which a registered symbol begins. -/
def firstKind? (symbols : List (String × TokenKind)) (s : List Char) : Option TokenKind :=
  if symbols.any fun symbol => symbol.1.toList.take 1 = s then some .symbol else none

variable {symbols : List (String × TokenKind)}

theorem registered_iff (hs : s ≠ []) : Registered symbols s ↔ lastKind? symbols s ≠ none := by
  simp [Registered, lastKind?, hs]

theorem register_concat (symbols : List (String × TokenKind)) (symbol : String × TokenKind) :
    register (symbols ++ [symbol]) = (register symbols).insert symbol.1 symbol.2 := by
  rw [register, List.foldl_append]
  rfl

/-- What is spelled after any number of registrations. -/
theorem kindOf?_register (symbols : List (String × TokenKind)) (hs : s ≠ []) :
    kindOf? s (register symbols) = (lastKind? symbols s).or (firstKind? symbols s) := by
  induction symbols using List.reverseRecOn with
  | nil => exact kindOf?_empty s
  | append_singleton symbols symbol ih =>
    have hlast : lastKind? (symbols ++ [symbol]) s =
        if s = symbol.1.toList then some symbol.2 else lastKind? symbols s := by
      by_cases heq : s = symbol.1.toList
      · simp [lastKind?, heq]
      · simp [lastKind?, heq, Ne.symm heq]
    have hfirst : firstKind? (symbols ++ [symbol]) s = (firstKind? symbols s).or
        (if s = symbol.1.toList.take 1 then some .symbol else none) := by
      rw [firstKind?, firstKind?, List.any_append]
      cases symbols.any fun symbol => symbol.1.toList.take 1 = s with
      | true => rfl
      | false => simp [eq_comm]
    rw [register_concat, kindOf?_insert, ih, hlast, hfirst]
    by_cases heq : s = symbol.1.toList
    · rw [if_pos ⟨hs, heq⟩, if_pos heq]
      rfl
    · simp [hs, heq, Option.or_assoc]

/-- What is read in front of a text: the longest registered symbol that stands there, of the kind of
its last registration, or the next character as a symbol if none does. -/
def Answers (symbols : List (String × TokenKind)) (cs : List Char) (kind : TokenKind)
    (chars : List Char) : Prop :=
  (Longest (Registered symbols) cs chars ∧ lastKind? symbols chars = some kind) ∨
    ((∀ s, Registered symbols s → ¬ s <+: cs) ∧ kind = .symbol ∧ chars = cs.take 1)

theorem eq_singleton_of_isPrefix {c : Char} {rest : List Char} (hs : s ≠ []) (h : s <+: c :: rest)
    (hlength : s.length ≤ 1) : s = [c] := by
  cases s with
  | nil => exact absurd rfl hs
  | cons d more =>
    have hmore : more = [] := List.length_eq_zero_iff.mp (by simpa using hlength)
    rw [(List.cons_prefix_cons.mp h).1, hmore]

theorem kindOf?_of_registered (h : Registered symbols s) : kindOf? s (register symbols) ≠ none := by
  rw [kindOf?_register symbols h.1]
  intro hnone
  exact (registered_iff h.1).mp h (Option.or_eq_none_iff.mp hnone).1

/-- The longest front of a text that the tree spells is the answer. -/
theorem answers_of_longest {c : Char} {rest front : List Char} {kind : TokenKind} (hne : front ≠ [])
    (hkind : kindOf? front (register symbols) = some kind)
    (hfront : Longest (fun s => kindOf? s (register symbols) ≠ none) (c :: rest) front) :
    Answers symbols (c :: rest) kind front := by
  have hlonger (s : List Char) (hs : Registered symbols s) : s <+: c :: rest →
      s.length ≤ front.length := hfront.longest s (kindOf?_of_registered hs)
  rw [kindOf?_register symbols hne] at hkind
  cases hlast : lastKind? symbols front with
  | some last =>
    have hregistered : Registered symbols front := by
      rw [registered_iff hne, hlast]
      exact Option.some_ne_none last
    rw [hlast, Option.some_or] at hkind
    exact .inl ⟨⟨hregistered, hfront.isPrefix, hlonger⟩, hlast.trans hkind⟩
  | none =>
    rw [hlast, Option.none_or, firstKind?] at hkind
    split at hkind
    · next hany =>
      obtain ⟨symbol, -, hsymbol⟩ := List.any_eq_true.mp hany
      have hshort : front.length ≤ 1 := by
        rw [← of_decide_eq_true hsymbol]
        exact List.length_take_le 1 _
      have hsingle := eq_singleton_of_isPrefix hne hfront.isPrefix hshort
      refine .inr ⟨fun s hs hstart => ?_, (Option.some.inj hkind).symm, hsingle⟩
      have hlength := (hlonger s hs hstart).trans hshort
      rw [eq_singleton_of_isPrefix hs.1 hstart hlength, ← hsingle] at hs
      exact (registered_iff hne).mp hs hlast
    · cases hkind

/-- What a tree of registered symbols finds is the answer for them. -/
theorem answers_next? (symbols : List (String × TokenKind)) (c : Char) (rest : List Char) :
    ∃ kind chars, (register symbols).next? (c :: rest) = some (kind, chars) ∧
      Answers symbols (c :: rest) kind chars := by
  cases hlongest : longest? (c :: rest) (register symbols) with
  | none =>
    refine ⟨.symbol, [c], by rw [next?, hlongest], .inr ⟨fun s hs hstart => ?_, rfl, rfl⟩⟩
    exact kindOf?_of_registered hs (kindOf?_of_longest?_eq_none hlongest s hstart)
  | some found =>
    obtain ⟨kind, n⟩ := found
    obtain ⟨hkind, hfront⟩ := longest_of_longest? hlongest
    have hne : (c :: rest).take n ≠ [] := by
      have hpos : n ≠ 0 := longest?_ne_zero hlongest
      simp [hpos]
    exact ⟨kind, (c :: rest).take n, by rw [next?, hlongest], answers_of_longest hne hkind hfront⟩

theorem Answers.isPrefix {kind : TokenKind} {chars : List Char}
    (h : Answers symbols cs kind chars) : chars <+: cs := by
  rcases h with ⟨hlongest, -⟩ | ⟨-, -, rfl⟩
  · exact hlongest.isPrefix
  · exact List.take_prefix 1 cs

/-- On the way back up from any node below the root there is one where a symbol ends. -/
theorem exists_kind_above (tree : SymbolTree) (node : Nat) (h : tree.Below node) :
    ∃ steps, tree.kind? (tree.parent^[steps] node) ≠ none := by
  induction node using Nat.strongRecOn with
  | _ node ih =>
    by_cases hkind : tree.kind? node = none
    · have hlt := tree.wellFormed.parent_lt node h.1
      obtain ⟨steps, hsteps⟩ := ih _ hlt (tree.wellFormed.below_parent h hkind)
      exact ⟨steps + 1, hsteps⟩
    · exact ⟨0, hkind⟩

/-- There is only one answer. -/
theorem Answers.unique {kind other : TokenKind} {chars more : List Char}
    (h : Answers symbols cs kind chars) (hother : Answers symbols cs other more) :
    kind = other ∧ chars = more := by
  rcases h with ⟨hlongest, hkind⟩ | ⟨hnone, rfl, rfl⟩ <;>
    rcases hother with ⟨hsame, hsamekind⟩ | ⟨hnothing, rfl, rfl⟩
  · have hchars := hlongest.unique hsame
    rw [← hchars, hkind] at hsamekind
    exact ⟨Option.some.inj hsamekind, hchars⟩
  · exact absurd hlongest.isPrefix (hnothing _ hlongest.holds)
  · exact absurd hsame.isPrefix (hnone _ hsame.holds)
  · exact ⟨rfl, rfl⟩

/-- The answer for symbols does not depend on the order among different ones. -/
theorem lastKind?_congr {others : List (String × TokenKind)}
    (h : ∀ symbol, others.filter (·.1 = symbol) = symbols.filter (·.1 = symbol)) :
    lastKind? others = lastKind? symbols := by
  funext s
  have hspells (symbol : String × TokenKind) :
      decide (symbol.1.toList = s) = decide (symbol.1 = String.ofList s) := by
    refine decide_eq_decide.mpr ⟨?_, ?_⟩
    · rintro rfl
      exact String.ofList_toList.symm
    · intro h
      rw [h, String.toList_ofList]
  simp only [lastKind?, hspells, ← List.head?_filter, List.filter_reverse, h]

/-- What is read does not depend on how the registrations of different symbols are ordered. -/
theorem next?_register_congr {others : List (String × TokenKind)}
    (h : ∀ symbol, others.filter (·.1 = symbol) = symbols.filter (·.1 = symbol)) :
    (register others).next? cs = (register symbols).next? cs := by
  cases cs with
  | nil => rfl
  | cons c rest =>
    have hlast := lastKind?_congr h
    have hregistered : Registered others = Registered symbols := by
      funext s
      by_cases hs : s = []
      · simp [Registered, hs]
      · rw [eq_iff_iff, registered_iff hs, registered_iff hs, hlast]
    obtain ⟨kind, chars, hnext, hanswers⟩ := answers_next? symbols c rest
    obtain ⟨kind', chars', hnext', hanswers'⟩ := answers_next? others c rest
    have hsame : Answers symbols (c :: rest) kind' chars' := by
      rwa [Answers, hregistered, hlast] at hanswers'
    obtain ⟨rfl, rfl⟩ := hanswers.unique hsame
    rw [hnext, hnext']

/-- Reading a symbol from a tree answers with the longest registered one, or else with the next
character, and leaves the cursor behind it. The way back up ends, and only the order in which a
symbol was registered again matters. -/
theorem read_register (symbols : List (String × TokenKind)) (cursor : Cursor)
    (hahead : cursor.ahead ≠ []) :
    (∃ kind chars, (register symbols).read cursor =
        (some (kind, chars), cursor.skip chars.length) ∧
      (cursor.skip chars.length).offset = cursor.offset + chars.length ∧
      Answers symbols cursor.ahead kind chars) ∧
    (∀ node, (register symbols).Below node →
      ∃ steps, (register symbols).kind? ((register symbols).parent^[steps] node) ≠ none) ∧
    ∀ others : List (String × TokenKind),
      (∀ symbol, others.filter (·.1 = symbol) = symbols.filter (·.1 = symbol)) →
      (register others).read cursor = (register symbols).read cursor := by
  refine ⟨?_, (register symbols).exists_kind_above, fun others h => ?_⟩
  · obtain ⟨c, rest, hcons⟩ := List.exists_cons_of_ne_nil hahead
    obtain ⟨kind, chars, hnext, hanswers⟩ := answers_next? symbols c rest
    rw [← hcons] at hnext hanswers
    refine ⟨kind, chars, by rw [read_eq, hnext]; rfl, ?_, hanswers⟩
    rw [Cursor.offset_skip, Nat.min_eq_left hanswers.isPrefix.length_le]
  · rw [read_eq, read_eq, next?_register_congr h]

/-- Two characters lead towards a symbol of three that does not stand there. -/
theorem read_register_back_off : (Cursor.ofText "<=5").ahead ≠ [] ∧
    (∃ kind chars, (register [("<=>", .word), ("<", .keyword)]).read (.ofText "<=5") =
        (some (kind, chars), (Cursor.ofText "<=5").skip chars.length) ∧
      ((Cursor.ofText "<=5").skip chars.length).offset =
        (Cursor.ofText "<=5").offset + chars.length ∧
      Answers [("<=>", .word), ("<", .keyword)] (Cursor.ofText "<=5").ahead kind chars) ∧
    (register [("<", .keyword), ("<=>", .word)]).read (.ofText "<=5") =
      (register [("<=>", .word), ("<", .keyword)]).read (.ofText "<=5") ∧
    (register [("<=>", .word), ("<", .keyword)]).read (.ofText "<=5") =
      (some (.keyword, ['<']), (Cursor.ofText "<=5").skip 1) := by
  have hahead : (Cursor.ofText "<=5").ahead ≠ [] := by decide
  have hread := read_register [("<=>", .word), ("<", .keyword)] (.ofText "<=5") hahead
  refine ⟨hahead, hread.1, hread.2.2 _ fun symbol => ?_, by rw [read_eq]; rfl⟩
  by_cases h : "<" = symbol
  · subst h
    rfl
  · simp [List.filter_cons, h]

end SymbolTree

/-- A registered symbol or a single character, whatever is longer, is read as a symbol. -/
theorem State.longest_scanSymbol (symbols : List String) (c : Char) (rest : List Char) :
    ∃ chars, scanSymbol (.ofList symbols) (c :: rest) = ⟨.symbol, chars⟩ ∧
      Longest (fun s => s.length = 1 ∨ (s ≠ [] ∧ String.ofList s ∈ symbols)) (c :: rest) chars := by
  have hregistered {s : List Char} : SymbolTree.Registered (symbols.map (·, .symbol)) s ↔
      s ≠ [] ∧ String.ofList s ∈ symbols := by
    refine and_congr_right fun _ => ?_
    constructor
    · rintro ⟨symbol, hsymbol, rfl⟩
      obtain ⟨text, htext, rfl⟩ := List.mem_map.mp hsymbol
      rwa [String.ofList_toList]
    · intro h
      exact ⟨_, List.mem_map.mpr ⟨_, h, rfl⟩, String.toList_ofList⟩
  obtain ⟨kind, chars, hnext, hanswers⟩ :=
    SymbolTree.answers_next? (symbols.map (·, .symbol)) c rest
  have hscan : scanSymbol (.ofList symbols) (c :: rest) = ⟨kind, chars⟩ := by
    rw [SymbolTree.ofList_eq_register, scanSymbol, hnext]
  rcases hanswers with ⟨hlongest, hlast⟩ | ⟨hnone, rfl, rfl⟩
  · have hkind : kind = .symbol := by
      obtain ⟨symbol, hfind, rfl⟩ := Option.map_eq_some_iff.mp hlast
      have hsymbol := List.mem_reverse.mp (List.mem_of_find?_eq_some hfind)
      obtain ⟨text, -, rfl⟩ := List.mem_map.mp hsymbol
      rfl
    subst hkind
    refine ⟨chars, hscan, .inr (hregistered.mp hlongest.holds), hlongest.isPrefix, ?_⟩
    rintro other (hsingle | hsymbol) hstart
    · rw [hsingle]
      exact List.length_pos_iff.mpr hlongest.holds.1
    · exact hlongest.longest other (hregistered.mpr hsymbol) hstart
  · refine ⟨[c], hscan, .inl rfl, ⟨rest, rfl⟩, ?_⟩
    rintro other (hsingle | hsymbol) hstart
    · exact hsingle.le
    · exact absurd hstart (hnone other (hregistered.mpr hsymbol))

end Formulary
