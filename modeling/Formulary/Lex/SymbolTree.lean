import Formulary.Lex.Cursor
import Formulary.Lex.Token

/-!
# Trees of symbols

The symbols of a language share their beginnings in a tree, so that the longest symbol in front of a
text is found in one pass: down the tree as far as the text leads, and back up to the nearest node
where a symbol ends. The nodes stand in a table in the order in which they were made, the root
first, and each knows the node above it. Every single character is a symbol of its own when no
longer one is registered, so a symbol ends at every node right below the root.
-/

namespace Formulary

/-- A node of a tree: the number of the node above it, the numbers of the nodes below it by the next
character, and the kind of the symbol that ends here. -/
structure SymbolNode where
  parent : Nat
  children : List (Char × Nat)
  kind : Option TokenKind
deriving DecidableEq, Repr

def SymbolNode.root : SymbolNode := ⟨0, [], none⟩

structure SymbolNodes where
  table : List SymbolNode
deriving DecidableEq, Repr

namespace SymbolNodes

variable {nodes : SymbolNodes} {i j : Nat} {c : Char}

/-- How many nodes there are. The next one gets this number. -/
def size (nodes : SymbolNodes) : Nat := nodes.table.length

def node (nodes : SymbolNodes) (i : Nat) : SymbolNode := nodes.table.getD i .root

def parent (nodes : SymbolNodes) (i : Nat) : Nat := (nodes.node i).parent

/-- The kind of the symbol that ends at a node. -/
def kind? (nodes : SymbolNodes) (i : Nat) : Option TokenKind := (nodes.node i).kind

def child? (nodes : SymbolNodes) (i : Nat) (c : Char) : Option Nat :=
  (nodes.node i).children.lookup c

/-- The nodes with a new one below a node. Right below the root a single character ends, which is a
symbol. -/
def link (nodes : SymbolNodes) (i : Nat) (c : Char) : SymbolNodes where
  table := nodes.table.modify i (fun node => { node with children := (c, nodes.size) :: node.children })
    ++ [⟨i, [], if i = 0 then some .symbol else none⟩]

/-- The nodes, and the one below a node at a character, which is made if it is missing. -/
def enter (nodes : SymbolNodes) (i : Nat) (c : Char) : SymbolNodes × Nat :=
  match nodes.child? i c with
  | some child => (nodes, child)
  | none => (nodes.link i c, nodes.size)

/-- The nodes, and the one that the characters lead to from a node, with those made that are
missing. -/
def spell (nodes : SymbolNodes) (i : Nat) : List Char → SymbolNodes × Nat
  | [] => (nodes, i)
  | c :: rest => (nodes.enter i c).1.spell (nodes.enter i c).2 rest

def mark (nodes : SymbolNodes) (i : Nat) (kind : TokenKind) : SymbolNodes where
  table := nodes.table.modify i fun node => { node with kind := some kind }

/-- The nodes with one more symbol. The empty one is no symbol. -/
def insert (nodes : SymbolNodes) (symbol : List Char) (kind : TokenKind) : SymbolNodes :=
  let (nodes, last) := nodes.spell 0 symbol
  if last = 0 then nodes else nodes.mark last kind

@[simp] theorem size_link : (nodes.link i c).size = nodes.size + 1 := by
  simp [size, link]

@[simp] theorem size_mark (kind : TokenKind) : (nodes.mark i kind).size = nodes.size := by
  simp [size, mark]

theorem node_of_size_le (h : nodes.size ≤ i) : nodes.node i = .root := by
  rw [node, List.getD_eq_getElem?_getD, List.getElem?_eq_none h]
  rfl

theorem node_of_lt (h : i < nodes.table.length) : nodes.node i = nodes.table[i] := by
  rw [node, List.getD_eq_getElem?_getD, List.getElem?_eq_getElem h]
  rfl

theorem getD_modify (h : i < nodes.size) (change : SymbolNode → SymbolNode) (j : Nat) :
    (nodes.table.modify i change).getD j .root =
      if j = i then change (nodes.node i) else nodes.node j := by
  have hlength : i < nodes.table.length := h
  by_cases heq : i = j
  · subst heq
    simp [node, hlength]
  · simp [node, heq, Ne.symm heq]

/-- A new node changes the list of the nodes below the one that it hangs on, and nothing else. -/
theorem node_link (h : i < nodes.size) (j : Nat) : (nodes.link i c).node j =
    if j = nodes.size then ⟨i, [], if i = 0 then some .symbol else none⟩
    else if j = i then { nodes.node i with children := (c, nodes.size) :: (nodes.node i).children }
    else nodes.node j := by
  have hlength : nodes.table.length = nodes.size := rfl
  rw [node, link, List.getD_eq_getElem?_getD, List.getElem?_append, List.length_modify, hlength]
  by_cases hlt : j < nodes.size
  · rw [if_pos hlt, if_neg (Nat.ne_of_lt hlt), ← List.getD_eq_getElem?_getD, getD_modify h]
  · rw [if_neg hlt]
    by_cases heq : j = nodes.size
    · simp [heq]
    · have hij : j ≠ i := by omega
      have hafter : nodes.size < j := by omega
      rw [if_neg heq, if_neg hij, node_of_size_le (Nat.le_of_lt hafter),
        List.getElem?_eq_none (by rw [List.length_singleton]; omega)]
      rfl

theorem node_mark (h : i < nodes.size) (kind : TokenKind) (j : Nat) : (nodes.mark i kind).node j =
    if j = i then { nodes.node i with kind := some kind } else nodes.node j :=
  getD_modify h _ j

/-- A new node is below its parent at its character, and no other node moves. -/
theorem child?_link (h : i < nodes.size) (j : Nat) (d : Char) : (nodes.link i c).child? j d =
    if j = i ∧ d = c then some nodes.size else nodes.child? j d := by
  rw [child?, node_link h, child?]
  by_cases hnew : j = nodes.size
  · have hij : ¬ (j = i ∧ d = c) := by omega
    rw [if_pos hnew, if_neg hij, node_of_size_le (Nat.le_of_eq hnew.symm)]
    rfl
  · by_cases hij : j = i
    · subst hij
      rw [if_neg hnew, if_pos rfl, List.lookup_cons]
      by_cases hd : d = c
      · simp [hd]
      · simp [hd, beq_eq_false_iff_ne.mpr hd]
    · rw [if_neg hnew, if_neg hij, if_neg fun both => hij both.1]

theorem kind?_link (h : i < nodes.size) (j : Nat) : (nodes.link i c).kind? j =
    if j = nodes.size then if i = 0 then some .symbol else none else nodes.kind? j := by
  rw [kind?, node_link h]
  split
  · rfl
  · split
    · next heq => rw [heq, kind?]
    · rfl

theorem parent_link (h : i < nodes.size) (j : Nat) : (nodes.link i c).parent j =
    if j = nodes.size then i else nodes.parent j := by
  rw [parent, node_link h]
  split
  · rfl
  · split
    · next heq => rw [heq, parent]
    · rfl

theorem child?_mark (h : i < nodes.size) (kind : TokenKind) (j : Nat) (d : Char) :
    (nodes.mark i kind).child? j d = nodes.child? j d := by
  rw [child?, node_mark h]
  split
  · next heq => rw [heq, child?]
  · rfl

theorem kind?_mark (h : i < nodes.size) (kind : TokenKind) (j : Nat) :
    (nodes.mark i kind).kind? j = if j = i then some kind else nodes.kind? j := by
  rw [kind?, node_mark h]
  split <;> rfl

theorem parent_mark (h : i < nodes.size) (kind : TokenKind) (j : Nat) :
    (nodes.mark i kind).parent j = nodes.parent j := by
  rw [parent, node_mark h]
  split
  · next heq => rw [heq, parent]
  · rfl

theorem child?_root (i : Nat) (c : Char) : child? ⟨[.root]⟩ i c = none := by
  cases i <;> rfl

def Below (nodes : SymbolNodes) (i : Nat) : Prop := 0 < i ∧ i < nodes.size

/-- What the nodes of a tree keep to. A node is below another one at one character only, and knows
that node as the one above it. No symbol ends at the root, and one ends at each node right below. -/
structure WellFormed (nodes : SymbolNodes) : Prop where
  size_pos : 0 < nodes.size
  kind_root : nodes.kind? 0 = none
  kind_first : ∀ i, nodes.Below i → nodes.parent i = 0 → nodes.kind? i ≠ none
  parent_lt : ∀ i, 0 < i → nodes.parent i < i
  below_child : ∀ i c j, nodes.child? i c = some j → nodes.Below j
  parent_child : ∀ i c j, nodes.child? i c = some j → nodes.parent j = i
  child_inj : ∀ i c d j, nodes.child? i c = some j → nodes.child? i d = some j → c = d

namespace WellFormed

/-- The root alone. -/
theorem root : WellFormed ⟨[.root]⟩ where
  size_pos := Nat.one_pos
  kind_root := rfl
  kind_first i h := absurd h.2 (Nat.not_lt_of_le h.1)
  parent_lt i h := by
    rw [parent, node_of_size_le h]
    exact h
  below_child i c j h := by
    cases child?_root i c ▸ h
  parent_child i c j h := by
    cases child?_root i c ▸ h
  child_inj i c d j h := by
    cases child?_root i c ▸ h

/-- A new node below another one keeps the nodes well-formed. -/
theorem link (hnodes : nodes.WellFormed) (hi : i < nodes.size) (c : Char) :
    (nodes.link i c).WellFormed where
  size_pos := by simp
  kind_root := by
    have hpos := hnodes.size_pos
    rw [kind?_link hi, if_neg (Nat.ne_of_lt hpos), hnodes.kind_root]
  kind_first j hj hfirst := by
    rw [parent_link hi] at hfirst
    rw [kind?_link hi]
    split
    · next heq =>
      rw [if_pos heq] at hfirst
      simp [hfirst]
    · next hne =>
      rw [if_neg hne] at hfirst
      have hsize : j < nodes.size + 1 := size_link ▸ hj.2
      exact hnodes.kind_first j ⟨hj.1, by omega⟩ hfirst
  parent_lt j hj := by
    rw [parent_link hi]
    split
    · omega
    · exact hnodes.parent_lt j hj
  below_child j d k hchild := by
    rw [child?_link hi] at hchild
    rw [Below, size_link]
    split at hchild
    · have hpos := hnodes.size_pos
      cases hchild
      omega
    · have hbelow := hnodes.below_child j d k hchild
      exact ⟨hbelow.1, Nat.lt_succ_of_lt hbelow.2⟩
  parent_child j d k hchild := by
    rw [child?_link hi] at hchild
    rw [parent_link hi]
    split at hchild
    · next hboth =>
      cases hchild
      rw [if_pos rfl, hboth.1]
    · have hbelow := hnodes.below_child j d k hchild
      rw [if_neg (Nat.ne_of_lt hbelow.2), hnodes.parent_child j d k hchild]
  child_inj j d e k hd he := by
    rw [child?_link hi] at hd he
    have hold {a : Char} (h : nodes.child? j a = some k) : k ≠ nodes.size :=
      Nat.ne_of_lt (hnodes.below_child j a k h).2
    split at hd <;> split at he
    · next hleft hright => rw [hleft.2, hright.2]
    · exact absurd (Option.some.inj hd).symm (hold he)
    · exact absurd (Option.some.inj he).symm (hold hd)
    · exact hnodes.child_inj j d e k hd he

/-- A symbol that ends at a node below the root keeps the nodes well-formed. -/
theorem mark (hnodes : nodes.WellFormed) (hi : nodes.Below i) (kind : TokenKind) :
    (nodes.mark i kind).WellFormed where
  size_pos := by rw [size_mark]; exact hnodes.size_pos
  kind_root := by
    rw [kind?_mark hi.2, if_neg (Nat.ne_of_lt hi.1), hnodes.kind_root]
  kind_first j hj hfirst := by
    rw [Below, size_mark] at hj
    rw [parent_mark hi.2] at hfirst
    rw [kind?_mark hi.2]
    split
    · exact Option.some_ne_none kind
    · exact hnodes.kind_first j hj hfirst
  parent_lt j hj := by
    rw [parent_mark hi.2]
    exact hnodes.parent_lt j hj
  below_child j d k hchild := by
    rw [child?_mark hi.2] at hchild
    rw [Below, size_mark]
    exact hnodes.below_child j d k hchild
  parent_child j d k hchild := by
    rw [child?_mark hi.2] at hchild
    rw [parent_mark hi.2]
    exact hnodes.parent_child j d k hchild
  child_inj j d e k hd he := by
    rw [child?_mark hi.2] at hd he
    exact hnodes.child_inj j d e k hd he

/-- What entering a node leaves: the nodes are well formed, and the node is one of them. -/
theorem enter (hnodes : nodes.WellFormed) (hi : i < nodes.size) (c : Char) :
    (nodes.enter i c).1.WellFormed ∧ (nodes.enter i c).1.Below (nodes.enter i c).2 := by
  unfold SymbolNodes.enter
  split
  · next child hchild => exact ⟨hnodes, hnodes.below_child i c child hchild⟩
  · refine ⟨hnodes.link hi c, hnodes.size_pos, ?_⟩
    rw [size_link]
    exact Nat.lt_succ_self _

theorem spell (hnodes : nodes.WellFormed) (hi : i < nodes.size) (symbol : List Char) :
    (nodes.spell i symbol).1.WellFormed ∧
      (nodes.spell i symbol).2 < (nodes.spell i symbol).1.size := by
  induction symbol generalizing nodes i with
  | nil => exact ⟨hnodes, hi⟩
  | cons c rest ih =>
    obtain ⟨hentered, hbelow⟩ := hnodes.enter hi c
    exact ih hentered hbelow.2

theorem insert (hnodes : nodes.WellFormed) (symbol : List Char) (kind : TokenKind) :
    (nodes.insert symbol kind).WellFormed := by
  obtain ⟨hspelled, hlast⟩ := hnodes.spell hnodes.size_pos symbol
  unfold SymbolNodes.insert
  dsimp only
  split
  · exact hspelled
  · next hne => exact hspelled.mark ⟨Nat.pos_of_ne_zero hne, hlast⟩ kind

theorem below_parent (hnodes : nodes.WellFormed) (hi : nodes.Below i) (hnone : nodes.kind? i = none) :
    nodes.Below (nodes.parent i) := by
  have hlt := hnodes.parent_lt i hi.1
  have hne : nodes.parent i ≠ 0 := fun hfirst => hnodes.kind_first i hi hfirst hnone
  exact ⟨Nat.pos_of_ne_zero hne, Nat.lt_trans hlt hi.2⟩

end WellFormed

end SymbolNodes

/-- A tree of symbols: nodes that keep to what the nodes of a tree keep to. -/
structure SymbolTree extends SymbolNodes where
  wellFormed : toSymbolNodes.WellFormed

namespace SymbolTree

def empty : SymbolTree := ⟨⟨[.root]⟩, .root⟩

/-- The tree with one more symbol. A symbol that is registered again changes its kind. -/
def insert (tree : SymbolTree) (symbol : String) (kind : TokenKind) : SymbolTree :=
  ⟨tree.toSymbolNodes.insert symbol.toList kind, tree.wellFormed.insert symbol.toList kind⟩

def Inner (tree : SymbolTree) : Type := { i // tree.Below i }

def inner? (tree : SymbolTree) (i : Nat) (c : Char) : Option tree.Inner :=
  match h : tree.child? i c with
  | some child => some ⟨child, tree.wellFormed.below_child i c child h⟩
  | none => none

/-- The deepest node that the text leads to, what was read on the way to it, and the cursor behind
that. -/
def descend (tree : SymbolTree) (node : tree.Inner) (read : List Char) (cursor : Cursor) :
    tree.Inner × List Char × Cursor :=
  match _ : cursor.ahead with
  | [] => (node, read, cursor)
  | c :: _ =>
    match tree.inner? node.1 c with
    | some below => tree.descend below (read ++ [c]) cursor.advance
    | none => (node, read, cursor)
termination_by cursor.ahead.length
decreasing_by simp [*]

/-- The way back up to the nearest node where a symbol ends. -/
def backOff (tree : SymbolTree) (node : tree.Inner) (read : List Char) (cursor : Cursor) :
    TokenKind × List Char × Cursor :=
  match h : tree.kind? node.1 with
  | some kind => (kind, read, cursor)
  | none =>
    tree.backOff ⟨tree.parent node.1, tree.wellFormed.below_parent node.2 h⟩ read.dropLast
      cursor.retreat
termination_by node.1
decreasing_by exact tree.wellFormed.parent_lt node.1 node.2.1

/-- Reads the longest symbol, or else a single character. -/
def read (tree : SymbolTree) (cursor : Cursor) : Option (TokenKind × List Char) × Cursor :=
  match cursor.peek? with
  | none => (none, cursor)
  | some first =>
    match tree.inner? 0 first with
    | none => (some (.symbol, [first]), cursor.advance)
    | some node =>
      let (deepest, read, after) := tree.descend node [first] cursor.advance
      let (kind, chars, after) := tree.backOff deepest read after
      (some (kind, chars), after)

/-- The kind and the length of the longest symbol in front of a text, on the way down from a
node. -/
def longestFrom? (tree : SymbolTree) (i : Nat) : List Char → Option (TokenKind × Nat)
  | [] => (tree.kind? i).map (·, 0)
  | c :: rest =>
    match tree.child? i c with
    | none => (tree.kind? i).map (·, 0)
    | some child =>
      match tree.longestFrom? child rest with
      | some (kind, n) => some (kind, n + 1)
      | none => (tree.kind? i).map (·, 0)

def longest? (cs : List Char) (tree : SymbolTree) : Option (TokenKind × Nat) :=
  tree.longestFrom? 0 cs

/-- The longest symbol in front of a text, or its first character. -/
def next? (tree : SymbolTree) (cs : List Char) : Option (TokenKind × List Char) :=
  match cs with
  | [] => none
  | c :: _ =>
    match longest? cs tree with
    | some (kind, n) => some (kind, cs.take n)
    | none => some (.symbol, [c])

variable {tree : SymbolTree} {i : Nat} {c : Char} {cs : List Char}

theorem map_inner? (tree : SymbolTree) (i : Nat) (c : Char) :
    (tree.inner? i c).map (·.1) = tree.child? i c := by
  unfold inner?
  split
  · next child h => exact h.symm
  · next h => exact h.symm

theorem kind?_of_longestFrom? (h : tree.longestFrom? i cs = none) : tree.kind? i = none := by
  unfold longestFrom? at h
  split at h
  · exact Option.map_eq_none_iff.mp h
  · split at h
    · exact Option.map_eq_none_iff.mp h
    · split at h
      · cases h
      · exact Option.map_eq_none_iff.mp h

theorem backOff_of_kind {node : tree.Inner} {kind : TokenKind} (h : tree.kind? node.1 = some kind)
    (read : List Char) (cursor : Cursor) : tree.backOff node read cursor = (kind, read, cursor) := by
  rw [backOff]
  split
  · next heq => rw [Option.some.inj (h.symm.trans heq)]
  · next heq => cases h.symm.trans heq

/-- Without a symbol of its own, the way back goes on from the node above. -/
theorem backOff_of_none {node above : tree.Inner} (h : tree.kind? node.1 = none)
    (habove : tree.parent node.1 = above.1) (read : List Char) (cursor : Cursor) :
    tree.backOff node read cursor = tree.backOff above read.dropLast cursor.retreat := by
  rw [backOff]
  split
  · next heq => cases h.symm.trans heq
  · congr 1
    exact Subtype.ext habove

theorem descend_of_ahead {cursor : Cursor} {rest : List Char} (h : cursor.ahead = c :: rest)
    (node : tree.Inner) (read : List Char) : tree.descend node read cursor =
      match tree.inner? node.1 c with
      | some below => tree.descend below (read ++ [c]) cursor.advance
      | none => (node, read, cursor) := by
  rw [descend]
  split
  · next heq => cases h.symm.trans heq
  · next heq =>
    cases h.symm.trans heq
    rfl

/-- The way down from a node and back up ends at the longest symbol below the node. If there is
none, it goes on as the way back up from the node. -/
theorem backOff_descend (tree : SymbolTree) (node : tree.Inner) (read : List Char)
    (cursor : Cursor) :
    (let way := tree.descend node read cursor; tree.backOff way.1 way.2.1 way.2.2) =
      match tree.longestFrom? node.1 cursor.ahead with
      | some (kind, n) => (kind, read ++ cursor.ahead.take n, cursor.skip n)
      | none => tree.backOff node read cursor := by
  have hown (node : tree.Inner) (read : List Char) (cursor : Cursor) : tree.backOff node read cursor =
      match (tree.kind? node.1).map (·, 0) with
      | some (kind, n) => (kind, read ++ cursor.ahead.take n, cursor.skip n)
      | none => tree.backOff node read cursor := by
    cases hkind : tree.kind? node.1 with
    | none => rfl
    | some kind => simp [backOff_of_kind hkind, Cursor.skip]
  induction hahead : cursor.ahead generalizing node read cursor with
  | nil =>
    have hstop : tree.descend node read cursor = (node, read, cursor) := by
      rw [descend]
      split
      · rfl
      · next heq => cases hahead.symm.trans heq
    rw [hstop, longestFrom?, ← hahead]
    exact hown node read cursor
  | cons c rest ih =>
    have hchild := tree.map_inner? node.1 c
    rw [descend_of_ahead hahead, longestFrom?, ← hchild]
    cases hinner : tree.inner? node.1 c with
    | none =>
      rw [← hahead]
      exact hown node read cursor
    | some below =>
      rw [hinner] at hchild
      have hparent : tree.parent below.1 = node.1 :=
        tree.wellFormed.parent_child node.1 c below.1 hchild.symm
      have hbelow := ih below (read ++ [c]) cursor.advance (by simp [hahead])
      dsimp only [Option.map_some] at hbelow ⊢
      rw [hbelow]
      cases hlongest : tree.longestFrom? below.1 rest with
      | some found => simp [Cursor.advance_eq_skip, Cursor.skip_skip, Nat.add_comm]
      | none =>
        dsimp only
        rw [backOff_of_none (kind?_of_longestFrom? hlongest) hparent, List.dropLast_concat,
          Cursor.retreat_advance hahead, ← hahead]
        exact hown node read cursor

/-- A symbol is read from a cursor as it stands in the text in front, and the cursor is behind
it. -/
theorem read_eq (tree : SymbolTree) (cursor : Cursor) : tree.read cursor =
    (tree.next? cursor.ahead,
      (tree.next? cursor.ahead).elim cursor fun found => cursor.skip found.2.length) := by
  unfold read next? longest?
  rw [Cursor.peek?]
  cases hahead : cursor.ahead with
  | nil => rfl
  | cons c rest =>
    have hchild := tree.map_inner? 0 c
    rw [longestFrom?, ← hchild, List.head?_cons]
    dsimp only
    cases hinner : tree.inner? 0 c with
    | none =>
      simp [tree.wellFormed.kind_root, Cursor.advance_eq_skip]
    | some node =>
      rw [hinner] at hchild
      have hfirst : tree.kind? node.1 ≠ none := by
        refine tree.wellFormed.kind_first node.1 node.2 ?_
        exact tree.wellFormed.parent_child 0 c node.1 hchild.symm
      cases hlongest : tree.longestFrom? node.1 rest with
      | none => exact absurd (kind?_of_longestFrom? hlongest) hfirst
      | some found =>
        obtain ⟨kind, n⟩ := found
        have hway := tree.backOff_descend node [c] cursor.advance
        have hskip : cursor.advance.skip n = cursor.skip ((c :: rest).take (n + 1)).length := by
          rw [← hahead, Cursor.skip_length_take, Cursor.advance_eq_skip, Cursor.skip_skip,
            Nat.add_comm]
        rw [Cursor.ahead_advance, hahead, List.tail_cons, hlongest] at hway
        dsimp only [Option.map_some] at hway ⊢
        rw [hlongest, hway, hskip]
        rfl

end SymbolTree

end Formulary
