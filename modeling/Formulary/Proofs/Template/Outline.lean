import Mathlib.Data.List.Infix
import Mathlib.Data.List.Lattice
import Mathlib.Data.List.Nodup
import Mathlib.Data.List.Pairwise
import Mathlib.Logic.Relation
import Formulary.Proofs.Template.Nesting

/-!
# Outlines of nested tags

The outline of the nodes that tags nest to lists the tags in order, without the ends of sections. A
walk that goes through the body of each node before those beside it meets the numbers of the outline
one after the other. Who is whose parent, and what is inside a section, follows from that walk.
-/

namespace Formulary.Template

def Tag.isClosing : Tag → Bool
  | closing _ => true
  | leaf _ | opening _ => false

def withoutEnds (tags : List (Placed Tag)) : List (Placed Tag) :=
  tags.filter fun tag => !tag.content.isClosing

def children (outline : List Heading) (number : Nat) : List Nat :=
  (outline[number]?.map (·.body)).getD []

def IsChild (outline : List Heading) (parent number : Nat) : Prop :=
  number ∈ children outline parent

/-- The numbers that a walk meets which starts from some numbers side by side and goes through the
body of each before it goes on. -/
inductive Walks (outline : List Heading) : List Nat → List Nat → Prop
  | nil : Walks outline [] []
  | cons {number rest inner others} (found : number < outline.length)
    (within : Walks outline (children outline number) inner)
    (beside : Walks outline rest others) :
    Walks outline (number :: rest) (number :: (inner ++ others))

/-! Walks -/

namespace Walks

variable {outline : List Heading} {numbers visited : List Nat}

/-- There is only one walk from given numbers. -/
theorem unique {others : List Nat} (h : Walks outline numbers visited)
    (hothers : Walks outline numbers others) : visited = others := by
  induction h generalizing others with
  | nil =>
    cases hothers
    rfl
  | cons _ _ _ ihWithin ihBeside =>
    cases hothers with
    | cons _ hwithin hbeside => rw [ihWithin hwithin, ihBeside hbeside]

theorem sublist (h : Walks outline numbers visited) : numbers.Sublist visited := by
  induction h with
  | nil => exact .slnil
  | cons _ _ _ _ ih => exact (ih.trans (List.sublist_append_right _ _)).cons_cons _

/-- A walk meets a number first, and the numbers in its body later in their order. -/
theorem children_sublist (h : Walks outline numbers visited) {parent : Nat}
    (hparent : parent ∈ visited) : (parent :: children outline parent).Sublist visited := by
  induction h with
  | nil => cases hparent
  | @cons number rest inner others _ hwithin _ ihWithin ihBeside =>
    rcases List.mem_cons.mp hparent with rfl | hparent
    · exact (hwithin.sublist.trans (List.sublist_append_left inner others)).cons_cons parent
    rcases List.mem_append.mp hparent with hparent | hparent
    · exact ((ihWithin hparent).trans (List.sublist_append_left inner others)).cons number
    · exact ((ihBeside hparent).trans (List.sublist_append_right inner others)).cons number

/-- What a walk meets is what it starts from and, once each, what is in the bodies it meets. -/
theorem perm (h : Walks outline numbers visited) :
    (numbers ++ visited.flatMap (children outline)).Perm visited := by
  induction h with
  | nil => exact .nil
  | @cons number rest inner others _ _ _ ihWithin ihBeside =>
    rw [List.flatMap_cons, List.flatMap_append, ← List.append_assoc (children outline number)]
    exact .cons number ((List.perm_append_comm_assoc _ _ _).trans (ihWithin.append ihBeside))

/-- A walk meets exactly what it starts from and what is inside that. -/
theorem mem_iff (h : Walks outline numbers visited) {number : Nat} :
    number ∈ visited ↔
      ∃ first ∈ numbers, Relation.ReflTransGen (IsChild outline) first number := by
  induction h with
  | nil => exact ⟨nofun, nofun⟩
  | @cons top rest inner others _ _ _ ihWithin ihBeside =>
    rw [List.mem_cons, List.mem_append, ihWithin, ihBeside, List.exists_mem_cons_iff,
      Relation.ReflTransGen.cases_head_iff, or_assoc, eq_comm]
    rfl

end Walks

/-! The headings of nodes in an outline -/

namespace Node

/-- What holds of no nodes, and of nodes with one more in front that stands alone or is a section,
holds of all nodes. -/
theorem induction_all {motive : List Node → Prop} (nil : motive [])
    (leaf : ∀ l rest, motive rest → motive (.leaf l :: rest))
    (block : ∀ o body rest, motive body → motive rest → motive (.block o body :: rest)) :
    ∀ nodes, motive nodes
  | [] => nil
  | .leaf l :: rest => leaf l rest (induction_all nil leaf block rest)
  | .block o body :: rest =>
    block o body rest (induction_all nil leaf block body) (induction_all nil leaf block rest)

theorem length_headingsOfAll (nodes : List Node) (first : Nat) :
    (headingsOfAll first nodes).length = sizeOfAll nodes := by
  induction nodes using induction_all generalizing first with
  | nil => rfl
  | leaf l rest ihRest =>
    rw [headingsOfAll, List.length_append, ihRest]
    rfl
  | block o body rest ihBody ihRest =>
    rw [headingsOfAll, headings, List.length_append, List.length_cons, ihBody, ihRest, sizeOfAll,
      size, Nat.add_comm 1]

theorem length_headings (node : Node) (number : Nat) :
    (node.headings number).length = node.size := by
  cases node with
  | leaf l => rfl
  | block o body => rw [headings, List.length_cons, length_headingsOfAll, size, Nat.add_comm]

variable {all : List Heading} {first : Nat}

theorem children_of_prefix {heading : Heading} {others : List Heading}
    (h : heading :: others <+: all.drop first) :
    first < all.length ∧ children all first = heading.body := by
  obtain ⟨behind, hbehind⟩ := h
  have hget : all[first]? = some heading := by
    rw [← List.head?_drop, ← hbehind]
    rfl
  exact ⟨(List.getElem?_eq_some_iff.mp hget).1, by rw [children, hget]; rfl⟩

theorem prefix_drop {headings others : List Heading}
    (h : headings ++ others <+: all.drop first) :
    others <+: all.drop (first + headings.length) := by
  have hdrop := h.drop headings.length
  rwa [List.drop_left, List.drop_drop] at hdrop

theorem prefix_tail {heading : Heading} {others : List Heading}
    (h : heading :: others <+: all.drop first) : others <+: all.drop (first + 1) :=
  prefix_drop (List.singleton_append ▸ h)

/-- A walk that starts from nodes side by side meets their numbers one after the other. -/
theorem walks_of_prefix {nodes : List Node} (h : headingsOfAll first nodes <+: all.drop first) :
    Walks all (numbers first nodes) (List.range' first (sizeOfAll nodes)) := by
  induction nodes using induction_all generalizing first with
  | nil => exact .nil
  | leaf l rest ihRest =>
    obtain ⟨hfound, hchildren⟩ := children_of_prefix h
    have hwithin : Walks all (children all first) [] := by
      rw [hchildren]
      exact .nil
    rw [sizeOfAll, size, Nat.add_comm, List.range'_succ]
    exact .cons hfound hwithin (ihRest (prefix_tail h))
  | block o body rest ihBody ihRest =>
    obtain ⟨hfound, hchildren⟩ := children_of_prefix h
    have hbody : headingsOfAll (first + 1) body <+: all.drop (first + 1) :=
      (List.prefix_append _ _).trans (prefix_tail h)
    have hwithin : Walks all (children all first)
        (List.range' (first + 1) (sizeOfAll body)) := by
      rw [hchildren]
      exact ihBody hbody
    have hrest := prefix_drop h
    rw [length_headings] at hrest
    have hvisited : List.range' first (1 + sizeOfAll body + sizeOfAll rest) =
        first :: (List.range' (first + 1) (sizeOfAll body) ++
          List.range' (first + (1 + sizeOfAll body)) (sizeOfAll rest)) := by
      rw [Nat.add_assoc, Nat.add_comm 1 (_ + _), List.range'_succ, ← List.range'_append_1,
        Nat.add_assoc]
    rw [sizeOfAll, size, hvisited]
    exact .cons hfound hwithin (ihRest hrest)

/-- A walk from the whole meets all numbers one after the other. -/
theorem walks_outline (nodes : List Node) :
    Walks (outline nodes) [0] (List.range (outline nodes).length) := by
  have hbody : Walks (outline nodes) (numbers 1 nodes) (List.range' 1 (sizeOfAll nodes)) :=
    walks_of_prefix List.prefix_rfl
  have hwhole : Walks (outline nodes) [0] (0 :: (List.range' 1 (sizeOfAll nodes) ++ [])) :=
    .cons (Nat.zero_lt_succ _) hbody .nil
  rwa [List.append_nil, ← Nat.zero_add 1, ← List.range'_succ, ← List.range_eq_range',
    ← length_headingsOfAll nodes 1] at hwhole

end Node

/-! The headings of tags that nest -/

theorem withoutEnds_block (o : Opening) (p : Position) (body : List (Placed Tag))
    (name : Option String) (q : Position) (rest : List (Placed Tag)) :
    withoutEnds (⟨.opening o, p⟩ :: (body ++ ⟨.closing name, q⟩ :: rest)) =
      ⟨.opening o, p⟩ :: (withoutEnds body ++ withoutEnds rest) :=
  congrArg _ (List.filter_append body _)

/-- Where a start stands among tags of which the first opens a section: it is that one, or it is
inside the section, or it is behind the end. -/
theorem start_cases {first o : Opening} {place p q : Position} {name : Option String}
    {inside others front rest : List (Placed Tag)}
    (h : ⟨.opening first, place⟩ :: (inside ++ ⟨.closing name, q⟩ :: others) =
      front ++ ⟨.opening o, p⟩ :: rest) :
    (front = [] ∧ first = o ∧ place = p ∧ rest = inside ++ ⟨.closing name, q⟩ :: others) ∨
    (∃ before behind, front = ⟨.opening first, place⟩ :: before ∧
      inside = before ++ ⟨.opening o, p⟩ :: behind ∧
      rest = behind ++ ⟨.closing name, q⟩ :: others) ∨
    (∃ before, front = ⟨.opening first, place⟩ :: (inside ++ ⟨.closing name, q⟩ :: before) ∧
      others = before ++ ⟨.opening o, p⟩ :: rest) := by
  rcases List.cons_eq_append_iff.mp h with ⟨rfl, hhead⟩ | ⟨before, rfl, htail⟩
  · cases hhead
    exact .inl ⟨rfl, rfl, rfl, rfl⟩
  rcases List.append_eq_append_iff.mp htail with ⟨middle, rfl, hmiddle⟩ | ⟨middle, rfl, hmiddle⟩
  · rcases List.cons_eq_append_iff.mp hmiddle with ⟨-, hhead⟩ | ⟨before, rfl, hothers⟩
    · cases hhead
    · exact .inr (.inr ⟨before, rfl, hothers⟩)
  · rcases List.cons_eq_append_iff.mp hmiddle with ⟨-, hhead⟩ | ⟨behind, rfl, hrest⟩
    · cases hhead
    · exact .inr (.inl ⟨before, behind, rfl, rfl, hrest⟩)

namespace Nests

variable {tags : List (Placed Tag)} {nodes : List Node}

/-- The headings of nested tags have the tags without ends, in order. -/
theorem tags_headings (h : Nests tags nodes) (first : Nat) :
    (Node.headingsOfAll first nodes).map (·.tag) = (withoutEnds tags).map some := by
  induction h generalizing first with
  | nil => rfl
  | leaf _ ih =>
    rw [Node.headingsOfAll, List.map_append, ih]
    rfl
  | block _ _ _ ihWithin ihOthers =>
    rw [Node.headingsOfAll, Node.headings, List.map_append, List.map_cons, ihWithin, ihOthers,
      withoutEnds_block, List.map_cons, List.map_append]
    rfl

theorem size_eq (h : Nests tags nodes) : Node.sizeOfAll nodes = (withoutEnds tags).length := by
  have hlength := congrArg List.length (h.tags_headings 0)
  rwa [List.length_map, List.length_map, Node.length_headingsOfAll] at hlength

/-- The start of a section has its end among the tags behind it. The headings of the section stand
where its start comes among the tags without ends. -/
theorem exists_end (h : Nests tags nodes) {front rest : List (Placed Tag)} {o : Opening}
    {p : Position} (htags : tags = front ++ ⟨.opening o, p⟩ :: rest) :
    ∃ body name q others inner, rest = body ++ ⟨.closing name, q⟩ :: others ∧
      o.isClosedBy name = true ∧ Nests body inner ∧
      ∀ (all : List Heading) first, Node.headingsOfAll first nodes <+: all.drop first →
        (Node.block ⟨o, p⟩ inner).headings (first + (withoutEnds front).length) <+:
          all.drop (first + (withoutEnds front).length) := by
  induction h generalizing front rest with
  | nil => exact absurd htags.symm (List.append_ne_nil_of_right_ne_nil _ (List.cons_ne_nil _ _))
  | @leaf l place tags nodes _ ih =>
    rcases List.cons_eq_append_iff.mp htags with ⟨-, hhead⟩ | ⟨before, rfl, hbehind⟩
    · cases hhead
    obtain ⟨body, name, q, others, inner, hrest, hclosed, hnests, hplace⟩ := ih hbehind
    refine ⟨body, name, q, others, inner, hrest, hclosed, hnests, fun all first hall => ?_⟩
    have hnumber : first + (withoutEnds (⟨.leaf l, place⟩ :: before)).length =
        first + 1 + (withoutEnds before).length := Nat.add_right_comm first _ 1
    rw [hnumber]
    exact hplace all (first + 1) (Node.prefix_tail hall)
  | @block start place inside within name q tags nodes hclosed hwithin _ ihWithin ihOthers =>
    rcases start_cases htags with ⟨rfl, rfl, rfl, rfl⟩ | ⟨before, behind, rfl, rfl, rfl⟩ |
      ⟨before, rfl, rfl⟩
    · exact ⟨inside, name, q, tags, within, rfl, hclosed, hwithin,
        fun all first hall => (List.prefix_append _ _).trans hall⟩
    · obtain ⟨body, other, there, others, inner, rfl, hcloses, hnests, hplace⟩ := ihWithin rfl
      refine ⟨body, other, there, others ++ ⟨.closing name, q⟩ :: tags, inner,
        List.append_assoc .., hcloses, hnests, fun all first hall => ?_⟩
      have hnumber : first + (withoutEnds (⟨.opening start, place⟩ :: before)).length =
          first + 1 + (withoutEnds before).length := Nat.add_right_comm first _ 1
      rw [hnumber]
      exact hplace all (first + 1)
        ((List.prefix_append _ _).trans (Node.prefix_tail hall))
    · obtain ⟨body, other, there, others, inner, hrest, hcloses, hnests, hplace⟩ := ihOthers rfl
      refine ⟨body, other, there, others, inner, hrest, hcloses, hnests, fun all first hall => ?_⟩
      have hafter := Node.prefix_drop hall
      rw [Node.length_headings] at hafter
      have hnumber : first + (withoutEnds (⟨.opening start, place⟩ ::
          (inside ++ ⟨.closing name, q⟩ :: before))).length =
          first + (Node.block ⟨start, place⟩ within).size + (withoutEnds before).length := by
        rw [withoutEnds_block, List.length_cons, List.length_append, Node.size, hwithin.size_eq]
        omega
      rw [hnumber]
      exact hplace all _ hafter

end Nests

/-! Outlines of which a walk meets all numbers in order -/

section Ordered

variable {outline : List Heading} (h : Walks outline [0] (List.range outline.length))
  {parent number : Nat}

theorem lt_length_of_isChild (hchild : IsChild outline parent number) :
    parent < outline.length := by
  by_contra hout
  rw [IsChild, children, List.getElem?_eq_none (Nat.le_of_not_lt hout)] at hchild
  cases hchild

include h

theorem pairwise_children (hparent : parent < outline.length) :
    (parent :: children outline parent).Pairwise (· < ·) :=
  List.pairwise_lt_range.sublist (h.children_sublist (List.mem_range.mpr hparent))

theorem lt_of_isChild (hchild : IsChild outline parent number) :
    parent < number ∧ number < outline.length := by
  have hparent := lt_length_of_isChild hchild
  have hsublist := h.children_sublist (List.mem_range.mpr hparent)
  exact ⟨List.rel_of_pairwise_cons (pairwise_children h hparent) hchild,
    List.mem_range.mp (hsublist.mem (.tail _ hchild))⟩

/-- Every number but that of the whole is in exactly one body. -/
theorem existsUnique_parent (hpos : 0 < number) (hlt : number < outline.length) :
    ∃! parent, IsChild outline parent number := by
  have hperm := h.perm
  have hmem : number ∈ [0] ++ (List.range outline.length).flatMap (children outline) :=
    hperm.mem_iff.mpr (List.mem_range.mpr hlt)
  rcases List.mem_append.mp hmem with hzero | hmem
  · exact absurd (List.mem_singleton.mp hzero) (Nat.ne_of_gt hpos)
  obtain ⟨parent, hparent, hchild⟩ := List.mem_flatMap.mp hmem
  have hnodup : ((List.range outline.length).flatMap (children outline)).Nodup :=
    (List.nodup_cons.mp (hperm.nodup_iff.mpr List.nodup_range)).2
  refine ⟨parent, hchild, fun other hother => ?_⟩
  by_contra hne
  -- Two bodies with the number would be met by one walk.
  have : Std.Symm (Function.onFun List.Disjoint (children outline)) :=
    ⟨fun _ _ => List.Disjoint.symm⟩
  have hdisjoint := (List.nodup_flatMap.mp hnodup).2.forall
    (List.mem_range.mpr (lt_length_of_isChild hother)) hparent hne
  exact hdisjoint hother hchild

end Ordered

/-- What an outline says of tags that nest: its numbers go through the tags without ends in their
order. Every number but that of the whole is in exactly one body, and that is the body of a smaller
one. Bodies ascend, and a walk from the whole meets all numbers in order, so that it gives back the
tags without ends. What is inside a section are the tags between its start and the end that closes
it. -/
structure Outlines (tags : List (Placed Tag)) (outline : List Heading) : Prop where
  order : outline.map (·.tag) = none :: (withoutEnds tags).map some
  parent : ∀ number, 0 < number → number < outline.length → ∃! parent, IsChild outline parent number
  smaller : ∀ parent number, IsChild outline parent number → parent < number ∧
    number < outline.length
  ascending : ∀ heading ∈ outline, heading.body.Pairwise (· < ·)
  walk : ∀ visited, Walks outline [0] visited ↔ visited = List.range outline.length
  given : ∀ visited, Walks outline [0] visited →
    visited.filterMap (fun number => outline[number]?.bind (·.tag)) = withoutEnds tags
  inside : ∀ front o p rest, tags = front ++ ⟨.opening o, p⟩ :: rest →
    ∃ body name q others nodes, rest = body ++ ⟨.closing name, q⟩ :: others ∧
      o.isClosedBy name = true ∧ Nests body nodes ∧
      ∀ number, Relation.TransGen (IsChild outline) ((withoutEnds front).length + 1) number ↔
        (withoutEnds front).length + 1 < number ∧
          number ≤ (withoutEnds front).length + 1 + (withoutEnds body).length

/-- What is inside a section are the numbers right behind its own, one for each node in its body. -/
theorem transGen_isChild_iff {outline : List Heading} {first : Nat} {o : Placed Opening}
    {body : List Node} (h : (Node.block o body).headings first <+: outline.drop first)
    {number : Nat} :
    Relation.TransGen (IsChild outline) first number ↔
      first < number ∧ number ≤ first + Node.sizeOfAll body := by
  have hwalk := Node.walks_of_prefix (Node.prefix_tail h)
  have hchildren := (Node.children_of_prefix h).2
  calc Relation.TransGen (IsChild outline) first number
      ↔ ∃ child ∈ children outline first,
          Relation.ReflTransGen (IsChild outline) child number := Relation.TransGen.head'_iff
    _ ↔ number ∈ List.range' (first + 1) (Node.sizeOfAll body) := by
      rw [hchildren]
      exact hwalk.mem_iff.symm
    _ ↔ first < number ∧ number ≤ first + Node.sizeOfAll body := by
      rw [List.mem_range'_1]
      omega

theorem filterMap_range {outline : List Heading} {tags : List (Placed Tag)}
    (h : outline.map (·.tag) = none :: tags.map some) :
    (List.range outline.length).filterMap (fun number => outline[number]?.bind (·.tag)) = tags := by
  have hheadings : (List.range outline.length).map (outline[·]?) = outline.map some := by
    refine List.ext_getElem (by simp) fun i _ _ => ?_
    simp
  calc
    _ = ((List.range outline.length).map (outline[·]?)).filterMap (·.bind (·.tag)) := by
      rw [List.filterMap_map]
      rfl
    _ = (outline.map (·.tag)).filterMap id := by
      rw [hheadings, List.filterMap_map, List.filterMap_map]
      rfl
    _ = tags := by
      rw [h]
      simp

/-- The outline of nested tags says what an outline is meant to say. -/
theorem outlines_of_nests {tags : List (Placed Tag)} {nodes : List Node} (h : Nests tags nodes) :
    Outlines tags (Node.outline nodes) := by
  have hwalk := Node.walks_outline nodes
  have horder : (Node.outline nodes).map (·.tag) = none :: (withoutEnds tags).map some :=
    congrArg (none :: ·) (h.tags_headings 1)
  refine ⟨horder, fun _ => existsUnique_parent hwalk, fun _ _ => lt_of_isChild hwalk, ?ascending,
    fun visited => ⟨fun hvisited => hvisited.unique hwalk, fun hvisited => hvisited ▸ hwalk⟩,
    fun visited hvisited => ?given, ?inside⟩
  case given =>
    rw [hvisited.unique hwalk]
    exact filterMap_range horder
  case ascending =>
    intro heading hheading
    obtain ⟨parent, hparent⟩ := List.mem_iff_getElem?.mp hheading
    have hbody : children (Node.outline nodes) parent = heading.body := by
      rw [children, hparent]
      rfl
    rw [← hbody]
    exact (pairwise_children hwalk (List.getElem?_eq_some_iff.mp hparent).1).of_cons
  case inside =>
    intro front o p rest htags
    obtain ⟨body, name, q, others, inner, hrest, hclosed, hnests, hplace⟩ := h.exists_end htags
    refine ⟨body, name, q, others, inner, hrest, hclosed, hnests, fun number => ?_⟩
    have hheadings := hplace (Node.outline nodes) 1 List.prefix_rfl
    rw [Nat.add_comm 1] at hheadings
    rw [transGen_isChild_iff hheadings, hnests.size_eq]

/-- Tags become nodes exactly if they nest, and otherwise the error is the first thing wrong with
them, a mismatch of sections. The outline of the nodes has the tags without ends in their order. -/
theorem Node.ofTags_follows_nesting (tags : List (Placed Tag)) :
    (∀ nodes, ofTags tags = .ok nodes ↔ Nests tags nodes) ∧
    (∀ e, ofTags tags = .error e ↔ Faults e tags) ∧
    (∀ e, ofTags tags = .error e → e.fault.sort = .sectionMismatch) ∧
    ∀ nodes, ofTags tags = .ok nodes → Outlines tags (outline nodes) :=
  ⟨fun _ => ofTags_eq_ok_iff, fun _ => ofTags_eq_error_iff,
    fun _ h => (ofTags_eq_error_iff.mp h).sort,
    fun _ h => outlines_of_nests (ofTags_eq_ok_iff.mp h)⟩

/-- A section with a helper that is closed by the helper in other letters, around one with a bare
end, and something behind it. -/
theorem Node.ofTags_follows_nesting_helper :
    let tags : List (Placed Tag) := [
      ⟨.opening ⟨false, "a", some "if"⟩, .first⟩, ⟨.leaf (.literal "x"), .first⟩,
      ⟨.opening ⟨true, "b", none⟩, .first⟩, ⟨.closing none, .first⟩,
      ⟨.closing (some "IF"), .first⟩, ⟨.leaf (.escaped "c"), .first⟩]
    ∃ nodes, ofTags tags = .ok nodes ∧
      (outline nodes).map (·.body) = [[1, 4], [2, 3], [], [], []] ∧
      Outlines tags (outline nodes) := by
  intro tags
  obtain ⟨-, -, -, houtlines⟩ := ofTags_follows_nesting tags
  exact ⟨_, rfl, rfl, houtlines _ rfl⟩

end Formulary.Template
