import Formulary.Template

/-!
# Sections that nest

Tags nest if every end closes the innermost section that is open there, and no section is left open
behind the last tag. Tags become nodes exactly if they nest. Otherwise there is a first end that
closes nothing or another section than the innermost, or else there is an innermost section that is
left open.
-/

namespace Formulary.Template

/-- Tags that nest, and the nodes that they make: a section is what stands between its start and the
end that closes it, and nests by itself. -/
inductive Nests : List (Placed Tag) → List Node → Prop
  | nil : Nests [] []
  | leaf {l p rest nodes} (others : Nests rest nodes) :
    Nests (⟨.leaf l, p⟩ :: rest) (.leaf ⟨l, p⟩ :: nodes)
  | block {o p body inner name q rest nodes} (closed : o.isClosedBy name = true)
    (within : Nests body inner) (others : Nests rest nodes) :
    Nests (⟨.opening o, p⟩ :: (body ++ ⟨.closing name, q⟩ :: rest)) (.block ⟨o, p⟩ inner :: nodes)

/-- Tags behind which sections are open, the innermost first: behind the start of each, the tags up
to the next start nest. -/
inductive Pending : List (Placed Opening) → List (Placed Tag) → Prop
  | nil {tags nodes} (nested : Nests tags nodes) : Pending [] tags
  | cons {opened front o p body nodes} (outer : Pending opened front) (nested : Nests body nodes) :
    Pending (⟨o, p⟩ :: opened) (front ++ ⟨.opening o, p⟩ :: body)

/-- What is wrong with tags that do not nest: an end where no section is open, or where it does not
close the innermost one, and otherwise the innermost section that is left open. -/
inductive Faults : ParseError → List (Placed Tag) → Prop
  | closesNothing {front name q rest} (pending : Pending [] front) :
    Faults ⟨.closesNothing (name.getD ""), q⟩ (front ++ ⟨.closing name, q⟩ :: rest)
  | closesAnother {o opened front name q rest} (pending : Pending (o :: opened) front)
    (another : o.content.isClosedBy name = false) :
    Faults ⟨.closesAnother (name.getD "") o.content.name, q⟩ (front ++ ⟨.closing name, q⟩ :: rest)
  | notClosed {o opened tags} (pending : Pending (o :: opened) tags) :
    Faults ⟨.notClosed o.content.name, o.position⟩ tags

/-- What nests side by side nests together. -/
theorem Nests.append {front rest : List (Placed Tag)} {nodes others : List Node}
    (hfront : Nests front nodes) (hrest : Nests rest others) :
    Nests (front ++ rest) (nodes ++ others) := by
  induction hfront with
  | nil => exact hrest
  | leaf _ ih => exact .leaf ih
  | block hclosed hwithin _ _ ih =>
    rw [List.cons_append, List.append_assoc]
    exact .block hclosed hwithin ih

theorem Pending.append {opened : List (Placed Opening)} {front rest : List (Placed Tag)}
    {nodes : List Node} (hfront : Pending opened front) (hrest : Nests rest nodes) :
    Pending opened (front ++ rest) := by
  cases hfront with
  | nil hnested => exact .nil (hnested.append hrest)
  | cons houter hnested =>
    rw [List.append_assoc]
    exact .cons houter (hnested.append hrest)

/-- Tags nest, or something is wrong with them. -/
theorem nests_or_faults (tags : List (Placed Tag)) :
    (∃ nodes, Nests tags nodes) ∨ ∃ e, Faults e tags := by
  suffices hbehind : ∀ front opened, Pending opened front →
      (∃ nodes, Nests (front ++ tags) nodes) ∨ ∃ e, Faults e (front ++ tags) from
    hbehind [] [] (.nil .nil)
  induction tags with
  | nil =>
    intro front opened hpending
    rw [List.append_nil]
    cases opened with
    | nil =>
      cases hpending with
      | nil hnested => exact .inl ⟨_, hnested⟩
    | cons o opened => exact .inr ⟨_, .notClosed hpending⟩
  | cons tag rest ih =>
    intro front opened hpending
    obtain ⟨content, p⟩ := tag
    cases content with
    | leaf l =>
      rw [List.append_cons]
      exact ih _ _ (hpending.append (.leaf .nil))
    | opening o =>
      rw [List.append_cons]
      exact ih _ _ (.cons hpending .nil)
    | closing name =>
      cases hpending with
      | nil hnested => exact .inr ⟨_, .closesNothing (.nil hnested)⟩
      | @cons opened outer o start body nodes houter hnested =>
        cases hclosed : o.isClosedBy name with
        | true =>
          have hsection : Nests (⟨.opening o, start⟩ :: (body ++ [⟨.closing name, p⟩])) _ :=
            .block hclosed hnested .nil
          simpa only [List.append_assoc, List.cons_append, List.nil_append] using
            ih _ _ (houter.append hsection)
        | false => exact .inr ⟨_, .closesAnother (.cons houter hnested) hclosed⟩

namespace Node

/-- Tags that nest add their nodes to those done so far, whatever is open around them. -/
theorem nest_append {front : List (Placed Tag)} {nodes : List Node} (h : Nests front nodes)
    (done : List Node) (frames : List Frame) (rest : List (Placed Tag)) :
    nest done frames (front ++ rest) = nest (nodes.reverse ++ done) frames rest := by
  induction h generalizing done frames rest with
  | nil => rfl
  | leaf _ ih =>
    rw [List.cons_append, nest, ih, List.reverse_cons, List.append_assoc]
    rfl
  | @block o p body inner name q others nodes hclosed _ _ ihWithin ihOthers =>
    rw [List.cons_append, List.append_assoc, nest, ihWithin, List.append_nil, List.cons_append,
      nest]
    dsimp only
    rw [if_pos hclosed, ihOthers, List.reverse_reverse, List.reverse_cons, List.append_assoc]
    rfl

theorem ofTags_of_nests {tags : List (Placed Tag)} {nodes : List Node} (h : Nests tags nodes) :
    ofTags tags = .ok nodes := by
  have hnest := nest_append h [] [] []
  rw [List.append_nil, List.append_nil, nest, List.reverse_reverse] at hnest
  exact hnest

/-- Behind tags that leave sections open, these sections are the ones that await an end. -/
theorem ofTags_append {opened : List (Placed Opening)} {front : List (Placed Tag)}
    (h : Pending opened front) : ∃ done frames, frames.map Frame.opening = opened ∧
      ∀ rest, ofTags (front ++ rest) = nest done frames rest := by
  induction h with
  | nil hnested => exact ⟨_, [], rfl, fun rest => nest_append hnested [] [] rest⟩
  | @cons opened front o p body nodes _ hnested ih =>
    obtain ⟨done, frames, hframes, hfront⟩ := ih
    refine ⟨nodes.reverse ++ [], ⟨⟨o, p⟩, done⟩ :: frames, by rw [List.map_cons, hframes],
      fun rest => ?_⟩
    rw [List.append_assoc, hfront, List.cons_append, nest]
    exact nest_append hnested [] _ rest

/-- Tags with a fault are refused with that fault. -/
theorem ofTags_of_faults {e : ParseError} {tags : List (Placed Tag)} (h : Faults e tags) :
    ofTags tags = .error e := by
  cases h with
  | closesNothing hpending =>
    obtain ⟨done, frames, hframes, hfront⟩ := ofTags_append hpending
    cases List.map_eq_nil_iff.mp hframes
    rw [hfront, nest]
  | closesAnother hpending hanother =>
    obtain ⟨done, frames, hframes, hfront⟩ := ofTags_append hpending
    obtain ⟨frame, outer, rfl, rfl, -⟩ := List.map_eq_cons_iff.mp hframes
    rw [hfront, nest]
    exact if_neg (Bool.eq_false_iff.mp hanother)
  | notClosed hpending =>
    obtain ⟨done, frames, hframes, hfront⟩ := ofTags_append hpending
    obtain ⟨frame, outer, rfl, rfl, -⟩ := List.map_eq_cons_iff.mp hframes
    rw [← List.append_nil tags, hfront, nest]

/-- Tags become nodes exactly if they nest, and then those that they nest to. -/
theorem ofTags_eq_ok_iff {tags : List (Placed Tag)} {nodes : List Node} :
    ofTags tags = .ok nodes ↔ Nests tags nodes := by
  refine ⟨fun h => ?_, ofTags_of_nests⟩
  rcases nests_or_faults tags with ⟨others, hothers⟩ | ⟨e, hfaults⟩
  · rw [ofTags_of_nests hothers] at h
    cases h
    exact hothers
  · rw [ofTags_of_faults hfaults] at h
    cases h

/-- The error is what is wrong with the tags. -/
theorem ofTags_eq_error_iff {tags : List (Placed Tag)} {e : ParseError} :
    ofTags tags = .error e ↔ Faults e tags := by
  refine ⟨fun h => ?_, ofTags_of_faults⟩
  rcases nests_or_faults tags with ⟨nodes, hnodes⟩ | ⟨other, hother⟩
  · rw [ofTags_of_nests hnodes] at h
    cases h
  · rw [ofTags_of_faults hother] at h
    cases h
    exact hother

end Node

/-- The nodes of a template are those that its tags make. -/
theorem ofTags_of_read {text : String} {t : Template} (h : read text = .ok t) :
    Node.ofTags t.tags = .ok t.nodes := by
  obtain ⟨tokens, -, h⟩ := of_bind_ok h
  obtain ⟨tags, -, h⟩ := of_bind_ok h
  obtain ⟨nodes, hnodes, h⟩ := of_bind_ok h
  cases h
  cases hmade : Node.ofTags tags with
  | error e =>
    rw [hmade] at hnodes
    cases hnodes
  | ok made =>
    rw [hmade] at hnodes
    cases hnodes
    rfl

theorem Faults.sort {e : ParseError} {tags : List (Placed Tag)} (h : Faults e tags) :
    e.fault.sort = .sectionMismatch := by
  cases h <;> rfl

end Formulary.Template
