import Formulary.Proofs.Registry.Listing
import Formulary.Proofs.Template.Nesting
import Formulary.Proofs.Template.Rendering

/-!
# The variables that templates depend on

Tags that show a value and starts of sections look up names, of which only the first segment can be
that of a variable. Two choices of variables that agree on these segments therefore render a
template alike, whatever values come into scope on the way. The list of names has every such segment
in some spelling but the empty one, which no variable has.
-/

namespace Formulary.Template

def Tag.used? : Tag → Option String
  | leaf (.raw name) | leaf (.escaped name) => some name
  | opening o => some o.name
  | leaf (.literal _) | leaf (.inclusion _) | leaf (.comment _) | closing _ => none

def beforeDot (name : String) : String := String.ofList (name.toList.takeWhile (· ≠ '.'))

/-- What stands before the first dot in each name that tags look up, unless nothing stands there. -/
def roots (tags : List (Placed Tag)) : List String :=
  ((tags.filterMap fun tag => tag.content.used?).map beforeDot).filter (!·.isEmpty)

/-- The value of a variable: the one that takes its place if there is one, and its own otherwise. -/
def chosen? (overrides : Option Variables) (defaults : Variables) (name : String) : Option Value :=
  (overrides.bind (·.get? name)).or (defaults.get? name)

/-! The list of names -/

theorem root_eq (name : String) : root name = beforeDot name := by
  have hchars : ∀ cs : List Char, (segments cs).1 = cs.takeWhile (· ≠ '.') := by
    intro cs
    induction cs with
    | nil => rfl
    | cons c rest ih =>
      rw [segments, List.takeWhile_cons, ← ih]
      dsimp only
      by_cases hdot : c = '.'
      · rw [if_pos hdot, if_neg (by simp [hdot])]
      · rw [if_neg hdot, if_pos (by simp [hdot])]
  rw [root, beforeDot, hchars]

/-- A tag depends on the variable in front of the first dot of the name that it looks up. -/
theorem Tag.root?_eq (tag : Tag) :
    tag.root? = (tag.used?.map beforeDot).filter (!·.isEmpty) := by
  match tag with
  | leaf (.raw name) | leaf (.escaped name) =>
    rw [root?, root_eq]
    rfl
  | opening o =>
    rw [root?, root_eq]
    rfl
  | leaf (.literal _) | leaf (.inclusion _) | leaf (.comment _) | closing _ => rfl

theorem filterMap_root? (tags : List (Placed Tag)) :
    (tags.filterMap fun tag => tag.content.root?) = roots tags := by
  simp only [Tag.root?_eq, roots, List.map_filterMap, List.filter_filterMap]

theorem variableNames_eq (t : Template) : t.variableNames = firstSpellings (roots t.tags) := by
  rw [variableNames, filterMap_root?]
  exact Variables.names_locateAll_empty _

/-! Lookups -/

section Choices

variable {overrides others : Option Variables} {defaults fallbacks : Variables}
  {values : List Value}

theorem chosen?_congr {name other : String} (h : Text.lowercase name = Text.lowercase other) :
    chosen? overrides defaults name = chosen? overrides defaults other := by
  simp only [chosen?, Variables.get?_congr h]

/-- The value of a name depends on the chosen value of what stands before its first dot. -/
theorem Scope.resolve_congr {name : String}
    (h : chosen? overrides defaults (beforeDot name) = chosen? others fallbacks (beforeDot name)) :
    Scope.resolve ⟨values, overrides, defaults⟩ name =
      Scope.resolve ⟨values, others, fallbacks⟩ name := by
  have hroot : Scope.root? ⟨values, overrides, defaults⟩ (root name) =
      Scope.root? ⟨values, others, fallbacks⟩ (root name) := by
    rw [root_eq]
    exact congrArg _ h
  rw [resolve, resolve, hroot]

theorem Scope.runs_congr {o : Opening}
    (h : chosen? overrides defaults (beforeDot o.name) =
      chosen? others fallbacks (beforeDot o.name)) :
    Scope.runs ⟨values, overrides, defaults⟩ o = Scope.runs ⟨values, others, fallbacks⟩ o := by
  rw [runs, runs, resolve_congr h]

theorem Leaf.render_congr {l : Leaf} {p : Position}
    (h : ∀ name ∈ (Tag.leaf l).used?,
      chosen? overrides defaults (beforeDot name) = chosen? others fallbacks (beforeDot name)) :
    l.render ⟨values, overrides, defaults⟩ p = l.render ⟨values, others, fallbacks⟩ p := by
  cases l with
  | literal text => rfl
  | raw name => rw [render, render, Scope.resolve_congr (h name rfl)]
  | escaped name => rw [render, render, Scope.resolve_congr (h name rfl)]
  | inclusion name => rfl
  | comment text => rfl

/-- Choices that agree on what tags look up render their nodes alike. -/
theorem Node.renderAll_congr {tags : List (Placed Tag)} {nodes : List Node} (h : Nests tags nodes)
    (hagree : ∀ tag ∈ tags, ∀ name ∈ tag.content.used?,
      chosen? overrides defaults (beforeDot name) = chosen? others fallbacks (beforeDot name)) :
    renderAll ⟨values, overrides, defaults⟩ nodes =
      renderAll ⟨values, others, fallbacks⟩ nodes := by
  induction h generalizing values with
  | nil => rfl
  | leaf _ ih =>
    have hleaf := hagree _ List.mem_cons_self
    rw [renderAll_cons, renderAll_cons, render, render, Leaf.render_congr hleaf,
      ih fun tag htag => hagree tag (.tail _ htag)]
  | @block o p body inner name q rest nodes _ _ _ ihWithin ihOthers =>
    have hruns := hagree _ List.mem_cons_self o.name rfl
    have hwithin (tag : Placed Tag) (htag : tag ∈ body) := hagree tag
      (.tail _ (List.mem_append_left _ htag))
    have hbody (value : Option Value) :
        renderAll (Scope.inside ⟨values, overrides, defaults⟩ value) inner =
          renderAll (Scope.inside ⟨values, others, fallbacks⟩ value) inner := by
      cases value with
      | none => exact ihWithin hwithin
      | some v => exact ihWithin hwithin
    rw [renderAll_cons, renderAll_cons, render_block, render_block, renderRuns, renderRuns,
      Scope.runs_congr hruns, funext hbody,
      ihOthers fun tag htag => hagree tag (.tail _ (List.mem_append_right _ (.tail _ htag)))]

/-- Choices that agree on the list of names agree on what tags look up, since the list lacks only
other spellings and the empty name. -/
theorem chosen?_of_variableNames {t : Template}
    (hempty : chosen? overrides defaults "" = chosen? others fallbacks "")
    (h : ∀ name ∈ t.variableNames, chosen? overrides defaults name = chosen? others fallbacks name)
    {tag : Placed Tag} (htag : tag ∈ t.tags) {name : String} (hname : name ∈ tag.content.used?) :
    chosen? overrides defaults (beforeDot name) = chosen? others fallbacks (beforeDot name) := by
  by_cases hnone : beforeDot name = ""
  · rw [hnone]
    exact hempty
  have hused : name ∈ t.tags.filterMap fun tag => tag.content.used? :=
    List.mem_filterMap.mpr ⟨tag, htag, hname⟩
  have hroot : beforeDot name ∈ roots t.tags :=
    List.mem_filter.mpr ⟨List.mem_map_of_mem hused, by simpa using hnone⟩
  obtain ⟨first, hfirst, hkey⟩ := exists_mem_firstSpellings hroot
  rw [← chosen?_congr hkey, ← chosen?_congr hkey]
  exact h first (variableNames_eq t ▸ hfirst)

end Choices

def AllNamed (overrides : Option Variables) (defaults : Variables) : Prop :=
  (∀ vars ∈ overrides, vars.find? "" = none) ∧ defaults.find? "" = none

theorem AllNamed.chosen?_empty {overrides : Option Variables} {defaults : Variables}
    (h : AllNamed overrides defaults) : chosen? overrides defaults "" = none := by
  have hdefaults : defaults.get? "" = none := by
    rw [Variables.get?, h.2]
    rfl
  have hoverrides : overrides.bind (·.get? "") = none := by
    refine Option.bind_eq_none_iff.mpr fun vars hvars => ?_
    rw [Variables.get?, h.1 vars hvars]
    rfl
  rw [chosen?, hoverrides, hdefaults]
  rfl

/-- What a template renders depends on the variables of its list of names alone: choices of
variables without an empty name that give these the same values render the same text, or fail alike.
The list has what stands before the first dot in the names that tags look up, each once and as it is
first spelled, in order. -/
theorem render_depends {text : String} {t : Template} (h : read text = .ok t) :
    (∀ overrides others defaults fallbacks,
      AllNamed overrides defaults → AllNamed others fallbacks →
      (∀ name ∈ t.variableNames,
        chosen? overrides defaults name = chosen? others fallbacks name) →
      t.render overrides defaults = t.render others fallbacks) ∧
    t.variableNames = firstSpellings (roots t.tags) ∧
    t.variableNames.Pairwise fun a b => Text.lowercase a ≠ Text.lowercase b := by
  refine ⟨?agreement, variableNames_eq t, ?distinct⟩
  case agreement =>
    intro overrides others defaults fallbacks hnamed hother hagree
    have hempty : chosen? overrides defaults "" = chosen? others fallbacks "" :=
      hnamed.chosen?_empty.trans hother.chosen?_empty.symm
    have hnodes : Nests t.tags t.nodes := Node.ofTags_eq_ok_iff.mp (ofTags_of_read h)
    rw [render_eq, render_eq,
      Node.renderAll_congr hnodes fun _ htag _ => chosen?_of_variableNames hempty hagree htag]
  case distinct =>
    rw [variableNames_eq]
    exact pairwise_firstSpellings _

/-- Two spellings of one variable, one without a value, and the innermost value. A variable that the
template does not use makes no difference, and neither does the place of the one that it uses. -/
theorem render_depends_unused :
    let text := "\x7b\x7b#A.b\x7d\x7d\x7b\x7bx\x7d\x7d" ++ "\x7b\x7b.\x7d\x7d\x7b\x7b/\x7d\x7d" ++
      "\x7b\x7ba\x7d\x7d"
    let vars : Variables := Variables.set .empty "a" (.integer 1)
    let overrides := (Variables.set .empty "z" (.integer 2)).set "A" (.integer 1)
    ∃ t, read text = .ok t ∧ t.variableNames = ["A", "x"] ∧
      AllNamed none vars ∧ AllNamed (some overrides) .empty ∧
      t.render none vars = t.render (some overrides) .empty := by
  intro text vars overrides
  have hroots : (read text).toOption.any
      (fun t => firstSpellings (roots t.tags) == ["A", "x"]) = true := by
    decide +kernel
  obtain ⟨t, hread, hnames⟩ := exists_ok_of_any hroots
  obtain ⟨hagreement, hlist, -⟩ := render_depends hread
  have hlist : t.variableNames = ["A", "x"] := hlist.trans (beq_iff_eq.mp hnames)
  have hvars : vars.toList = [⟨"a", some (.integer 1)⟩] :=
    Registry.toList_assign_of_absent (Registry.find?_empty "a")
  have hoverrides : overrides.toList = [⟨"z", some (.integer 2)⟩, ⟨"A", some (.integer 1)⟩] := by
    have hz : (Variables.set .empty "z" (.integer 2)).toList = [⟨"z", some (.integer 2)⟩] :=
      Registry.toList_assign_of_absent (Registry.find?_empty "z")
    have hA : (Variables.set .empty "z" (.integer 2)).find? "A" = none := by
      rw [Registry.find?_eq_none_iff, hz]
      decide +kernel
    exact (Registry.toList_assign_of_absent hA).trans (congrArg (· ++ _) hz)
  have hvarsA : vars.find? "A" = some ⟨"a", some (.integer 1)⟩ := by
    rw [Registry.find?_eq_some_iff, hvars]
    exact ⟨List.mem_cons_self, by decide +kernel⟩
  have hoverridesA : overrides.find? "A" = some ⟨"A", some (.integer 1)⟩ := by
    rw [Registry.find?_eq_some_iff, hoverrides]
    exact ⟨.tail _ List.mem_cons_self, rfl⟩
  have hvarsNone : ∀ name ∈ ["x", ""], vars.find? name = none := by
    simp only [Registry.find?_eq_none_iff, hvars]
    decide +kernel
  have hoverridesNone : ∀ name ∈ ["x", ""], overrides.find? name = none := by
    simp only [Registry.find?_eq_none_iff, hoverrides]
    decide +kernel
  have hnamed : AllNamed none vars := ⟨nofun, hvarsNone "" (.tail _ List.mem_cons_self)⟩
  have hnamedOverrides : AllNamed (some overrides) .empty := by
    refine ⟨?_, Registry.find?_empty ""⟩
    rintro _ ⟨⟩
    exact hoverridesNone "" (.tail _ List.mem_cons_self)
  refine ⟨t, hread, hlist, hnamed, hnamedOverrides,
    hagreement _ _ _ _ hnamed hnamedOverrides ?_⟩
  rw [hlist]
  rintro name (_ | ⟨_, _ | ⟨_, ⟨⟩⟩⟩)
  · simp only [chosen?, Variables.get?, hvarsA, hoverridesA, Option.bind_none, Option.bind_some,
      Option.none_or, Option.some_or]
  · have hvarsX := hvarsNone "x" List.mem_cons_self
    have hoverridesX := hoverridesNone "x" List.mem_cons_self
    simp only [chosen?, Variables.get?, hvarsX, hoverridesX, Registry.find?_empty,
      Option.bind_none, Option.bind_some, Option.or_none]

end Formulary.Template
