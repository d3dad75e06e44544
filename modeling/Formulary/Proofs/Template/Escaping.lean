import Formulary.Proofs.Registry.Listing
import Formulary.Proofs.Template.Nesting

/-!
# Templates that cannot carry markup

A template in which every tag for a value is escaped, and whose literal texts are free of the
brackets and quotes of markup, shows a text that is free of them, whatever the values are: the list
of work never adds anything else to its output. Nothing of the values is lost thereby, since reading
the five entities gives back what was escaped.
-/

namespace Formulary.Template

/-- Whether a character opens or closes something in markup. -/
def isMarkup (c : Char) : Bool := c = '<' ∨ c = '>' ∨ c = '\x22' ∨ c = '\x27'

/-- A text that opens and closes nothing in markup. -/
def Harmless (s : String) : Prop := ∀ c ∈ s.toList, isMarkup c = false

/-- Characters of markup with the five entities read. -/
def readEntities : List Char → List Char
  | '&' :: 'a' :: 'm' :: 'p' :: ';' :: rest => '&' :: readEntities rest
  | '&' :: 'l' :: 't' :: ';' :: rest => '<' :: readEntities rest
  | '&' :: 'g' :: 't' :: ';' :: rest => '>' :: readEntities rest
  | '&' :: 'q' :: 'u' :: 'o' :: 't' :: ';' :: rest => '\x22' :: readEntities rest
  | '&' :: '#' :: '3' :: '9' :: ';' :: rest => '\x27' :: readEntities rest
  | c :: rest => c :: readEntities rest
  | [] => []

/-- The text that markup writes with the five entities. -/
def unescape (s : String) : String := String.ofList (readEntities s.toList)

/-! Escaped text -/

theorem escapeChar_of_plain {c : Char} (hamp : c ≠ '&') (hplain : isMarkup c = false) :
    escapeChar c = [c] := by
  simp only [isMarkup, decide_eq_false_iff_not, not_or] at hplain
  obtain ⟨hless, hmore, hquote, happostrophe⟩ := hplain
  rw [escapeChar, if_neg hamp, if_neg hless, if_neg hmore, if_neg hquote, if_neg happostrophe]

/-- A character is the ampersand, one of the four of markup, or neither. -/
theorem char_cases (c : Char) :
    c = '&' ∨ c = '<' ∨ c = '>' ∨ c = '\x22' ∨ c = '\x27' ∨ (c ≠ '&' ∧ isMarkup c = false) := by
  simp only [isMarkup, decide_eq_false_iff_not]
  grind

-- The entities start with an ampersand, which is none of the four.
theorem isMarkup_escapeChar (c : Char) : (escapeChar c).any isMarkup = false := by
  rcases char_cases c with rfl | rfl | rfl | rfl | rfl | ⟨hamp, hplain⟩
  case inr.inr.inr.inr.inr =>
    rw [escapeChar_of_plain hamp hplain, List.any_cons, hplain]
    rfl
  all_goals rfl

theorem harmless_escape (s : String) : Harmless (escape s) := by
  intro d hd
  rw [escape, String.toList_ofList] at hd
  obtain ⟨c, -, hd⟩ := List.mem_flatMap.mp hd
  exact Bool.eq_false_iff.mpr (List.any_eq_false.mp (isMarkup_escapeChar c) d hd)

theorem readEntities_cons {c : Char} (h : c ≠ '&') (rest : List Char) :
    readEntities (c :: rest) = c :: readEntities rest := by
  rw [readEntities]
  all_goals exact fun _ hc => (h hc).elim

theorem readEntities_escapeChar (c : Char) (rest : List Char) :
    readEntities (escapeChar c ++ rest) = c :: readEntities rest := by
  rcases char_cases c with rfl | rfl | rfl | rfl | rfl | ⟨hamp, hplain⟩
  case inr.inr.inr.inr.inr =>
    rw [escapeChar_of_plain hamp hplain]
    exact readEntities_cons hamp rest
  all_goals rfl

theorem unescape_escape (s : String) : unescape (escape s) = s := by
  have hchars : ∀ cs : List Char, readEntities (cs.flatMap escapeChar) = cs := by
    intro cs
    induction cs with
    | nil => rfl
    | cons c cs ih => rw [List.flatMap_cons, readEntities_escapeChar, ih]
  rw [unescape, escape, String.toList_ofList, hchars, String.ofList_toList]

theorem Harmless.append {s t : String} (hs : Harmless s) (ht : Harmless t) :
    Harmless (s ++ t) := by
  intro c hc
  rw [String.toList_append] at hc
  rcases List.mem_append.mp hc with hc | hc
  · exact hs c hc
  · exact ht c hc

theorem harmless_empty : Harmless "" := nofun

/-! What stands alone in nodes -/

namespace Node

mutual

def leaves : Node → List Leaf
  | leaf l => [l.content]
  | block _ body => leavesOfAll body

def leavesOfAll : List Node → List Leaf
  | [] => []
  | node :: rest => node.leaves ++ leavesOfAll rest

end

theorem leavesOfAll_append (nodes others : List Node) :
    leavesOfAll (nodes ++ others) = leavesOfAll nodes ++ leavesOfAll others := by
  induction nodes with
  | nil => rfl
  | cons node nodes ih => rw [List.cons_append, leavesOfAll, leavesOfAll, ih, List.append_assoc]

theorem leavesOfAll_reverse_cons (node : Node) (done : List Node) :
    leavesOfAll (node :: done).reverse = leavesOfAll done.reverse ++ node.leaves := by
  rw [List.reverse_cons, leavesOfAll_append, leavesOfAll, leavesOfAll, List.append_nil]

theorem mem_leavesOfAll {node : Node} {nodes : List Node} (h : node ∈ nodes) {l : Leaf}
    (hl : l ∈ node.leaves) : l ∈ leavesOfAll nodes := by
  induction nodes with
  | nil => cases h
  | cons other nodes ih =>
    rw [leavesOfAll]
    cases h with
    | head => exact List.mem_append_left _ hl
    | tail _ h => exact List.mem_append_right _ (ih h)

end Node

def leavesOfFrames : List Frame → List Leaf
  | [] => []
  | frame :: outer => leavesOfFrames outer ++ Node.leavesOfAll frame.before.reverse

def leavesOfTags : List (Placed Tag) → List Leaf
  | [] => []
  | ⟨.leaf l, _⟩ :: rest => l :: leavesOfTags rest
  | _ :: rest => leavesOfTags rest

theorem mem_leavesOfTags {tags : List (Placed Tag)} {l : Leaf} :
    l ∈ leavesOfTags tags ↔ ∃ tag ∈ tags, tag.content = .leaf l := by
  induction tags with
  | nil => exact ⟨nofun, nofun⟩
  | cons tag rest ih =>
    obtain ⟨content, p⟩ := tag
    cases content <;> simp [leavesOfTags, ih, eq_comm]

namespace Node

/-- Nesting keeps what stands alone, in order. -/
theorem leaves_of_nest {tags : List (Placed Tag)} {done nodes : List Node} {frames : List Frame}
    (h : nest done frames tags = .ok nodes) :
    leavesOfAll nodes = leavesOfFrames frames ++ leavesOfAll done.reverse ++ leavesOfTags tags := by
  induction tags generalizing done frames with
  | nil =>
    cases frames with
    | nil =>
      cases h
      exact (List.append_nil _).symm
    | cons frame outer => cases h
  | cons tag rest ih =>
    obtain ⟨content, p⟩ := tag
    cases content with
    | leaf l =>
      rw [ih h, leavesOfAll_reverse_cons]
      simp only [leaves, leavesOfTags, List.append_assoc, List.singleton_append]
    | opening o =>
      rw [ih h]
      simp only [leavesOfFrames, leavesOfTags, List.reverse_nil, leavesOfAll, List.append_nil]
    | closing name =>
      cases frames with
      | nil => cases h
      | cons frame outer =>
        rw [nest] at h
        split at h
        · rw [ih h, leavesOfAll_reverse_cons]
          simp only [leaves, leavesOfFrames, leavesOfTags, List.append_assoc]
        · cases h

end Node

/-- What stands alone in the nodes of a template are its tags that stand alone. -/
theorem leaves_of_read {text : String} {t : Template} (h : read text = .ok t) :
    Node.leavesOfAll t.nodes = leavesOfTags t.tags := Node.leaves_of_nest (ofTags_of_read h)

/-! The list of work -/

/-- What adds no markup to a text: no tag that is not escaped, and no literal text with markup. -/
def Leaf.Inert : Leaf → Prop
  | literal text => Harmless text
  | raw _ => False
  | escaped _ | inclusion _ | comment _ => True

def Work.Inert : Work → Prop
  | node n => ∀ l ∈ n.leaves, l.Inert
  | enter _ | leave => True

/-- What adds no markup is shown without markup. -/
theorem Leaf.Inert.harmless {l : Leaf} {scope : Scope} {p : Position} {text : String}
    (hinert : l.Inert) (h : l.render scope p = .ok text) : Harmless text := by
  cases l with
  | literal written =>
    cases h
    exact hinert
  | raw name => exact hinert.elim
  | escaped name =>
    cases h
    exact harmless_escape _
  | inclusion name => cases h
  | comment remark =>
    cases h
    exact harmless_empty

theorem Work.inert_of_mem_runs {o : Placed Opening} {body : List Node}
    (hinert : (node (.block o body)).Inert) {values : List (Option Value)} {w : Work}
    (h : w ∈ values.flatMap (ofRun body)) : w.Inert := by
  have hnode : ∀ n ∈ body, (node n).Inert := fun n hn l hl =>
    hinert l (Node.mem_leavesOfAll hn hl)
  have hbody : ∀ w ∈ body.map node, w.Inert := by
    intro w hw
    obtain ⟨n, hn, rfl⟩ := List.mem_map.mp hw
    exact hnode n hn
  obtain ⟨value, -, h⟩ := List.mem_flatMap.mp h
  cases value with
  | none => exact hbody w h
  | some v =>
    rw [ofRun, List.cons_append, List.mem_cons, List.mem_append, List.mem_singleton] at h
    rcases h with rfl | h | rfl
    · trivial
    · exact hbody w h
    · trivial

/-- Inert work adds no markup to an output, whatever is in scope. -/
theorem harmless_of_perform {scope final : Scope} {output text : String} {work : List Work}
    (houtput : Harmless output) (hinert : ∀ w ∈ work, w.Inert)
    (h : perform scope output work = .ok (text, final)) : Harmless text := by
  -- The output so far is harmless at every step; the work put in front comes from an inert section.
  induction scope, output, work using perform.induct with
  | case1 scope output =>
    rw [perform] at h
    cases h
    exact houtput
  | case2 scope output v rest ih =>
    rw [perform] at h
    exact ih houtput (fun w hw => hinert w (.tail _ hw)) h
  | case3 scope output rest ih =>
    rw [perform] at h
    exact ih houtput (fun w hw => hinert w (.tail _ hw)) h
  | case4 scope output l rest shown hshown ih =>
    rw [perform, hshown] at h
    have hleaf : l.content.Inert := hinert _ List.mem_cons_self l.content List.mem_cons_self
    have hshown : Harmless shown := hleaf.harmless hshown
    exact ih (houtput.append hshown) (fun w hw => hinert w (.tail _ hw)) h
  | case5 scope output l rest e hshown =>
    rw [perform, hshown] at h
    cases h
  | case6 scope output o body rest ih =>
    rw [perform] at h
    have hblock : (Work.node (.block o body)).Inert := hinert _ List.mem_cons_self
    refine ih houtput (fun w hw => ?_) h
    rcases List.mem_append.mp hw with hw | hw
    · exact Work.inert_of_mem_runs hblock hw
    · exact hinert w (.tail _ hw)

/-- A template without a tag that is not escaped, in whose literal texts there is no markup, shows
none, whatever its variables are. An escaped tag adds a text without markup to the output, from
which the text of the value can be read again, as from every escaped text. -/
theorem harmless_of_render {text : String} {t : Template} (hread : read text = .ok t)
    (hraw : ∀ tag ∈ t.tags, ∀ name, tag.content ≠ .leaf (.raw name))
    (hliteral : ∀ tag ∈ t.tags, ∀ text, tag.content = .leaf (.literal text) → Harmless text) :
    (∀ overrides defaults output, t.render overrides defaults = .ok output → Harmless output) ∧
      (∀ s, unescape (escape s) = s) ∧
      ∀ scope name p output rest, ∃ shown,
        perform scope output (.node (.leaf ⟨.escaped name, p⟩) :: rest) =
            perform scope (output ++ shown) rest ∧
          Harmless shown ∧ unescape shown = textOf (scope.resolve name) := by
  refine ⟨?harmless, unescape_escape, ?tag⟩
  case harmless =>
    intro overrides defaults output h
    have hinert : ∀ l ∈ Node.leavesOfAll t.nodes, l.Inert := by
      intro l hl
      rw [leaves_of_read hread, mem_leavesOfTags] at hl
      obtain ⟨tag, htag, hcontent⟩ := hl
      cases l with
      | literal written => exact hliteral tag htag written hcontent
      | raw name => exact hraw tag htag name hcontent
      | escaped _ | inclusion _ | comment _ => trivial
    have hwork : ∀ w ∈ t.nodes.map Work.node, w.Inert := by
      intro w hw
      obtain ⟨node, hnode, rfl⟩ := List.mem_map.mp hw
      exact fun l hl => hinert l (Node.mem_leavesOfAll hnode hl)
    rw [render, renderNodes] at h
    cases hperform : perform ⟨[], overrides, defaults⟩ "" (t.nodes.map .node) with
    | error e =>
      rw [hperform] at h
      cases h
    | ok result =>
      rw [hperform] at h
      cases h
      exact harmless_of_perform harmless_empty hwork hperform
  case tag =>
    intro scope name p output rest
    refine ⟨escape (textOf (scope.resolve name)), ?_, harmless_escape _, unescape_escape _⟩
    rw [perform]
    rfl

/-- A value that is a tag of markup by itself. -/
theorem harmless_of_render_bold :
    let vars : Variables := Variables.set .empty "x" (.string "<b>")
    ∃ t, read "Hi \x7b\x7bx\x7d\x7d" = .ok t ∧
      (∀ tag ∈ t.tags, ∀ name, tag.content ≠ .leaf (.raw name)) ∧
      (∀ tag ∈ t.tags, ∀ text, tag.content = .leaf (.literal text) → Harmless text) ∧
      t.render none vars = .ok "Hi &lt;b&gt;" ∧ Harmless "Hi &lt;b&gt;" := by
  intro vars
  let tokens : List Token := [⟨.special, "Hi ", ⟨1, 1⟩⟩, ⟨.symbol, "\x7b\x7b", ⟨1, 4⟩⟩,
    ⟨.word, "x", ⟨1, 6⟩⟩, ⟨.symbol, "\x7d\x7d", ⟨1, 7⟩⟩]
  let tags : List (Placed Tag) :=
    [⟨.leaf (.literal "Hi "), ⟨1, 1⟩⟩, ⟨.leaf (.escaped "x"), ⟨1, 4⟩⟩]
  let t : Template := ⟨"Hi \x7b\x7bx\x7d\x7d", tokens, tags,
    [.leaf ⟨.literal "Hi ", ⟨1, 1⟩⟩, .leaf ⟨.escaped "x", ⟨1, 4⟩⟩]⟩
  have htokens : (lexer.tokenize "Hi \x7b\x7bx\x7d\x7d").result.toOption = some tokens := by
    decide +kernel
  have htags : (Tag.ofTokens tokens).toOption = some tags := by decide +kernel
  have hread : read "Hi \x7b\x7bx\x7d\x7d" = .ok t := by
    rw [read, ok_of_toOption htokens]
    change ((Tag.ofTokens tokens).mapError _).bind _ = _
    rw [ok_of_toOption htags]
    rfl
  have hraw : ∀ tag ∈ t.tags, ∀ name, tag.content ≠ .leaf (.raw name) := by
    simp [t, tags]
  have hliteral : ∀ tag ∈ t.tags, ∀ text, tag.content = .leaf (.literal text) →
      Harmless text := by
    have hwords : Harmless "Hi " := by simp [Harmless, isMarkup]
    simpa [t, tags] using hwords
  have hvalue : (⟨[], none, vars⟩ : Scope).resolve "x" = some (.string "<b>") :=
    Variables.get?_set_of_absent (Registry.lacks_iff.mp Registry.lacks_empty) _
  have hrender : t.render none vars = .ok "Hi &lt;b&gt;" := by
    rw [render, renderNodes, List.map_cons, List.map_cons, List.map_nil, perform]
    dsimp only [Leaf.render]
    rw [perform]
    dsimp only [Leaf.render]
    rw [hvalue, perform]
    rfl
  exact ⟨t, hread, hraw, hliteral, hrender,
    (harmless_of_render hread hraw hliteral).1 none vars _ hrender⟩

end Formulary.Template
