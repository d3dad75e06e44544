import Formulary.Proofs.Registry.Ledger
import Formulary.Proofs.Template.Dependence
import Formulary.Proofs.Template.Outline

/-!
# Overriding by setting

Variables that are given in front of others can be set among these before anything is rendered. A
name is looked up in two places then and in one now, and what is found is the same: every name that
has a value in front has it afterwards, no value included, in whatever spelling it was set, and a
name that is merely declared in front keeps what it had. So the whole template renders alike.
-/

namespace Formulary

namespace Registry

variable {α : Type}

/-- What is looked up after contents were given to a name. -/
theorem content_find?_assign (r : Registry α) (name other : String) (content : α) :
    ((r.assign name content).find? other).map (·.content) =
      if Text.lowercase name = Text.lowercase other then some content
      else (r.find? other).map (·.content) := by
  have hput (entry : Entry α) (hkey : entry.key = Text.lowercase name)
      (hcontent : entry.content = content) :
      ((r.put entry).find? other).map (·.content) =
        if Text.lowercase name = Text.lowercase other then some content
        else (r.find? other).map (·.content) := by
    rw [find?_put, hkey]
    split
    · exact congrArg some hcontent
    · rfl
  cases h : r.find? name with
  | some entry =>
    rw [assign, h]
    exact hput _ (find?_eq_some_iff.mp h).2 rfl
  | none =>
    rw [assign, h]
    exact hput ⟨name, content⟩ rfl rfl

end Registry

namespace Variables

theorem get?_eq (vars : Variables) (name : String) :
    vars.get? name = ((vars.find? name).map (·.content)).join := by
  rw [get?]
  cases vars.find? name <;> rfl

theorem get?_set (vars : Variables) (name other : String) (value : Value) :
    (vars.set name value).get? other =
      if Text.lowercase name = Text.lowercase other then some value else vars.get? other := by
  rw [get?_eq, set, Registry.content_find?_assign, get?_eq]
  split <;> rfl

def overlayEntry (vars : Variables) (entry : Entry (Option Value)) : Variables :=
  entry.content.elim vars (vars.set entry.name)

/-- The variables with the values of others set among them. -/
def overlay (vars others : Variables) : Variables := others.toList.foldl overlayEntry vars

theorem get?_overlayEntry (vars : Variables) (entry : Entry (Option Value)) (name : String) :
    (vars.overlayEntry entry).get? name =
      if entry.key = Text.lowercase name then entry.content.or (vars.get? name)
      else vars.get? name := by
  rw [overlayEntry]
  cases entry.content with
  | none => exact (ite_self _).symm
  | some value => exact vars.get?_set entry.name name value

/-- No entry has a say in a name but the one of that name. -/
theorem get?_foldl_overlayEntry {ledger : Ledger (Option Value)} (h : ledger.Distinct)
    (vars : Variables) (name : String) :
    (ledger.foldl overlayEntry vars).get? name =
      ((ledger.lookup? name).bind (·.content)).or (vars.get? name) := by
  induction h generalizing vars with
  | nil => rfl
  | @cons first rest hfirst _ ih =>
    rw [List.foldl_cons, ih, get?_overlayEntry, Ledger.lookup?_cons]
    by_cases hkey : first.key = Text.lowercase name
    · have hrest : Ledger.lookup? name rest = none :=
        Ledger.lookup?_eq_none fun other hother => hkey ▸ (hfirst other hother).symm
      rw [if_pos hkey, if_pos hkey, hrest]
      rfl
    · rw [if_neg hkey, if_neg hkey]

theorem get?_overlay (vars others : Variables) (name : String) :
    (vars.overlay others).get? name = (others.get? name).or (vars.get? name) := by
  rw [overlay, get?_foldl_overlayEntry others.distinct_toList, get?, get?, others.find?_eq]

end Variables

namespace Template

/-- Any nodes can be written with tags. -/
theorem exists_nests (nodes : List Node) : ∃ tags, Nests tags nodes := by
  induction nodes using Node.induction_all with
  | nil => exact ⟨_, .nil⟩
  | leaf l rest ih =>
    obtain ⟨tags, hrest⟩ := ih
    exact ⟨_, .leaf hrest⟩
  | block o body rest ihBody ihRest =>
    obtain ⟨within, hbody⟩ := ihBody
    obtain ⟨tags, hrest⟩ := ihRest
    have hclosed : o.content.isClosedBy none = true := rfl
    exact ⟨_, .block (q := o.position) hclosed hbody hrest⟩

/-- Variables among which every name is found alike render a template alike. -/
theorem render_congr {overrides others : Option Variables} {defaults fallbacks : Variables}
    (h : ∀ name, chosen? overrides defaults name = chosen? others fallbacks name) (t : Template) :
    t.render overrides defaults = t.render others fallbacks := by
  obtain ⟨tags, hnests⟩ := exists_nests t.nodes
  rw [render_eq, render_eq, Node.renderAll_congr hnests fun _ _ name _ => h (beforeDot name)]

/-- Overrides are as good as set: a template renders with overrides in front of the defaults what it
renders with no overrides and each of their values set among the defaults, the same text or the same
error. No value counts as a value here, and a variable that is merely declared as none. -/
theorem render_overlay (t : Template) (overrides defaults : Variables) :
    (∀ name, (defaults.overlay overrides).get? name =
      (overrides.get? name).or (defaults.get? name)) ∧
    t.render (some overrides) defaults = t.render none (defaults.overlay overrides) := by
  refine ⟨defaults.get?_overlay overrides, render_congr (fun name => ?_) t⟩
  rw [chosen?, chosen?, Variables.get?_overlay]
  rfl

end Template

end Formulary
