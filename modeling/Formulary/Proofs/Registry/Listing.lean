import Formulary.Formula

/-!
# Registries as lists

The index of a registry finds the one entry of its list that has the small letters of a name. To
declare a name adds an entry behind all others, or nothing if the name is there in some spelling.
To declare several names therefore adds the first spelling of each that is not there yet.
-/

namespace Formulary

namespace Registry

variable {α : Type} {r : Registry α} {name : String} {entry : Entry α}

theorem getElem?_of_find? (h : r.find? name = some entry) :
    ∃ i, r.position? name = some i ∧ r.entries[i]? = some entry :=
  Option.bind_eq_some_iff.mp h

/-- The entry of a name is the one in the list with its small letters. -/
theorem find?_eq_some_iff :
    r.find? name = some entry ↔ entry ∈ r.toList ∧ entry.key = Text.lowercase name := by
  constructor
  · intro h
    obtain ⟨i, hi, hentry⟩ := getElem?_of_find? h
    obtain ⟨other, hother, hkey⟩ := (r.coherent _ i).mp hi
    rw [hentry] at hother
    cases hother
    exact ⟨List.mem_of_getElem? (Array.getElem?_toList.trans hentry), hkey⟩
  · rintro ⟨hmem, hkey⟩
    obtain ⟨i, hi⟩ := List.mem_iff_getElem?.mp hmem
    have hentry : r.entries[i]? = some entry := Array.getElem?_toList.symm.trans hi
    have hposition : r.position? name = some i := (r.coherent _ i).mpr ⟨entry, hentry, hkey⟩
    rw [find?, hposition]
    exact hentry

theorem find?_eq_none_iff :
    r.find? name = none ↔ ∀ entry ∈ r.toList, entry.key ≠ Text.lowercase name := by
  simp only [Option.eq_none_iff_forall_ne_some, ne_eq, find?_eq_some_iff, not_and]

theorem find?_congr {other : String} (h : Text.lowercase name = Text.lowercase other) :
    r.find? name = r.find? other := by
  rw [find?, find?, position?, position?, h]

theorem toList_empty : (empty : Registry α).toList = [] := rfl

theorem toList_put_of_absent (h : r.find? entry.name = none) :
    (r.put entry).toList = r.toList ++ [entry] := by
  have habsent : r.index[entry.key]? = none := by
    refine Option.eq_none_iff_forall_ne_some.mpr fun i hi => ?_
    obtain ⟨other, hother, hkey⟩ := (r.coherent _ i).mp hi
    have hmem : other ∈ r.toList := List.mem_of_getElem? (Array.getElem?_toList.trans hother)
    exact find?_eq_none_iff.mp h other hmem hkey
  rw [put]
  split
  · next i hi =>
    rw [habsent] at hi
    cases hi
  · exact Array.toList_push

variable {content : α}

theorem toList_assign_of_absent (h : r.find? name = none) :
    (r.assign name content).toList = r.toList ++ [⟨name, content⟩] := by
  rw [assign, h]
  exact toList_put_of_absent h

theorem declare_of_present (h : r.find? name ≠ none) : r.declare name content = r := by
  obtain ⟨entry, hentry⟩ := Option.ne_none_iff_exists'.mp h
  rw [declare, hentry]

theorem toList_declare_of_absent (h : r.find? name = none) :
    (r.declare name content).toList = r.toList ++ [⟨name, content⟩] := by
  rw [declare, h]
  exact toList_put_of_absent h

def lacks (r : Registry α) (name : String) : Bool :=
  r.toList.all fun entry => entry.key ≠ Text.lowercase name

theorem lacks_iff : r.lacks name = true ↔ r.find? name = none := by
  simp only [lacks, List.all_eq_true, decide_eq_true_eq, find?_eq_none_iff]

theorem lacks_empty : (empty : Registry α).lacks name = true := rfl

theorem find?_empty (name : String) : (empty : Registry α).find? name = none :=
  lacks_iff.mp lacks_empty

end Registry

/-! The spellings of names -/

/-- Names of which each is left out that was spelled before in some way. -/
def firstSpellings : List String → List String
  | [] => []
  | name :: rest =>
    name :: (firstSpellings rest).filter fun other => Text.lowercase name ≠ Text.lowercase other

theorem firstSpellings_sublist (names : List String) : (firstSpellings names).Sublist names := by
  induction names with
  | nil => exact .slnil
  | cons name rest ih => exact (List.filter_sublist.trans ih).cons_cons name

theorem pairwise_firstSpellings (names : List String) :
    (firstSpellings names).Pairwise fun a b => Text.lowercase a ≠ Text.lowercase b := by
  induction names with
  | nil => exact .nil
  | cons name rest ih =>
    refine .cons (fun other hother => ?_) (ih.sublist List.filter_sublist)
    exact of_decide_eq_true (List.mem_filter.mp hother).2

/-- Every name is among the first spellings in some way. -/
theorem exists_mem_firstSpellings {names : List String} {name : String} (h : name ∈ names) :
    ∃ first ∈ firstSpellings names, Text.lowercase first = Text.lowercase name := by
  induction names with
  | nil => cases h
  | cons other rest ih =>
    by_cases hsame : Text.lowercase other = Text.lowercase name
    · exact ⟨other, List.mem_cons_self, hsame⟩
    · have hrest : name ∈ rest := by
        cases h with
        | head => exact absurd rfl hsame
        | tail _ h => exact h
      obtain ⟨first, hfirst, hkey⟩ := ih hrest
      have hother : Text.lowercase other ≠ Text.lowercase first := hkey ▸ hsame
      exact ⟨first, .tail _ (List.mem_filter.mpr ⟨hfirst, decide_eq_true hother⟩), hkey⟩

/-- Names that differ in their small letters are all first spellings. -/
theorem firstSpellings_eq_self {names : List String}
    (h : names.Pairwise fun a b => Text.lowercase a ≠ Text.lowercase b) :
    firstSpellings names = names := by
  induction h with
  | nil => rfl
  | cons hfirst _ ih =>
    rw [firstSpellings, ih, List.filter_eq_self.mpr]
    exact fun other hother => decide_eq_true (hfirst other hother)

namespace Variables

variable {vars : Variables} {name : String}

theorem get?_congr {other : String} (h : Text.lowercase name = Text.lowercase other) :
    vars.get? name = vars.get? other := by
  rw [get?, get?, Registry.find?_congr h]

theorem get?_set_of_absent (h : vars.find? name = none) (value : Value) :
    (vars.set name value).get? name = some value := by
  have hfind : (vars.set name value).find? name = some ⟨name, some value⟩ := by
    refine Registry.find?_eq_some_iff.mpr ⟨?_, rfl⟩
    rw [set, Registry.toList_assign_of_absent h]
    exact List.mem_append_right _ List.mem_cons_self
  rw [get?, hfind]
  rfl

theorem locateAll_cons (vars : Variables) (name : String) (rest : List String) :
    vars.locateAll (name :: rest) = (vars.locate name).locateAll rest := rfl

/-- To declare a name makes it the only one that is no longer lacking. -/
theorem lacks_locate (vars : Variables) (name other : String) :
    (vars.locate name).lacks other =
      (vars.lacks other && decide (Text.lowercase name ≠ Text.lowercase other)) := by
  by_cases hname : vars.find? name = none
  · rw [locate, Registry.lacks, Registry.toList_declare_of_absent hname, List.all_append]
    simp only [List.all_cons, List.all_nil, Bool.and_true]
    rfl
  · rw [locate, Registry.declare_of_present hname]
    by_cases hsame : Text.lowercase name = Text.lowercase other
    · rw [Registry.find?_congr hsame, ← Registry.lacks_iff, Bool.not_eq_true] at hname
      rw [hname, Bool.false_and]
    · rw [decide_eq_true hsame, Bool.and_true]

/-- To declare names adds the first spelling of each that is lacking, without a value. -/
theorem toList_locateAll (vars : Variables) (names : List String) :
    (vars.locateAll names).toList =
      vars.toList ++ ((firstSpellings names).filter vars.lacks).map (⟨·, none⟩) := by
  induction names generalizing vars with
  | nil => exact (List.append_nil _).symm
  | cons name rest ih =>
    -- What the rest still adds is what it would have added, but for the spellings of this name.
    have hothers : (firstSpellings rest).filter (vars.locate name).lacks =
        ((firstSpellings rest).filter fun other =>
          Text.lowercase name ≠ Text.lowercase other).filter vars.lacks := by
      rw [List.filter_filter]
      exact List.filter_congr fun other _ => lacks_locate vars name other
    rw [locateAll_cons, ih, hothers, firstSpellings, List.filter_cons]
    by_cases hname : vars.find? name = none
    · rw [if_pos (Registry.lacks_iff.mpr hname), locate, Registry.toList_declare_of_absent hname,
        List.map_cons, List.append_assoc]
      rfl
    · rw [if_neg fun hlacks => hname (Registry.lacks_iff.mp hlacks), locate,
        Registry.declare_of_present hname]

theorem names_locateAll_empty (names : List String) :
    (locateAll .empty names).toList.map (·.name) = firstSpellings names := by
  have hlacks : (firstSpellings names).filter (Registry.empty : Variables).lacks =
      firstSpellings names := List.filter_eq_self.mpr fun name _ => Registry.lacks_empty
  rw [toList_locateAll, hlacks, Registry.toList_empty, List.nil_append, List.map_map]
  exact List.map_id _

end Variables

namespace Formula

/-- The names of the variables are the first spellings among those that the program reads. -/
theorem variableNames_eq (f : Formula) :
    f.variableNames = firstSpellings f.program.references :=
  Variables.names_locateAll_empty _

theorem firstSpellings_variableNames (f : Formula) :
    firstSpellings f.variableNames = f.variableNames := by
  rw [variableNames_eq]
  exact firstSpellings_eq_self (pairwise_firstSpellings _)

end Formula

end Formulary
