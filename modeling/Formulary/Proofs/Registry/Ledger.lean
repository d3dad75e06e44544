import Formulary.Proofs.Registry.Listing

/-!
# Registries and plain lists

A ledger is a plain list of entries, in which a name is looked for from the first entry to the last.
A registry does through its index what can be done on the ledger: the index has the small letters of
every name at the position of its entry and nothing else, each operation on the registry is the one
of the same name on its list, and no two entries of the list share a name.
-/

namespace Formulary

/-- Entries in order, without an index. -/
abbrev Ledger (α : Type) := List (Entry α)

namespace Ledger

variable {α : Type}

def lookup? (name : String) (ledger : Ledger α) : Option (Entry α) :=
  ledger.find? fun entry => entry.key = Text.lowercase name

/-- The ledger with an entry in the place of the one of the same name, or behind all others. -/
def put (entry : Entry α) : Ledger α → Ledger α
  | [] => [entry]
  | other :: rest => if other.key = entry.key then entry :: rest else other :: put entry rest

/-- The ledger with the contents of a name. An entry that is there keeps its place and its spelling,
a new one comes behind all others. -/
def assign (name : String) (content : α) : Ledger α → Ledger α
  | [] => [⟨name, content⟩]
  | entry :: rest =>
    if entry.key = Text.lowercase name then { entry with content := content } :: rest
    else entry :: assign name content rest

def overwrite (name : String) (content : α) (ledger : Ledger α) : Ledger α :=
  ledger.map fun entry =>
    if entry.key = Text.lowercase name then { entry with content := content } else entry

def declare (name : String) (content : α) (ledger : Ledger α) : Ledger α :=
  if (ledger.lookup? name).isSome then ledger else ledger ++ [⟨name, content⟩]

def erase (name : String) (ledger : Ledger α) : Ledger α :=
  ledger.filter fun entry => entry.key ≠ Text.lowercase name

def Distinct (ledger : Ledger α) : Prop := ledger.Pairwise fun a b => a.key ≠ b.key

def position? (key : String) (ledger : Ledger α) : Option Nat :=
  ledger.findIdx? fun entry => entry.key = key

variable {ledger : Ledger α} {name : String} {entry : Entry α} {content : α}

theorem lookup?_cons (name : String) (first : Entry α) (rest : Ledger α) :
    lookup? name (first :: rest) =
      if first.key = Text.lowercase name then some first else lookup? name rest := by
  rw [lookup?, List.find?_cons]
  by_cases hkey : first.key = Text.lowercase name
  · rw [decide_eq_true hkey, if_pos hkey]
  · rw [decide_eq_false hkey, if_neg hkey]
    rfl

theorem position?_cons (key : String) (first : Entry α) (rest : Ledger α) :
    position? key (first :: rest) =
      if first.key = key then some 0 else (position? key rest).map (· + 1) := by
  simp only [position?, List.findIdx?_cons, decide_eq_true_eq]

theorem key_of_lookup? (h : ledger.lookup? name = some entry) :
    entry.key = Text.lowercase name := by
  have hfound := List.find?_some h
  exact of_decide_eq_true hfound

theorem lookup?_eq_some (hdistinct : ledger.Distinct) (hmem : entry ∈ ledger)
    (hkey : entry.key = Text.lowercase name) : ledger.lookup? name = some entry := by
  induction hdistinct with
  | nil => cases hmem
  | @cons first rest hfirst _ ih =>
    rw [lookup?_cons]
    cases hmem with
    | head => exact if_pos hkey
    | tail _ hmem =>
      have hother : first.key ≠ Text.lowercase name := hkey ▸ hfirst entry hmem
      rw [if_neg hother, ih hmem]

theorem lookup?_eq_none (h : ∀ entry ∈ ledger, entry.key ≠ Text.lowercase name) :
    ledger.lookup? name = none :=
  List.find?_eq_none.mpr fun entry hentry => mt of_decide_eq_true (h entry hentry)

/-- An entry takes the place of the one of its name, or the one behind all others. -/
theorem put_eq (entry : Entry α) (ledger : Ledger α) :
    ledger.put entry =
      (ledger.position? entry.key).elim (ledger ++ [entry]) (ledger.set · entry) := by
  induction ledger with
  | nil => rfl
  | cons other rest ih =>
    rw [put, position?_cons]
    by_cases hkey : other.key = entry.key
    · rw [if_pos hkey, if_pos hkey]
      rfl
    · rw [if_neg hkey, if_neg hkey, ih]
      cases position? entry.key rest <;> rfl

theorem lookup?_put (name : String) (entry : Entry α) (ledger : Ledger α) :
    (ledger.put entry).lookup? name =
      if entry.key = Text.lowercase name then some entry else ledger.lookup? name := by
  induction ledger with
  | nil => exact lookup?_cons name entry []
  | cons other rest ih =>
    rw [put, lookup?_cons]
    by_cases hkey : other.key = entry.key
    · rw [if_pos hkey, lookup?_cons, hkey]
      split <;> rfl
    · rw [if_neg hkey, lookup?_cons, ih]
      split
      · next hother => rw [if_neg fun hentry => hkey (hother.trans hentry.symm)]
      · rfl

/-- Putting an entry adds its key behind the others, unless it is there. -/
theorem keys_put (entry : Entry α) (ledger : Ledger α) :
    (ledger.put entry).map Entry.key = ledger.map Entry.key ++
      if entry.key ∈ ledger.map Entry.key then [] else [entry.key] := by
  induction ledger with
  | nil => rfl
  | cons other rest ih =>
    rw [put]
    by_cases hkey : other.key = entry.key
    · simp [hkey]
    · simp [hkey, ih, Ne.symm hkey]

theorem assign_of_absent (h : ∀ entry ∈ ledger, entry.key ≠ Text.lowercase name) (content : α) :
    ledger.assign name content = ledger ++ [⟨name, content⟩] := by
  induction ledger with
  | nil => rfl
  | cons first rest ih =>
    rw [assign, if_neg (h first List.mem_cons_self),
      ih fun other hother => h other (.tail _ hother)]
    rfl

/-- To assign contents to a name that is there is to put its entry with other contents. -/
theorem assign_eq_put (h : ledger.lookup? name = some entry) (content : α) :
    ledger.assign name content = ledger.put { entry with content := content } := by
  induction ledger with
  | nil => cases h
  | cons first rest ih =>
    rw [lookup?_cons] at h
    rw [assign, put]
    by_cases hkey : first.key = Text.lowercase name
    · rw [if_pos hkey] at h
      cases h
      exact (if_pos hkey).trans (if_pos rfl).symm
    · rw [if_neg hkey] at h
      have hother : first.key ≠ entry.key := fun hfirst => hkey (hfirst.trans (key_of_lookup? h))
      rw [if_neg hkey, ih h]
      exact (if_neg hother).symm

theorem names_assign (name : String) (content : α) (ledger : Ledger α) :
    (ledger.assign name content).map (·.name) = ledger.map (·.name) ++
      if ledger.all fun entry => entry.key ≠ Text.lowercase name then [name] else [] := by
  induction ledger with
  | nil => rfl
  | cons first rest ih =>
    rw [assign, List.all_cons]
    by_cases hkey : first.key = Text.lowercase name
    · simp [hkey]
    · simp [hkey, ih]

theorem overwrite_of_absent (h : ∀ entry ∈ ledger, entry.key ≠ Text.lowercase name) (content : α) :
    ledger.overwrite name content = ledger := by
  refine (List.map_congr_left fun entry hentry => ?_).trans (List.map_id ledger)
  exact if_neg (h entry hentry)

/-- Among distinct names, other contents of one that is there are assigned to it. -/
theorem overwrite_eq_assign (hdistinct : ledger.Distinct) (h : ledger.lookup? name = some entry)
    (content : α) : ledger.overwrite name content = ledger.assign name content := by
  induction hdistinct with
  | nil => cases h
  | @cons first rest hfirst _ ih =>
    rw [lookup?_cons] at h
    rw [overwrite, List.map_cons, assign]
    by_cases hkey : first.key = Text.lowercase name
    · have hrest : ∀ other ∈ rest, other.key ≠ Text.lowercase name := fun other hother =>
        hkey ▸ (hfirst other hother).symm
      rw [if_pos hkey, if_pos hkey]
      exact congrArg _ (overwrite_of_absent hrest content)
    · rw [if_neg hkey] at h
      rw [if_neg hkey, if_neg hkey]
      exact congrArg _ (ih h)

theorem erase_of_absent (h : ∀ entry ∈ ledger, entry.key ≠ Text.lowercase name) :
    ledger.erase name = ledger :=
  List.filter_eq_self.mpr fun entry hentry => decide_eq_true (h entry hentry)

theorem lookup?_erase (name other : String) (ledger : Ledger α) :
    (ledger.erase other).lookup? name =
      if Text.lowercase other = Text.lowercase name then none else ledger.lookup? name := by
  induction ledger with
  | nil => exact (ite_self none).symm
  | cons first rest ih =>
    rw [erase, List.filter_cons, lookup?_cons]
    by_cases hkey : first.key = Text.lowercase other
    · rw [if_neg (by simp [hkey]), hkey]
      exact ih.trans (by split <;> rfl)
    · rw [if_pos (decide_eq_true hkey), lookup?_cons, ← erase, ih]
      split
      · next hfirst => rw [if_neg fun hother => hkey (hfirst.trans hother.symm)]
      · rfl

/-- Among distinct names, one entry less leaves the entries of the other names. -/
theorem eraseIdx_eq_erase (hdistinct : ledger.Distinct) {i : Nat}
    (h : ledger.position? (Text.lowercase name) = some i) :
    ledger.eraseIdx i = ledger.erase name := by
  induction hdistinct generalizing i with
  | nil => cases h
  | @cons first rest hfirst _ ih =>
    rw [position?_cons] at h
    rw [erase, List.filter_cons]
    by_cases hkey : first.key = Text.lowercase name
    · rw [if_pos hkey] at h
      cases h
      have hrest : ∀ other ∈ rest, other.key ≠ Text.lowercase name := fun other hother =>
        hkey ▸ (hfirst other hother).symm
      have hdrop : ¬ decide (first.key ≠ Text.lowercase name) = true := fun hkept =>
        of_decide_eq_true hkept hkey
      rw [if_neg hdrop]
      exact (erase_of_absent hrest).symm
    · rw [if_neg hkey] at h
      obtain ⟨j, hj, rfl⟩ := Option.map_eq_some_iff.mp h
      rw [if_pos (decide_eq_true hkey)]
      exact congrArg _ (ih hj)

end Ledger

namespace Registry

variable {α : Type}

/-- No two entries of a registry are of one name. -/
theorem distinct_toList (r : Registry α) : Ledger.Distinct r.toList := by
  refine List.pairwise_iff_getElem.mpr fun i j hi hj hlt hkey => ?_
  have hfirst : r.index[r.toList[i].key]? = some i :=
    (r.coherent _ i).mpr ⟨_, Array.getElem?_toList.symm.trans (List.getElem?_eq_getElem hi), rfl⟩
  have hsecond : r.index[r.toList[i].key]? = some j :=
    (r.coherent _ j).mpr
      ⟨_, Array.getElem?_toList.symm.trans (List.getElem?_eq_getElem hj), hkey.symm⟩
  have hsame : i = j := Option.some.inj (hfirst.symm.trans hsecond)
  omega

/-- The index leads from small letters to the position in the list and to nothing else. -/
theorem index_eq (r : Registry α) (key : String) :
    r.index[key]? = Ledger.position? key r.toList := by
  cases h : Ledger.position? key r.toList with
  | none =>
    refine Option.eq_none_iff_forall_ne_some.mpr fun i hi => ?_
    obtain ⟨entry, hentry, hkey⟩ := (r.coherent key i).mp hi
    have hmem : entry ∈ r.toList := List.mem_of_getElem? (Array.getElem?_toList.trans hentry)
    exact of_decide_eq_false (List.findIdx?_eq_none_iff.mp h entry hmem) hkey
  | some i =>
    obtain ⟨hi, hkey, -⟩ := List.findIdx?_eq_some_iff_getElem.mp h
    exact (r.coherent key i).mpr ⟨_, Array.getElem?_toList.symm.trans (List.getElem?_eq_getElem hi),
      of_decide_eq_true hkey⟩

theorem find?_eq (r : Registry α) (name : String) :
    r.find? name = Ledger.lookup? name r.toList := by
  cases h : r.find? name with
  | none => exact (Ledger.lookup?_eq_none (find?_eq_none_iff.mp h)).symm
  | some entry =>
    obtain ⟨hmem, hkey⟩ := find?_eq_some_iff.mp h
    exact (Ledger.lookup?_eq_some r.distinct_toList hmem hkey).symm

theorem isEmpty_eq (r : Registry α) : r.isEmpty = r.toList.isEmpty := Array.isEmpty_toList.symm

/-! One equation for each operation -/

/-- A registry puts an entry where its ledger does. -/
theorem toList_put (r : Registry α) (entry : Entry α) :
    (r.put entry).toList = Ledger.put entry r.toList := by
  have hindex := r.index_eq entry.key
  rw [Ledger.put_eq, put]
  split
  · next i hi =>
    have hposition : Ledger.position? entry.key r.toList = some i := hindex.symm.trans hi
    rw [hposition, toList, exchange, Array.toList_setIfInBounds]
    rfl
  · next hnone =>
    have hposition : Ledger.position? entry.key r.toList = none := hindex.symm.trans hnone
    rw [hposition, toList, append, Array.toList_push]
    rfl

theorem toList_assign (r : Registry α) (name : String) (content : α) :
    (r.assign name content).toList = Ledger.assign name content r.toList := by
  cases h : r.find? name with
  | some entry => rw [Ledger.assign_eq_put (r.find?_eq name ▸ h), ← toList_put, assign, h]
  | none => rw [Ledger.assign_of_absent (find?_eq_none_iff.mp h), toList_assign_of_absent h]

theorem toList_declare (r : Registry α) (name : String) (content : α) :
    (r.declare name content).toList = Ledger.declare name content r.toList := by
  rw [Ledger.declare, ← find?_eq]
  cases h : r.find? name with
  | some entry => rw [declare_of_present (h ▸ Option.some_ne_none entry)]; rfl
  | none => rw [toList_declare_of_absent h]; rfl

/-- A registry erases what its ledger does. -/
theorem toList_erase (r : Registry α) (name : String) :
    (r.erase name).toList = Ledger.erase name r.toList := by
  have hindex := r.index_eq (Text.lowercase name)
  rw [erase]
  split
  · next i hi =>
    obtain ⟨entry, hentry, -⟩ := (r.coherent _ i).mp hi
    have hinBounds : i < r.entries.size := (Array.getElem?_eq_some_iff.mp hentry).1
    rw [dif_pos hinBounds, toList, eraseAt, Array.toList_eraseIdx]
    exact Ledger.eraseIdx_eq_erase r.distinct_toList (hindex.symm.trans hi)
  · next hnone =>
    refine (Ledger.erase_of_absent fun entry hentry => ?_).symm
    have hposition := List.findIdx?_eq_none_iff.mp (hindex.symm.trans hnone)
    exact of_decide_eq_false (hposition entry hentry)

theorem toList_map (r : Registry α) (change : α → α) :
    (r.map change).toList =
      r.toList.map fun entry => { entry with content := change entry.content } :=
  Array.toList_map

theorem find?_put (r : Registry α) (entry : Entry α) (name : String) :
    (r.put entry).find? name =
      if entry.key = Text.lowercase name then some entry else r.find? name := by
  rw [find?_eq, toList_put, Ledger.lookup?_put, ← find?_eq]

theorem find?_erase (r : Registry α) (other name : String) :
    (r.erase other).find? name =
      if Text.lowercase other = Text.lowercase name then none else r.find? name := by
  rw [find?_eq, toList_erase, Ledger.lookup?_erase, ← find?_eq]

end Registry

end Formulary
