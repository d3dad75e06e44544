import Std.Data.HashMap
import Formulary.Text.Lowercase

/-!
# Registries of names

A registry lists named contents in the order in which the names were first registered. Two spellings
that agree in small letters are one name. An index leads from the small letters of a name to the
position of its entry; that it leads to every entry and to nothing else is part of the type, so no
two entries share a name. `find?` goes through the index.
-/

namespace Formulary

structure Entry (α : Type) where
  name : String
  content : α
deriving DecidableEq, Repr

/-- What two spellings of one name have in common. -/
def Entry.key {α : Type} (entry : Entry α) : String := Text.lowercase entry.name

/-- Entries in order with the index of their names. -/
structure Registry (α : Type) where
  entries : Array (Entry α)
  index : Std.HashMap String Nat
  coherent : ∀ key i, index[key]? = some i ↔
    ∃ entry : Entry α, entries[i]? = some entry ∧ entry.key = key

namespace Registry

variable {α : Type}

def empty : Registry α := ⟨#[], ∅, by simp⟩

def toList (r : Registry α) : List (Entry α) := r.entries.toList

def size (r : Registry α) : Nat := r.entries.size

def isEmpty (r : Registry α) : Bool := r.entries.isEmpty

def position? (r : Registry α) (name : String) : Option Nat := r.index[Text.lowercase name]?

def find? (r : Registry α) (name : String) : Option (Entry α) :=
  (r.position? name).bind fun i => r.entries[i]?

/-- The registry with one more entry, whose name is not registered yet. -/
def append (r : Registry α) (entry : Entry α) (absent : r.index[entry.key]? = none) :
    Registry α where
  entries := r.entries.push entry
  index := r.index.insert entry.key r.entries.size
  coherent := by
    intro key i
    have known := r.coherent
    rw [Std.HashMap.getElem?_insert, Array.getElem?_push]
    by_cases hk : entry.key = key
    · subst hk
      simp only [BEq.rfl, if_true, Option.some.injEq]
      constructor
      · rintro rfl
        exact ⟨entry, by simp, rfl⟩
      · rintro ⟨other, hother, hkey⟩
        split at hother
        · exact Eq.symm ‹_›
        · have := (known entry.key i).mpr ⟨other, hother, hkey⟩
          rw [absent] at this
          cases this
    · simp only [beq_iff_eq, hk, if_false]
      rw [known key i]
      constructor
      · rintro ⟨other, hother, hkey⟩
        refine ⟨other, ?_, hkey⟩
        split
        · subst i
          simp at hother
        · exact hother
      · rintro ⟨other, hother, hkey⟩
        split at hother
        · cases hother
          exact absurd hkey hk
        · exact ⟨other, hother, hkey⟩

/-- The registry with the entry at a position exchanged for another of the same name. -/
def exchange (r : Registry α) (i : Nat) (entry : Entry α)
    (present : r.index[entry.key]? = some i) : Registry α where
  entries := r.entries.setIfInBounds i entry
  index := r.index
  coherent := by
    intro key j
    obtain ⟨old, hold, holdKey⟩ := (r.coherent entry.key i).mp present
    have hi : i < r.entries.size := (Array.getElem?_eq_some_iff.mp hold).1
    rw [r.coherent key j, Array.getElem?_setIfInBounds]
    by_cases hij : i = j
    · subst hij
      simp only [if_true, hi]
      constructor
      · rintro ⟨other, hother, hkey⟩
        rw [hold] at hother
        cases hother
        exact ⟨entry, rfl, holdKey.symm.trans hkey⟩
      · rintro ⟨other, hother, hkey⟩
        cases hother
        exact ⟨old, hold, holdKey.trans hkey⟩
    · simp [hij]

/-- The registry without the entry at a position. Later entries move up. -/
def eraseAt (r : Registry α) (i : Nat) (key : String) (present : r.index[key]? = some i)
    (inBounds : i < r.entries.size) : Registry α where
  entries := r.entries.eraseIdx i inBounds
  index := (r.index.erase key).map fun _ p => if p > i then p - 1 else p
  coherent := by
    intro other j
    rw [Std.HashMap.getElem?_map, Std.HashMap.getElem?_erase, Array.getElem?_eraseIdx]
    obtain ⟨gone, hgone, hgoneKey⟩ := (r.coherent key i).mp present
    by_cases hk : key = other
    · subst hk
      simp only [BEq.rfl, if_true, Option.map_none, reduceCtorEq, false_iff]
      rintro ⟨entry, hentry, hkey⟩
      split at hentry
      · have := (r.coherent key j).mpr ⟨entry, hentry, hkey⟩
        rw [present] at this
        cases this
        omega
      · have := (r.coherent key (j + 1)).mpr ⟨entry, hentry, hkey⟩
        rw [present] at this
        cases this
        omega
    · simp only [beq_iff_eq, hk, if_false, Option.map_eq_some_iff]
      constructor
      · rintro ⟨p, hp, rfl⟩
        obtain ⟨entry, hentry, hkey⟩ := (r.coherent other p).mp hp
        have hpi : p ≠ i := by
          rintro rfl
          rw [hgone] at hentry
          cases hentry
          exact hk (hgoneKey.symm.trans hkey)
        refine ⟨entry, ?_, hkey⟩
        by_cases hlt : p > i
        · simp only [hlt, if_true]
          rw [if_neg (by omega), Nat.sub_add_cancel (by omega)]
          exact hentry
        · simp only [hlt, if_false]
          rw [if_pos (by omega)]
          exact hentry
      · rintro ⟨entry, hentry, hkey⟩
        split at hentry
        · exact ⟨j, (r.coherent other j).mpr ⟨entry, hentry, hkey⟩, by
            rw [if_neg (by omega)]⟩
        · exact ⟨j + 1, (r.coherent other (j + 1)).mpr ⟨entry, hentry, hkey⟩, by
            rw [if_pos (by omega)]; omega⟩

/-- The registry with an entry that takes the place of the one of the same name, or comes last. -/
def put (r : Registry α) (entry : Entry α) : Registry α :=
  match h : r.index[entry.key]? with
  | some i => r.exchange i entry h
  | none => r.append entry h

/-- The registry with the contents of a name. A name that is registered keeps its place and its
spelling, a new one comes last. -/
def assign (r : Registry α) (name : String) (content : α) : Registry α :=
  match r.find? name with
  | some entry => r.put { entry with content := content }
  | none => r.put ⟨name, content⟩

/-- The registry in which a name is registered, with these contents if it is new. -/
def declare (r : Registry α) (name : String) (content : α) : Registry α :=
  match r.find? name with
  | some _ => r
  | none => r.put ⟨name, content⟩

def erase (r : Registry α) (name : String) : Registry α :=
  match h : r.index[Text.lowercase name]? with
  | some i =>
    if hi : i < r.entries.size then r.eraseAt i (Text.lowercase name) h hi else r
  | none => r

def map (r : Registry α) (change : α → α) : Registry α where
  entries := r.entries.map fun entry => { entry with content := change entry.content }
  index := r.index
  coherent := by
    intro key i
    rw [r.coherent key i, Array.getElem?_map]
    constructor
    · rintro ⟨entry, hentry, hkey⟩
      exact ⟨{ entry with content := change entry.content }, by rw [hentry]; rfl, hkey⟩
    · rintro ⟨entry, hentry, hkey⟩
      obtain ⟨old, hold, rfl⟩ := Option.map_eq_some_iff.mp hentry
      exact ⟨old, hold, hkey⟩

end Registry

end Formulary
