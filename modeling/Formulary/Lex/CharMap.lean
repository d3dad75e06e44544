/-!
# Maps on characters

A map is built from ranges of characters with a value each. Where ranges overlap, the one that was
registered last decides. The map has two regions. The first characters, ASCII among them, have an
entry each in a table, and a range overwrites the entries of its characters there. For the
characters beyond, the ranges themselves are kept and searched from the latest on.
-/

namespace Formulary

structure CharRange (α : Type) where
  first : Char
  last : Char
  value : α

def CharRange.holds {α : Type} (range : CharRange α) (c : Char) : Bool :=
  range.first ≤ c && c ≤ range.last

/-- Characters are ordered by their numbers. -/
theorem CharRange.le_iff {c d : Char} : c ≤ d ↔ c.toNat ≤ d.toNat := by
  rw [Char.le_def, UInt32.le_iff_toNat_le]
  rfl

theorem CharRange.lt_iff {c d : Char} : c < d ↔ c.toNat < d.toNat := by
  rw [Char.lt_def, UInt32.lt_iff_toNat_lt]
  rfl

theorem CharRange.holds_iff {α : Type} {first last : Char} {value : α} {c : Char} :
    CharRange.holds ⟨first, last, value⟩ c = true ↔
      first.toNat ≤ c.toNat ∧ c.toNat ≤ last.toNat := by
  simp only [CharRange.holds, Bool.and_eq_true, decide_eq_true_eq, CharRange.le_iff]

/-- A table with an entry for each of the first characters, and the ranges of the others, the latest
first. -/
structure CharMap (α : Type) where
  table : Fin 0x100 → Option α
  wide : List (CharRange α)

namespace CharMap

variable {α : Type}

def empty : CharMap α := ⟨fun _ => none, []⟩

/-- The first character that has no entry in the table. -/
def firstWide : Char := Char.ofNat 0x100

/-- The table with the entries of all characters from `first` to `last` overwritten. -/
def overwrite (table : Fin 0x100 → Option α) (first last : Nat) (value : α) :
    Fin 0x100 → Option α :=
  fun code => if first ≤ code ∧ code ≤ last then some value else table code

/-- The map with a value for all characters of a range. A range that ends before it begins changes
nothing; one that reaches beyond the table is kept as far as it does. -/
def insertRange (map : CharMap α) (first last : Char) (value : α) : CharMap α :=
  if last < first then map
  else
    { table := overwrite map.table first.toNat last.toNat value
      wide :=
        if last < firstWide then map.wide
        else ⟨if first < firstWide then firstWide else first, last, value⟩ :: map.wide }

def insert (map : CharMap α) (c : Char) (value : α) : CharMap α := map.insertRange c c value

def lastChar : Char := Char.ofNat 0x10FFFF

def insertAll (map : CharMap α) (value : α) : CharMap α :=
  map.insertRange (Char.ofNat 0) lastChar value

/-- The value of a character: its entry, or that of the latest range that it belongs to. -/
def get? (map : CharMap α) (c : Char) : Option α :=
  if h : c.toNat < 0x100 then map.table ⟨c.toNat, h⟩
  else (map.wide.find? (·.holds c)).map (·.value)

def holds (map : CharMap Bool) (c : Char) : Bool := (map.get? c).getD false

theorem get?_empty (c : Char) : (empty : CharMap α).get? c = none := by
  unfold get?
  split <;> rfl

/-- A range decides about its characters in either region, and about no others. -/
theorem get?_insertRange (map : CharMap α) (first last : Char) (value : α) (c : Char) :
    (map.insertRange first last value).get? c =
      if first.toNat ≤ c.toNat ∧ c.toNat ≤ last.toNat then some value else map.get? c := by
  have hwide : firstWide.toNat = 0x100 := rfl
  unfold insertRange
  split
  · next hempty =>
    rw [CharRange.lt_iff] at hempty
    rw [if_neg (by omega)]
  · next hle =>
    unfold get?
    split
    · rfl
    · next hc =>
      -- Beyond the table the part of the range that is kept holds the same characters.
      simp only [CharRange.lt_iff, hwide] at hle ⊢
      split
      · rw [if_neg (by omega)]
      · have hkept : CharRange.holds ⟨if first.toNat < 0x100 then firstWide else first, last, value⟩
            c = true ↔ first.toNat ≤ c.toNat ∧ c.toNat ≤ last.toNat := by
          rw [CharRange.holds_iff]
          split <;> omega
        rw [List.find?_cons]
        split
        · next hholds =>
          rw [if_pos (hkept.mp hholds)]
          rfl
        · next hholds =>
          rw [if_neg fun hmem => by simp [hkept.mpr hmem] at hholds]

theorem toNat_le_lastChar (c : Char) : c.toNat ≤ lastChar.toNat := by
  have hlast : lastChar.toNat = 0x10FFFF := rfl
  rw [hlast]
  rcases c.valid with hlow | ⟨-, hhigh⟩
  · change c.toNat < _ at hlow
    omega
  · change c.toNat < _ at hhigh
    omega

end CharMap

end Formulary
