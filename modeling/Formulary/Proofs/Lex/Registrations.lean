import Formulary.Lex.CharMap
import Mathlib.Data.List.Induction

/-!
# What a map on characters remembers

Ranges are registered in a map and the map is cleared, in any order. Afterwards a character has the
value of the latest registration since the last clearing whose range holds it, whichever of the two
regions of the map it belongs to, and no value if there is none. The table and the ranges beyond it
keep one history between them.
-/

namespace Formulary.CharMap

variable {α : Type}

inductive Request (α : Type)
  | range (first last : Char) (value : α)
  | char (c : Char) (value : α)
  | all (value : α)
  | clear

namespace Request

/-- The value that a request registers for a character. -/
def registers? (c : Char) : Request α → Option α
  | range first last value => if first ≤ c ∧ c ≤ last then some value else none
  | char d value => if c = d then some value else none
  | all value => some value
  | clear => none

def isClear : Request α → Bool
  | clear => true
  | range .. | char .. | all _ => false

end Request

def perform (map : CharMap α) : Request α → CharMap α
  | .range first last value => map.insertRange first last value
  | .char c value => map.insert c value
  | .all value => map.insertAll value
  | .clear => empty

def after (requests : List (Request α)) : CharMap α := requests.foldl perform empty

/-- The requests since the last clearing, the latest first. -/
def sinceClear (requests : List (Request α)) : List (Request α) :=
  requests.reverse.takeWhile fun request => !request.isClear

/-- A value was registered for a character since the last clearing, and no other one later. -/
def Standing (requests : List (Request α)) (c : Char) (value : α) : Prop :=
  ∃ later request earlier, sinceClear requests = later ++ request :: earlier ∧
    request.registers? c = some value ∧ ∀ other ∈ later, other.registers? c = none

/-! One request more -/

/-- What a character has after one request more. -/
theorem get?_perform (map : CharMap α) (request : Request α) (c : Char) :
    (map.perform request).get? c =
      if request.isClear then none else (request.registers? c).or (map.get? c) := by
  cases request with
  | range first last value =>
    simp only [perform, get?_insertRange, ← CharRange.le_iff, Request.isClear, Request.registers?]
    by_cases h : first ≤ c ∧ c ≤ last <;> simp [h]
  | char d value =>
    have hsame : d ≤ c ∧ c ≤ d ↔ c = d := by
      rw [and_comm]
      exact Std.le_antisymm_iff
    simp only [perform, insert, get?_insertRange, ← CharRange.le_iff, hsame, Request.isClear,
      Request.registers?]
    by_cases h : c = d <;> simp [h]
  | all value =>
    have hc : (Char.ofNat 0).toNat ≤ c.toNat ∧ c.toNat ≤ lastChar.toNat :=
      ⟨Nat.zero_le _, toNat_le_lastChar c⟩
    rw [perform, insertAll, get?_insertRange, if_pos hc]
    rfl
  | clear => exact get?_empty c

theorem after_concat (requests : List (Request α)) (request : Request α) :
    after (requests ++ [request]) = (after requests).perform request := by
  simp [after]

theorem sinceClear_concat (requests : List (Request α)) (request : Request α) :
    sinceClear (requests ++ [request]) =
      if request.isClear then [] else request :: sinceClear requests := by
  rw [sinceClear, List.reverse_concat, List.takeWhile_cons]
  cases request.isClear <;> rfl

/-- The latest registration of a character has the last word. -/
theorem get?_after_eq_findSome? (requests : List (Request α)) (c : Char) :
    (after requests).get? c = (sinceClear requests).findSome? (·.registers? c) := by
  induction requests using List.reverseRecOn with
  | nil => exact get?_empty c
  | append_singleton requests request ih =>
    rw [after_concat, get?_perform, sinceClear_concat, ih]
    split
    · rfl
    · rw [List.findSome?_cons]
      cases request.registers? c <;> rfl

/-- After any requests a character has the value of the latest registration since the last clearing
that holds it, and none if no registration since then does. A range that ends before it begins holds
no character and leaves the map as it is. -/
theorem get?_after (requests : List (Request α)) (c : Char) :
    (∀ value, (after requests).get? c = some value ↔ Standing requests c value) ∧
    ((after requests).get? c = none ↔
      ∀ request ∈ sinceClear requests, request.registers? c = none) ∧
    ∀ first last value, last < first →
      after (requests ++ [.range first last value]) = after requests := by
  refine ⟨?some, ?none, ?empty⟩
  case some =>
    intro value
    rw [get?_after_eq_findSome?, List.findSome?_eq_some_iff]
    rfl
  case none =>
    rw [get?_after_eq_findSome?, List.findSome?_eq_none_iff]
  case empty =>
    intro first last value hempty
    rw [after_concat, perform, insertRange, if_pos hempty]

/-- A range across both regions, one character of it registered again, and a range turned round. -/
theorem get?_after_turned_range :
    let requests : List (Request Nat) := [.all 1, .clear, .range 'a' 'ω' 2, .char 'α' 3]
    Standing requests 'q' 2 ∧ Standing requests 'α' 3 ∧ (after requests).get? 'A' = none ∧
      'a' < 'q' ∧ after (requests ++ [.range 'q' 'a' 4]) = after requests := by
  intro requests
  have hturned : 'a' < 'q' := by decide
  have h := get?_after requests
  exact ⟨((h 'q').1 2).mp rfl, ((h 'α').1 3).mp rfl, (h 'A').2.1.mpr (by decide), hturned,
    (h 'q').2.2 'q' 'a' 4 hturned⟩

end Formulary.CharMap
