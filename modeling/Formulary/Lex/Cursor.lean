import Formulary.Text.Position

/-!
# A cursor in a text

A cursor stands between the characters that were read and those that are still to come. Every
character that was read is kept with its place, so stepping back restores the place before it. A
line ends at a line feed and at a carriage return that has no line feed beside it; the return of a
pair takes no place of its own.
-/

namespace Formulary

/-- A place to read from: what was read, nearest first and each character with its place, and what
comes next. -/
structure Cursor where
  behind : List (Char × Position)
  ahead : List Char
deriving DecidableEq, Repr

namespace Cursor

def ofText (text : String) : Cursor := ⟨[], text.toList⟩

/-- Whether a character between two others ends its line. -/
def endsLine (before : Option Char) (c : Char) (after : Option Char) : Bool :=
  c == '\n' || (c == '\r' && before != some '\n' && after != some '\n')

/-- The place of a character after a place, seen between the characters around it. -/
def placeAfter (p : Position) (before : Option Char) (c : Char) (after : Option Char) : Position :=
  if endsLine before c after then ⟨p.line + 1, 0⟩
  else if c == '\n' || c == '\r' then p
  else ⟨p.line, p.column + 1⟩

def offset (cursor : Cursor) : Nat := cursor.behind.length

def atEnd (cursor : Cursor) : Bool := cursor.ahead.isEmpty

/-- The place of the last character read. -/
def place (cursor : Cursor) : Position :=
  match cursor.behind with
  | (_, p) :: _ => p
  | [] => Position.start

def last? (cursor : Cursor) : Option Char := cursor.behind.head?.map (·.1)

/-- The place of the next character, or the one after the last character at the end. -/
def nextPlace (cursor : Cursor) : Position :=
  match cursor.ahead with
  | c :: rest => placeAfter cursor.place cursor.last? c rest.head?
  | [] => ⟨cursor.place.line, cursor.place.column + 1⟩

def peek? (cursor : Cursor) : Option Char := cursor.ahead.head?

/-- The character after the next `n`. -/
def peekAt? (cursor : Cursor) (n : Nat) : Option Char := cursor.ahead[n]?

/-- The cursor behind the next character, if there is one. -/
def advance (cursor : Cursor) : Cursor :=
  match cursor.ahead with
  | c :: rest => ⟨(c, cursor.nextPlace) :: cursor.behind, rest⟩
  | [] => cursor

def skip (cursor : Cursor) : Nat → Cursor
  | 0 => cursor
  | n + 1 => if cursor.atEnd then cursor else cursor.advance.skip n

/-- The cursor in front of the last character read, if there is one. -/
def retreat (cursor : Cursor) : Cursor :=
  match cursor.behind with
  | (c, _) :: rest => ⟨rest, c :: cursor.ahead⟩
  | [] => cursor

def retreatBy (cursor : Cursor) : Nat → Cursor
  | 0 => cursor
  | n + 1 => if cursor.behind.isEmpty then cursor else cursor.retreat.retreatBy n

def reset (cursor : Cursor) : Cursor := cursor.retreatBy cursor.offset

def run (cursor : Cursor) (test : Char → Bool) : List Char := cursor.ahead.takeWhile test

def skipWhile (cursor : Cursor) (test : Char → Bool) : Cursor :=
  cursor.skip (cursor.run test).length

/-- What was read since an earlier offset. -/
def since (cursor : Cursor) (start : Nat) : List Char :=
  ((cursor.behind.take (cursor.offset - start)).map (·.1)).reverse

def text (cursor : Cursor) : List Char := (cursor.behind.map (·.1)).reverse ++ cursor.ahead

@[simp] theorem ahead_advance (cursor : Cursor) : cursor.advance.ahead = cursor.ahead.tail := by
  unfold advance
  split <;> simp_all

@[simp] theorem ahead_skip (cursor : Cursor) (n : Nat) :
    (cursor.skip n).ahead = cursor.ahead.drop n := by
  induction n generalizing cursor with
  | zero => rfl
  | succ n ih =>
    rw [skip]
    split
    · simp_all [atEnd]
    · rw [ih, ahead_advance, List.drop_tail]

theorem skip_of_atEnd {cursor : Cursor} (h : cursor.atEnd = true) (n : Nat) :
    cursor.skip n = cursor := by
  cases n with
  | zero => rfl
  | succ n => rw [skip, if_pos h]

theorem advance_eq_skip (cursor : Cursor) : cursor.advance = cursor.skip 1 := by
  rw [skip]
  split
  · next h => simp [advance, List.isEmpty_iff.mp h]
  · rfl

theorem skip_skip (cursor : Cursor) (m n : Nat) :
    (cursor.skip m).skip n = cursor.skip (m + n) := by
  induction m generalizing cursor with
  | zero => rw [Nat.zero_add, skip]
  | succ m ih =>
    by_cases h : cursor.atEnd = true
    · rw [skip_of_atEnd h, skip_of_atEnd h, skip_of_atEnd h]
    · rw [Nat.succ_add, skip, skip, if_neg h, if_neg h, ih]

/-- Skipping stops at the end of the text. -/
theorem skip_length_take (cursor : Cursor) (n : Nat) :
    cursor.skip (cursor.ahead.take n).length = cursor.skip n := by
  rw [List.length_take]
  by_cases h : n ≤ cursor.ahead.length
  · rw [Nat.min_eq_left h]
  · have hend : (cursor.skip cursor.ahead.length).atEnd = true := by simp [atEnd]
    rw [Nat.min_eq_right (Nat.le_of_not_le h), ← skip_of_atEnd hend (n - cursor.ahead.length),
      skip_skip, Nat.add_sub_cancel' (Nat.le_of_not_le h)]

theorem advance_of_ahead {cursor : Cursor} {c : Char} {rest : List Char}
    (h : cursor.ahead = c :: rest) :
    cursor.advance = ⟨(c, cursor.nextPlace) :: cursor.behind, rest⟩ := by
  unfold advance
  rw [h]

/-- A step back undoes a step ahead. -/
theorem retreat_advance {cursor : Cursor} {c : Char} {rest : List Char}
    (h : cursor.ahead = c :: rest) : cursor.advance.retreat = cursor := by
  rw [advance_of_ahead h]
  dsimp only [retreat]
  rw [← h]

/-- The characters that were skipped are kept in front of those that were read before. -/
theorem exists_behind_skip (cursor : Cursor) (n : Nat) :
    ∃ skipped, (cursor.skip n).behind = skipped ++ cursor.behind ∧
      skipped.map (·.1) = (cursor.ahead.take n).reverse := by
  induction n generalizing cursor with
  | zero => exact ⟨[], rfl, rfl⟩
  | succ n ih =>
    rw [skip]
    cases hahead : cursor.ahead with
    | nil =>
      have hend : cursor.atEnd = true := by simp [atEnd, hahead]
      exact ⟨[], by rw [if_pos hend]; rfl, rfl⟩
    | cons c rest =>
      have hend : ¬ cursor.atEnd = true := by simp [atEnd, hahead]
      obtain ⟨skipped, hbehind, hchars⟩ := ih cursor.advance
      rw [advance_of_ahead hahead] at hbehind hchars
      refine ⟨skipped ++ [(c, cursor.nextPlace)], ?_, by simp [hchars]⟩
      rw [if_neg hend, advance_of_ahead hahead, hbehind]
      simp

/-- What was read since a place is what was skipped from there. -/
theorem since_skip (cursor : Cursor) (n : Nat) :
    (cursor.skip n).since cursor.offset = cursor.ahead.take n := by
  obtain ⟨skipped, hbehind, hchars⟩ := cursor.exists_behind_skip n
  have hlength : (cursor.skip n).offset - cursor.offset = skipped.length := by
    simp [offset, hbehind]
  rw [since, hlength, hbehind, List.take_left, hchars, List.reverse_reverse]

theorem offset_skip (cursor : Cursor) (n : Nat) :
    (cursor.skip n).offset = cursor.offset + min n cursor.ahead.length := by
  obtain ⟨skipped, hbehind, hchars⟩ := cursor.exists_behind_skip n
  have hlength : skipped.length = min n cursor.ahead.length := by
    rw [← List.length_map, hchars, List.length_reverse, List.length_take]
  rw [offset, hbehind, List.length_append, hlength, offset, Nat.add_comm]

/-- Stepping back by what was skipped leads back to where the skipping began. -/
theorem retreatBy_skip (cursor : Cursor) (n : Nat) :
    (cursor.skip n).retreatBy ((cursor.skip n).offset - cursor.offset) = cursor := by
  induction n with
  | zero => simp [skip, retreatBy]
  | succ n ih =>
    rw [← skip_skip, ← advance_eq_skip]
    cases hahead : (cursor.skip n).ahead with
    | nil =>
      have hstay : (cursor.skip n).advance = cursor.skip n := by
        unfold advance
        rw [hahead]
      rw [hstay]
      exact ih
    | cons c rest =>
      have hle : cursor.offset ≤ (cursor.skip n).offset := by
        rw [offset_skip]
        omega
      have hoffset : (cursor.skip n).advance.offset - cursor.offset =
          ((cursor.skip n).offset - cursor.offset) + 1 := by
        have hstep : (cursor.skip n).advance.offset = (cursor.skip n).offset + 1 := by
          simp [advance_of_ahead hahead, offset]
        omega
      have hread : (cursor.skip n).advance.behind.isEmpty = false := by
        simp [advance_of_ahead hahead]
      rw [hoffset, retreatBy, hread, retreat_advance hahead]
      exact ih

end Cursor

end Formulary
