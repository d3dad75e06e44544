import Formulary.Lex.Cursor

/-!
# Where characters stand

Lines and columns can be counted in a text: the line of a character by the lines that end in front
of it, and its column by the characters since the last of these ends. A cursor that was moved ahead
and back in any way stands behind so many characters of its text, and its places are those that are
counted there. Whether a carriage return ends a line depends on both its neighbours; still, no
place comes before the place of an earlier character.
-/

namespace Formulary

/-! Counting in a text -/

namespace Text

variable {text : List Char} {n : Nat} {c : Char}

/-- Whether a line ends with the character at an index: with a line feed, and with a carriage return
that has no line feed right in front of it or right behind it. -/
def EndsLineAt (text : List Char) (i : Nat) : Prop :=
  text[i]? = some '\n' ∨
    text[i]? = some '\r' ∧ (0 < i → text[i - 1]? ≠ some '\n') ∧ text[i + 1]? ≠ some '\n'

instance (text : List Char) (i : Nat) : Decidable (EndsLineAt text i) :=
  inferInstanceAs (Decidable (_ ∨ _))

def takesColumn (c : Char) : Bool := c != '\r' && c != '\n'

/-- Where the line begins that goes on behind the first characters: behind the last of them that
ends a line. -/
def lineStart (text : List Char) (n : Nat) : Nat :=
  ((List.range n).reverse.find? fun i => EndsLineAt text i).elim 0 (· + 1)

/-- The place of the last of the first characters. Its line is one more than the lines that end
among them, and its column counts the characters since the last of these ends. -/
def placeBehind (text : List Char) (n : Nat) : Position where
  line := 1 + (List.range n).countP fun i => EndsLineAt text i
  column := ((text.take n).drop (lineStart text n)).countP takesColumn

theorem lineStart_succ (text : List Char) (n : Nat) :
    lineStart text (n + 1) = if EndsLineAt text n then n + 1 else lineStart text n := by
  rw [lineStart, List.range_succ, List.reverse_append, List.reverse_singleton,
    List.singleton_append, List.find?_cons]
  by_cases hend : EndsLineAt text n
  · rw [decide_eq_true hend, if_pos hend]
    rfl
  · rw [decide_eq_false hend, if_neg hend]
    rfl

theorem lineStart_le (text : List Char) (n : Nat) : lineStart text n ≤ n := by
  induction n with
  | zero => exact Nat.le_refl 0
  | succ n ih =>
    rw [lineStart_succ]
    split
    · exact Nat.le_refl _
    · exact Nat.le_succ_of_le ih

theorem line_placeBehind_succ (text : List Char) (n : Nat) :
    (placeBehind text (n + 1)).line =
      (placeBehind text n).line + if EndsLineAt text n then 1 else 0 := by
  simp only [placeBehind, List.range_succ, List.countP_append, List.countP_singleton,
    decide_eq_true_eq, Nat.add_assoc]

/-- The column goes back to zero behind the end of a line, and else on by one if the character takes
a column. -/
theorem column_placeBehind_succ (h : text[n]? = some c) :
    (placeBehind text (n + 1)).column =
      if EndsLineAt text n then 0
      else (placeBehind text n).column + if takesColumn c then 1 else 0 := by
  obtain ⟨hlt, -⟩ := List.getElem?_eq_some_iff.mp h
  have htake : text.take (n + 1) = text.take n ++ [c] := by
    rw [List.take_add_one, h]
    rfl
  have hlength : (text.take n).length = n := List.length_take_of_le (Nat.le_of_lt hlt)
  simp only [placeBehind, lineStart_succ]
  split
  · rw [List.drop_eq_nil_of_le (List.length_take_le _ _)]
    rfl
  · rw [htake, List.drop_append_of_le_length (hlength.symm ▸ lineStart_le text n),
      List.countP_append, List.countP_singleton]

/-- What the characters around a character say about its line is what the text says. -/
theorem endsLine_iff (h : text[n]? = some c) :
    Cursor.endsLine (text.take n).getLast? c text[n + 1]? = true ↔ EndsLineAt text n := by
  obtain ⟨hlt, -⟩ := List.getElem?_eq_some_iff.mp h
  have hbefore : (text.take n).getLast? = some '\n' ↔ 0 < n ∧ text[n - 1]? = some '\n' := by
    cases n with
    | zero => simp
    | succ m =>
      have hm : text[m]? = some text[m] := List.getElem?_eq_getElem (by omega)
      simp [List.getLast?_take, hm]
  simp only [Cursor.endsLine, EndsLineAt, h, Bool.or_eq_true, Bool.and_eq_true, beq_iff_eq,
    bne_iff_ne, ne_eq, hbefore, not_and, Option.some.injEq, and_assoc]

/-- Counting one more character finds the place after the one before it. -/
theorem placeBehind_succ (h : text[n]? = some c) :
    placeBehind text (n + 1) =
      Cursor.placeAfter (placeBehind text n) (text.take n).getLast? c text[n + 1]? := by
  have hplace (p : Position) : p = ⟨p.line, p.column⟩ := rfl
  rw [hplace (placeBehind text (n + 1)), line_placeBehind_succ, column_placeBehind_succ h,
    Cursor.placeAfter]
  by_cases hend : EndsLineAt text n
  · rw [if_pos hend, if_pos hend, if_pos ((endsLine_iff h).mpr hend)]
  · rw [if_neg hend, if_neg hend, if_neg (mt (endsLine_iff h).mp hend)]
    by_cases hc : c = '\r' ∨ c = '\n'
    · rcases hc with rfl | rfl <;> rfl
    · obtain ⟨hr, hn⟩ := not_or.mp hc
      simp [takesColumn, hr, hn]

end Text

/-! The order of places -/

namespace Position

variable {p q r : Position}

theorem before_iff :
    p.before q = true ↔ p.line < q.line ∨ p.line = q.line ∧ p.column < q.column := by
  simp only [before, Bool.or_eq_true, Bool.and_eq_true, decide_eq_true_eq, beq_iff_eq]

theorem before_eq_false_iff :
    p.before q = false ↔ q.line < p.line ∨ p.line = q.line ∧ q.column ≤ p.column := by
  rw [← Bool.not_eq_true, before_iff]
  omega

theorem not_before_self (p : Position) : p.before p = false :=
  before_eq_false_iff.mpr (.inr ⟨rfl, Nat.le_refl _⟩)

theorem not_before_trans (h : q.before p = false) (h' : r.before q = false) :
    r.before p = false := by
  rw [before_eq_false_iff] at *
  omega

theorem before_of_not_before (h : q.before p = false) (h' : q.before r = true) :
    p.before r = true := by
  rw [before_eq_false_iff] at h
  rw [before_iff] at *
  omega

theorem not_before_of_before (h : p.before q = true) : q.before p = false := by
  rw [before_iff] at h
  rw [before_eq_false_iff]
  omega

def right (p : Position) : Position := ⟨p.line, p.column + 1⟩

theorem before_right (p : Position) : p.before p.right = true :=
  before_iff.mpr (.inr ⟨rfl, Nat.lt_succ_self _⟩)

end Position

namespace Cursor

/-- A character is never placed before the one in front of it. -/
theorem not_before_placeAfter (p : Position) (before : Option Char) (c : Char)
    (after : Option Char) : (placeAfter p before c after).before p = false := by
  unfold placeAfter
  split
  · exact Position.before_eq_false_iff.mpr (.inl (Nat.lt_succ_self _))
  · split
    · exact p.not_before_self
    · exact Position.not_before_of_before p.before_right

/-- A character that takes a column is placed behind the one in front of it. -/
theorem before_placeAfter {c : Char} (h : Text.takesColumn c = true) (p : Position)
    (before after : Option Char) : p.before (placeAfter p before c after) = true := by
  simp only [Text.takesColumn, Bool.and_eq_true, bne_iff_ne, ne_eq] at h
  simp only [placeAfter, endsLine, beq_iff_eq, h, Bool.or_eq_true, Bool.and_eq_true, false_and,
    or_self, if_false]
  exact p.before_right

end Cursor

namespace Text

variable {text : List Char} {m n : Nat} {c : Char}

/-- The place of the character behind the first ones, and one column further than the last of them
at the end of the text. -/
def placeAhead (text : List Char) (n : Nat) : Position :=
  if n < text.length then placeBehind text (n + 1) else (placeBehind text n).right

theorem placeAhead_of_lt (h : n < text.length) : placeAhead text n = placeBehind text (n + 1) :=
  if_pos h

/-- Places never go back. -/
theorem not_before_placeBehind (hle : m ≤ n) (hn : n ≤ text.length) :
    (placeBehind text n).before (placeBehind text m) = false := by
  induction hle with
  | refl => exact Position.not_before_self _
  | @step n _ ih =>
    have hnext : text[n]? = some text[n] := List.getElem?_eq_getElem hn
    have hstep : (placeBehind text (n + 1)).before (placeBehind text n) = false := by
      rw [placeBehind_succ hnext]
      exact Cursor.not_before_placeAfter _ _ _ _
    exact Position.not_before_trans (ih (Nat.le_of_lt hn)) hstep

theorem not_before_placeAhead_self (text : List Char) (n : Nat) :
    (placeAhead text n).before (placeBehind text n) = false := by
  unfold placeAhead
  split
  · next hlt => exact not_before_placeBehind (Nat.le_succ n) hlt
  · exact Position.not_before_of_before (Position.before_right _)

/-- No place ahead comes before one from further up in the text. -/
theorem not_before_placeAhead (hle : m ≤ n) (hn : n ≤ text.length) :
    (placeAhead text n).before (placeAhead text m) = false := by
  rcases Nat.eq_or_lt_of_le hle with rfl | hlt
  · exact Position.not_before_self _
  · rw [placeAhead_of_lt (Nat.lt_of_lt_of_le hlt hn)]
    exact Position.not_before_trans (not_before_placeBehind hlt hn)
      (not_before_placeAhead_self text n)

/-- The place of a character that takes a column comes behind all that are further up. -/
theorem before_placeAhead (hlt : m < n) (hc : text[n]? = some c) (htakes : takesColumn c = true) :
    (placeAhead text m).before (placeAhead text n) = true := by
  obtain ⟨hn, -⟩ := List.getElem?_eq_some_iff.mp hc
  rw [placeAhead_of_lt (Nat.lt_trans hlt hn), placeAhead_of_lt hn, placeBehind_succ hc]
  exact Position.before_of_not_before (not_before_placeBehind hlt (Nat.le_of_lt hn))
    (Cursor.before_placeAfter htakes _ _ _)

end Text

/-! Moving a cursor -/

namespace Cursor

inductive Move
  | advance
  | retreat
  | retreatBy (count : Nat)
  | skipWhile (test : Char → Bool)
  | reset

def move (cursor : Cursor) : Move → Cursor
  | .advance => cursor.advance
  | .retreat => cursor.retreat
  | .retreatBy count => cursor.retreatBy count
  | .skipWhile test => cursor.skipWhile test
  | .reset => cursor.reset

def after (cursor : Cursor) (moves : List Move) : Cursor := moves.foldl move cursor

/-- A cursor stands behind the first characters of a text as it does on the way there. -/
structure StandsBehind (text : String) (n : Nat) (cursor : Cursor) : Prop where
  le : n ≤ text.toList.length
  eq : cursor = (ofText text).skip n

variable {text : String} {n : Nat} {cursor : Cursor}

theorem standsBehind_skip (text : String) (n : Nat) :
    StandsBehind text (min n text.toList.length) ((ofText text).skip n) := by
  refine ⟨Nat.min_le_right _ _, ?_⟩
  rw [← List.length_take]
  exact ((ofText text).skip_length_take n).symm

namespace StandsBehind

theorem offset_eq (h : StandsBehind text n cursor) : cursor.offset = n := by
  rw [h.eq, offset_skip]
  show 0 + min n text.toList.length = n
  rw [Nat.zero_add, Nat.min_eq_left h.le]

theorem ahead_eq (h : StandsBehind text n cursor) : cursor.ahead = text.toList.drop n := by
  rw [h.eq, ahead_skip]
  rfl

theorem last?_eq (h : StandsBehind text n cursor) :
    cursor.last? = (text.toList.take n).getLast? := by
  obtain ⟨skipped, hbehind, hchars⟩ := (ofText text).exists_behind_skip n
  have hlast : cursor.last? = (skipped.map (·.1)).head? := by
    rw [last?, h.eq, hbehind, List.head?_map]
    exact congrArg (Option.map _ ∘ List.head?) (List.append_nil skipped)
  rw [hlast, hchars, List.head?_reverse]
  rfl

/-- A cursor behind some characters stands where a step past the last of them leads. -/
theorem exists_previous (h : StandsBehind text (n + 1) cursor) :
    ∃ previous c rest, StandsBehind text n previous ∧ previous.ahead = c :: rest ∧
      cursor = previous.advance := by
  have hprevious : StandsBehind text n ((ofText text).skip n) := ⟨Nat.le_of_succ_le h.le, rfl⟩
  have hahead := hprevious.ahead_eq
  rw [List.drop_eq_getElem_cons h.le] at hahead
  refine ⟨_, _, _, hprevious, hahead, ?_⟩
  rw [h.eq, ← skip_skip, ← advance_eq_skip]

/-! One move -/

theorem skip (h : StandsBehind text n cursor) (count : Nat) :
    StandsBehind text (min (n + count) text.toList.length) (cursor.skip count) := by
  rw [h.eq, skip_skip]
  exact standsBehind_skip text (n + count)

theorem retreat (h : StandsBehind text n cursor) : StandsBehind text (n - 1) cursor.retreat := by
  cases n with
  | zero => exact ⟨h.le, by rw [h.eq]; rfl⟩
  | succ n =>
    obtain ⟨previous, c, rest, hprevious, hahead, rfl⟩ := h.exists_previous
    rwa [retreat_advance hahead]

theorem retreatBy (h : StandsBehind text n cursor) (count : Nat) :
    StandsBehind text (n - count) (cursor.retreatBy count) := by
  induction count generalizing n cursor with
  | zero => exact h
  | succ count ih =>
    rw [Cursor.retreatBy]
    split
    · next hempty =>
      have hzero : n = 0 := by
        rw [← h.offset_eq, offset, List.isEmpty_iff.mp hempty]
        rfl
      rw [hzero, Nat.zero_sub]
      exact hzero ▸ h
    · rw [Nat.add_comm count 1, ← Nat.sub_sub]
      exact ih h.retreat

end StandsBehind

/-- A move leads from characters of a text to characters of it. -/
theorem exists_standsBehind_move (h : StandsBehind text n cursor) (m : Move) :
    ∃ k, StandsBehind text k (cursor.move m) := by
  cases m with
  | advance => exact ⟨_, advance_eq_skip cursor ▸ h.skip 1⟩
  | retreat => exact ⟨_, h.retreat⟩
  | retreatBy count => exact ⟨_, h.retreatBy count⟩
  | skipWhile test => exact ⟨_, h.skip _⟩
  | reset => exact ⟨_, h.retreatBy _⟩

/-! Any number of moves -/

/-- After any moves a cursor stands behind some number of the characters. -/
theorem exists_standsBehind_after (text : String) (moves : List Move) :
    ∃ n, StandsBehind text n ((ofText text).after moves) := by
  have hmoves : ∀ {n : Nat} {cursor : Cursor}, StandsBehind text n cursor →
      ∃ k, StandsBehind text k (cursor.after moves) := by
    induction moves with
    | nil => exact fun h => ⟨_, h⟩
    | cons m rest ih =>
      intro n cursor h
      obtain ⟨k, hk⟩ := exists_standsBehind_move h m
      exact ih hk
  exact hmoves ⟨Nat.zero_le _, rfl⟩

/-! The places of a cursor -/

namespace StandsBehind

theorem peek?_eq (h : StandsBehind text n cursor) : cursor.peek? = text.toList[n]? := by
  rw [peek?, h.ahead_eq, List.head?_drop]

theorem nextPlace_of_place (h : StandsBehind text n cursor)
    (hplace : cursor.place = Text.placeBehind text.toList n) :
    cursor.nextPlace = Text.placeAhead text.toList n := by
  rw [nextPlace, h.ahead_eq]
  cases hc : text.toList[n]? with
  | none =>
    have hend : text.toList.length ≤ n := List.getElem?_eq_none_iff.mp hc
    rw [List.drop_eq_nil_of_le hend, Text.placeAhead, if_neg (Nat.not_lt.mpr hend), hplace]
    rfl
  | some c =>
    obtain ⟨hlt, hget⟩ := List.getElem?_eq_some_iff.mp hc
    rw [List.drop_eq_getElem_cons hlt, hget, Text.placeAhead_of_lt hlt, Text.placeBehind_succ hc,
      ← hplace, ← h.last?_eq, ← List.head?_drop]

/-- The place of a cursor is that of the characters that it stands behind. -/
theorem place_eq (h : StandsBehind text n cursor) :
    cursor.place = Text.placeBehind text.toList n := by
  induction n generalizing cursor with
  | zero =>
    rw [h.eq]
    rfl
  | succ n ih =>
    obtain ⟨previous, c, rest, hprevious, hahead, rfl⟩ := h.exists_previous
    rw [advance_of_ahead hahead]
    show previous.nextPlace = _
    rw [hprevious.nextPlace_of_place (ih hprevious), Text.placeAhead_of_lt h.le]

theorem nextPlace_eq (h : StandsBehind text n cursor) :
    cursor.nextPlace = Text.placeAhead text.toList n :=
  h.nextPlace_of_place h.place_eq

end StandsBehind

/-- However a cursor is moved in a text, it stands somewhere from the front to the end of it, and
its places are those that are counted there: the offset alone decides about them, not the way that
led there. Wherever else the cursor is moved, the next place never comes before one from further up
in the text, and it comes behind them if the next character there takes a column. -/
theorem places_after (text : String) (moves : List Move) :
    let cursor := (ofText text).after moves
    cursor.offset ≤ text.toList.length ∧
    cursor.peek? = text.toList[cursor.offset]? ∧
    cursor.place = Text.placeBehind text.toList cursor.offset ∧
    cursor.nextPlace = Text.placeAhead text.toList cursor.offset ∧
    ∀ more : List Move,
      let other := (ofText text).after more
      (cursor.offset ≤ other.offset → other.nextPlace.before cursor.nextPlace = false) ∧
      (cursor.offset < other.offset → other.peek?.any Text.takesColumn = true →
        cursor.nextPlace.before other.nextPlace = true) := by
  intro cursor
  obtain ⟨n, hcursor⟩ := exists_standsBehind_after text moves
  have hoffset : cursor.offset = n := hcursor.offset_eq
  rw [hoffset]
  refine ⟨hcursor.le, hcursor.peek?_eq, hcursor.place_eq, hcursor.nextPlace_eq, ?order⟩
  case order =>
    intro more other
    obtain ⟨k, hother⟩ := exists_standsBehind_after text more
    have hotherOffset : other.offset = k := hother.offset_eq
    have hplace : cursor.nextPlace = _ := hcursor.nextPlace_eq
    have hotherPlace : other.nextPlace = _ := hother.nextPlace_eq
    have hpeek : other.peek? = _ := hother.peek?_eq
    rw [hotherOffset, hplace, hotherPlace, hpeek]
    refine ⟨fun hle => Text.not_before_placeAhead hle hother.le, fun hlt htakes => ?_⟩
    obtain ⟨c, hc, htakes⟩ := (Option.any_eq_true _ _).mp htakes
    exact Text.before_placeAhead hlt hc htakes

/-- From the end back across the feed of a pair. Its return takes no column of its own, and the
letter behind the pair is the first of the second line. -/
theorem places_after_pair :
    let cursor := (ofText "a\r\nb").after [.skipWhile fun _ => true, .retreatBy 2, .retreat]
    let other := (ofText "a\r\nb").after [.reset, .skipWhile (· != 'b')]
    cursor.offset = 1 ∧ cursor.nextPlace = ⟨1, 1⟩ ∧ other.nextPlace = ⟨2, 1⟩ ∧
      cursor.offset < other.offset ∧ other.peek?.any Text.takesColumn = true ∧
      cursor.nextPlace.before other.nextPlace = true := by
  intro cursor other
  have hbehind : cursor.offset < other.offset := by decide +kernel
  have htakes : other.peek?.any Text.takesColumn = true := by decide +kernel
  have hplaces := places_after "a\r\nb" [.skipWhile fun _ => true, .retreatBy 2, .retreat]
  refine ⟨by decide +kernel, by decide +kernel, by decide +kernel, hbehind, htakes, ?_⟩
  exact (hplaces.2.2.2.2 _).2 hbehind htakes

end Cursor

end Formulary
