import Formulary.Text.Regex

/-!
# The engine does what engines are documented to do

What stands in front of a text decides step by step whether an expression matches at its beginning:
an anchor looks at the place, and an item takes the next character or, if it is repeated, may take
none. The rows of the search tabulate these decisions for all ends of an expression, from the end of
a text to its start. Every way to write an expression is read back as its pieces.
-/

namespace Formulary.Text.Regex

variable {lines atStart : Bool} {item : Item} {pieces : List Piece} {c : Char} {rest : List Char}

/-! One piece at a time -/

theorem matchesAt_start_iff {ahead : List Char} :
    MatchesAt (.start :: pieces) atStart ahead ↔
      atStart = true ∧ MatchesAt pieces atStart ahead := by
  constructor
  · rintro ⟨others⟩
    exact ⟨rfl, ‹_›⟩
  · rintro ⟨rfl, others⟩
    exact .start others

theorem matchesAt_finish_iff {ahead : List Char} :
    MatchesAt (.finish :: pieces) atStart ahead ↔ ahead = [] ∧ MatchesAt pieces atStart ahead := by
  constructor
  · rintro ⟨others⟩
    exact ⟨rfl, ‹_›⟩
  · rintro ⟨rfl, others⟩
    exact .finish others

theorem matchesAt_item_iff {ahead : List Char} :
    MatchesAt (.item lines item :: pieces) atStart ahead ↔ ∃ taken others, ahead = taken ++ others ∧
      item.Takes lines taken ∧ MatchesAt pieces (atStart && taken.isEmpty) others := by
  constructor
  · rintro ⟨⟩
    exact ⟨_, _, rfl, ‹_›, ‹_›⟩
  · rintro ⟨taken, others, rfl, first, hothers⟩
    exact .item first hothers

/-- An item that is not repeated takes the next character. -/
theorem matchesAt_once_iff (hitem : item.repeated = false) :
    MatchesAt (.item lines item :: pieces) atStart (c :: rest) ↔
      item.one.takes lines c = true ∧ MatchesAt pieces false rest := by
  rw [matchesAt_item_iff]
  simp only [Item.Takes, hitem, Bool.false_eq_true, if_false]
  constructor
  · rintro ⟨_, others, heq, ⟨d, rfl, htakes⟩, hothers⟩
    cases heq
    rw [List.isEmpty_cons, Bool.and_false] at hothers
    exact ⟨htakes, hothers⟩
  · rintro ⟨htakes, hothers⟩
    refine ⟨[c], rest, rfl, ⟨c, rfl, htakes⟩, ?_⟩
    rwa [List.isEmpty_cons, Bool.and_false]

theorem not_matchesAt_once_nil (hitem : item.repeated = false) :
    ¬ MatchesAt (.item lines item :: pieces) atStart [] := by
  rw [matchesAt_item_iff]
  simp only [Item.Takes, hitem, Bool.false_eq_true, if_false]
  rintro ⟨_, others, heq, ⟨d, rfl, -⟩, -⟩
  cases heq

/-- An item that is repeated takes nothing, or the next character and then more of them. -/
theorem matchesAt_repeated_iff (hitem : item.repeated = true) :
    MatchesAt (.item lines item :: pieces) atStart (c :: rest) ↔
      MatchesAt pieces atStart (c :: rest) ∨
        (item.one.takes lines c = true ∧ MatchesAt (.item lines item :: pieces) false rest) := by
  rw [matchesAt_item_iff, matchesAt_item_iff]
  simp only [Item.Takes, hitem, if_true]
  constructor
  · rintro ⟨taken, others, heq, htakes, hothers⟩
    cases taken with
    | nil =>
      rw [List.isEmpty_nil, Bool.and_true] at hothers
      exact .inl (heq ▸ hothers)
    | cons d more =>
      cases heq
      obtain ⟨hd, hmore⟩ := List.forall_mem_cons.mp htakes
      refine .inr ⟨hd, more, others, rfl, hmore, ?_⟩
      rwa [List.isEmpty_cons, Bool.and_false] at hothers
  · rintro (hothers | ⟨hc, taken, others, rfl, htakes, hothers⟩)
    · refine ⟨[], c :: rest, rfl, List.forall_mem_nil _, ?_⟩
      rwa [List.isEmpty_nil, Bool.and_true]
    · refine ⟨c :: taken, others, rfl, List.forall_mem_cons.mpr ⟨hc, htakes⟩, ?_⟩
      rwa [List.isEmpty_cons, Bool.and_false]

theorem matchesAt_repeated_nil_iff (hitem : item.repeated = true) :
    MatchesAt (.item lines item :: pieces) atStart [] ↔ MatchesAt pieces atStart [] := by
  rw [matchesAt_item_iff]
  simp only [Item.Takes, hitem, if_true]
  constructor
  · rintro ⟨taken, others, heq, -, hothers⟩
    obtain ⟨rfl, rfl⟩ := List.append_eq_nil_iff.mp heq.symm
    rwa [List.isEmpty_nil, Bool.and_true] at hothers
  · intro hothers
    refine ⟨[], [], rfl, List.forall_mem_nil _, ?_⟩
    rwa [List.isEmpty_nil, Bool.and_true]

/-! Rows -/

/-- A row holds, for every end of an expression, the decision whether it matches at a place. -/
inductive Decides (atStart : Bool) (ahead : List Char) : List Piece → List Bool → Prop
  | nil : Decides atStart ahead [] [true]
  | cons {piece pieces answer answers}
    (first : answer = true ↔ MatchesAt (piece :: pieces) atStart ahead)
    (others : Decides atStart ahead pieces answers) :
    Decides atStart ahead (piece :: pieces) (answer :: answers)

theorem Decides.headD {ahead : List Char} {row : List Bool} (h : Decides atStart ahead pieces row) :
    row.headD false = true ↔ MatchesAt pieces atStart ahead := by
  cases h with
  | nil => exact ⟨fun _ => .nil atStart ahead, fun _ => rfl⟩
  | cons first others => exact first

/-- The row at the end of a text decides there. -/
theorem decides_endRow (atStart : Bool) (pieces : List Piece) :
    Decides atStart [] pieces (endRow atStart pieces) := by
  induction pieces with
  | nil => exact .nil
  | cons piece pieces ih =>
    refine .cons ?_ ih
    cases piece with
    | start => rw [matchesAt_start_iff, ← ih.headD, Bool.and_eq_true]
    | finish => simp only [matchesAt_finish_iff, ← ih.headD, true_and]
    | item lines item =>
      cases hitem : item.repeated with
      | false => simp [not_matchesAt_once_nil hitem, hitem]
      | true => rw [matchesAt_repeated_nil_iff hitem, ← ih.headD]; simp [hitem]

/-- The row in front of one more character decides there. -/
theorem Decides.stepRow {answers : List Bool} (h : Decides false rest pieces answers)
    (atStart : Bool) (c : Char) :
    Decides atStart (c :: rest) pieces (stepRow atStart c pieces answers) := by
  induction h with
  | nil => exact .nil
  | @cons piece pieces answer answers first others ih =>
    refine .cons ?_ ih
    cases piece with
    | start => rw [matchesAt_start_iff, ← ih.headD, Bool.and_eq_true]
    | finish => simp [matchesAt_finish_iff]
    | item lines item =>
      cases hitem : item.repeated with
      | false => rw [matchesAt_once_iff hitem, ← others.headD]; simp [hitem]
      | true => rw [matchesAt_repeated_iff hitem, ← ih.headD, ← first]; simp [hitem]

/-- The expression matches somewhere in a text, or in the rest of one. -/
def FoundFrom (atStart : Bool) (pieces : List Piece) (text : List Char) : Prop :=
  ∃ before ahead, text = before ++ ahead ∧ MatchesAt pieces (atStart && before.isEmpty) ahead

theorem foundFrom_nil_iff : FoundFrom atStart pieces [] ↔ MatchesAt pieces atStart [] := by
  constructor
  · rintro ⟨before, ahead, heq, hmatches⟩
    obtain ⟨rfl, rfl⟩ := List.append_eq_nil_iff.mp heq.symm
    rwa [List.isEmpty_nil, Bool.and_true] at hmatches
  · intro hmatches
    refine ⟨[], [], rfl, ?_⟩
    rwa [List.isEmpty_nil, Bool.and_true]

/-- An expression is found at the start of a text or in the rest of it. -/
theorem foundFrom_cons_iff : FoundFrom atStart pieces (c :: rest) ↔
    FoundFrom false pieces rest ∨ MatchesAt pieces atStart (c :: rest) := by
  constructor
  · rintro ⟨before, ahead, heq, hmatches⟩
    cases before with
    | nil =>
      rw [List.isEmpty_nil, Bool.and_true] at hmatches
      exact .inr (heq ▸ hmatches)
    | cons d before =>
      rw [List.isEmpty_cons, Bool.and_false] at hmatches
      exact .inl ⟨before, ahead, (List.cons.inj heq).2, hmatches⟩
  · rintro (⟨before, ahead, rfl, hmatches⟩ | hmatches)
    · refine ⟨c :: before, ahead, rfl, ?_⟩
      rwa [List.isEmpty_cons, Bool.and_false]
    · refine ⟨[], c :: rest, rfl, ?_⟩
      rwa [List.isEmpty_nil, Bool.and_true]

theorem decides_behind (pieces : List Piece) (rest : List Char) :
    Decides false rest pieces (behind pieces rest).1 ∧
      ((behind pieces rest).2 = true ↔ FoundFrom false pieces rest) := by
  induction rest with
  | nil =>
    have hrow := decides_endRow false pieces
    exact ⟨hrow, hrow.headD.trans foundFrom_nil_iff.symm⟩
  | cons c rest ih =>
    have hrow := ih.1.stepRow false c
    refine ⟨hrow, ?_⟩
    rw [foundFrom_cons_iff, ← ih.2, ← hrow.headD, ← Bool.or_eq_true]
    rfl

/-- A search finds what the expression describes. -/
theorem search_iff (pieces : List Piece) (text : List Char) :
    search pieces text = true ↔ Found pieces text := by
  show search pieces text = true ↔ FoundFrom true pieces text
  cases text with
  | nil => rw [search, foundFrom_nil_iff, (decides_endRow true pieces).headD]
  | cons c rest =>
    obtain ⟨hrow, hfound⟩ := decides_behind pieces rest
    rw [foundFrom_cons_iff, ← hfound, ← (hrow.stepRow true c).headD, ← Bool.or_eq_true]
    rfl

/-! Reading expressions -/

theorem literal_escapeChar (c : Char) : Literal c (escapeChar c) := by
  unfold escapeChar
  split
  · next h => exact .escaped h
  · next h => exact .plain (Bool.eq_false_iff.mpr h)

theorem literals_escape (cs : List Char) : Literals cs (cs.flatMap escapeChar) := by
  induction cs with
  | nil => exact .nil
  | cons c cs ih => exact .cons (literal_escapeChar c) ih

theorem ne_of_plain {c d : Char} (hc : isMeta c = false) (hd : isMeta d = true) : c ≠ d := by
  rintro rfl
  cases hc.symm.trans hd

/-- What stands for one character is read back, whatever follows. -/
theorem parseOne_append {one : One} {word : List Char} (h : One.Written one word)
    (rest : List Char) : parseOne (word ++ rest) = some (one, rest) := by
  cases h with
  | point => rfl
  | literal hliteral =>
    cases hliteral with
    | escaped hmeta => simp [parseOne, hmeta]
    | plain hplain =>
      have hpoint := ne_of_plain hplain (show isMeta '.' = true from rfl)
      have hslash := ne_of_plain hplain (show isMeta '\\' = true from rfl)
      simp [parseOne, hpoint, hslash, hplain]

/-- What stands for one character begins with no mark that stands for something else. -/
theorem One.Written.exists_cons {one : One} {word : List Char} (h : One.Written one word) :
    ∃ c more, word = c :: more ∧ c ≠ '^' ∧ c ≠ '$' ∧ c ≠ ')' ∧ c ≠ '(' ∧ c ≠ '*' := by
  cases h with
  | point => exact ⟨_, _, rfl, by decide⟩
  | literal hliteral =>
    cases hliteral with
    | escaped hmeta => exact ⟨_, _, rfl, by decide⟩
    | plain hplain =>
      exact ⟨_, _, rfl, ne_of_plain hplain rfl, ne_of_plain hplain rfl, ne_of_plain hplain rfl,
        ne_of_plain hplain rfl, ne_of_plain hplain rfl⟩

/-- No repetition mark comes first. -/
theorem Writes.head?_ne {words : List Char} (h : Writes lines pieces words) :
    words.head? ≠ some '*' := by
  cases h with
  | nil | start others | finish others | enter others | leave others => simp
  | once first others | repeated first others =>
    obtain ⟨c, more, rfl, -, -, -, -, hc⟩ := first.exists_cons
    simpa using hc

/-- What is written for one character is read as that, and a star behind it as a repetition. -/
theorem parse_append {one : One} {word : List Char} (h : One.Written one word)
    (rest : List Char) : parse lines (word ++ rest) =
      match rest with
      | '*' :: rest => (parse lines rest).map (.item lines ⟨one, true⟩ :: ·)
      | rest => (parse lines rest).map (.item lines ⟨one, false⟩ :: ·) := by
  have hone := parseOne_append h rest
  obtain ⟨c, more, rfl, hstart, hfinish, hleave, henter, -⟩ := h.exists_cons
  rw [List.cons_append] at hone ⊢
  rw [parse.eq_def]
  simp only [hstart, hfinish, hleave, henter, if_false]
  split
  · next hnone => cases hone.symm.trans hnone
  · next hsome =>
    cases hone.symm.trans hsome
    rfl
  · next hother hsome =>
    cases hone.symm.trans hsome
    split
    · exact (hother _ rfl).elim
    · rfl

/-- The pieces that are written are read back. -/
theorem parse_of_writes {words : List Char} (h : Writes lines pieces words) :
    parse lines words = some pieces := by
  induction h with
  | nil => unfold parse; rfl
  | start others ih => unfold parse; simp [ih]
  | finish others ih => unfold parse; simp [ih]
  | enter others ih => unfold parse; simp [ih]
  | leave others ih => unfold parse; simp [ih]
  | @once lines one word pieces words first others ih =>
    have hhead := others.head?_ne
    rw [parse_append first]
    split
    · exact absurd rfl hhead
    · rw [ih]
      rfl
  | repeated first others ih =>
    simp only [parse_append first, ih, Option.map_some]

/-- What the engine of the library prepares, it searches for. -/
theorem prepare_of_parse {expression : String}
    (hparse : parse false expression.toList = some (.start :: pieces))
    (hmeasured : pieces.all Piece.isMeasured = true) (hfits : fits (.start :: pieces) = true) :
    library.prepare expression = .ok fun text => search (.start :: pieces) text.toList := by
  rw [library]
  dsimp only
  rw [hparse]
  simp [hmeasured, hfits]

/-- The engine of the library does what an engine is documented to do. -/
theorem documented_library : library.Documented where
  escape text := by
    rw [library, String.toList_ofList]
    exact literals_escape text.toList
  search expression pieces found hwrites hprepare text := by
    rw [library] at hprepare
    dsimp only at hprepare
    rw [parse_of_writes hwrites] at hprepare
    split at hprepare
    · next heq =>
      cases heq
      split at hprepare
      · cases hprepare
      · split at hprepare
        · cases hprepare
          exact search_iff _ _
        · cases hprepare
    · cases hprepare

end Formulary.Text.Regex
