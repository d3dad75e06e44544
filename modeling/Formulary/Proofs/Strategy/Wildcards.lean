import Formulary.Proofs.Text.Searching
import Formulary.Strategy.Lenient
import Formulary.Strategy.Strict

/-!
# Wildcard patterns describe whole texts

The regular expression of a pattern writes an anchor, an item for each character inside a group
whose points take line breaks, and another anchor. Where it can be prepared, a documented engine
therefore finds the texts that the pattern describes and no others, and both strategies answer so.
-/

namespace Formulary.Text.Wildcard

open Regex

variable {engine : Engine} {p : List Wildcard} {t : List Char}

def item : Wildcard → Regex.Item
  | run => ⟨.point, true⟩
  | one => ⟨.point, false⟩
  | exactly c => ⟨.literal c, false⟩

def tail (p : List Wildcard) : List Piece := p.map (fun w => .item true w.item) ++ [.finish]

def pieces (p : List Wildcard) : List Piece := .start :: tail p

/-! How patterns are written -/

theorem literal_of_literals {c : Char} {word : List Char} (h : Literals [c] word) :
    Literal c word := by
  cases h with
  | cons first others =>
    cases others
    rwa [List.append_nil]

/-- The expression of a pattern writes the items of the pattern. -/
theorem writes_tail (hengine : engine.Documented) (cs : List Char) :
    Writes true (tail (cs.map ofChar))
      (cs.flatMap (fun c => (written engine c).toList) ++ [')', '$']) := by
  induction cs with
  | nil => exact .leave (.finish .nil)
  | cons c cs ih =>
    rw [List.flatMap_cons, List.append_assoc]
    by_cases hrun : c = '%'
    · subst hrun
      have hword : (written engine '%').toList = ['.', '*'] := by rw [written, if_pos rfl]; rfl
      rw [hword]
      exact .repeated .point ih
    · by_cases hone : c = '_'
      · subst hone
        have hword : (written engine '_').toList = ['.'] := by
          rw [written, if_neg hrun, if_pos rfl]
          rfl
        rw [hword]
        exact .once .point ih
      · have hliteral : Literal c (engine.escape (String.singleton c)).toList :=
          literal_of_literals (by simpa using hengine.escape (String.singleton c))
        have hwritten : written engine c = engine.escape (String.singleton c) := by
          rw [written, if_neg hrun, if_neg hone]
        have hof : ofChar c = .exactly c := by rw [ofChar, if_neg hrun, if_neg hone]
        rw [hwritten, List.map_cons, hof]
        exact .once (.literal hliteral) ih

theorem toList_foldl_written (cs : List Char) (start : String) :
    (cs.foldl (fun expression c => expression ++ written engine c) start).toList =
      start.toList ++ cs.flatMap fun c => (written engine c).toList := by
  induction cs generalizing start with
  | nil => simp
  | cons c cs ih => simp [ih]

/-- The regular expression of a pattern writes the pieces of the pattern. -/
theorem writes_expression (hengine : engine.Documented) (text : String) :
    Writes false (pieces (pattern text)) (expression engine text).toList := by
  have htail := writes_tail hengine text.toList
  rw [expression, String.toList_append, toList_foldl_written, List.append_assoc]
  exact .start (.enter htail)

/-! What patterns describe -/

/-- The first wildcard takes what its item takes. -/
theorem matches_cons_iff {w : Wildcard} : Matches (w :: p) t ↔
    ∃ taken rest, t = taken ++ rest ∧ w.item.Takes true taken ∧ Matches p rest := by
  constructor
  · intro h
    cases h with
    | run skipped h => exact ⟨skipped, _, rfl, fun _ _ => rfl, h⟩
    | one c h => exact ⟨[c], _, rfl, ⟨c, rfl, rfl⟩, h⟩
    | exactly c h => exact ⟨[c], _, rfl, ⟨c, rfl, beq_self_eq_true c⟩, h⟩
  · rintro ⟨taken, rest, rfl, htakes, h⟩
    cases w with
    | run => exact .run taken h
    | one =>
      obtain ⟨c, rfl, -⟩ := htakes
      exact .one c h
    | exactly c =>
      obtain ⟨d, rfl, heq⟩ := htakes
      obtain rfl := beq_iff_eq.mp heq
      exact .exactly d h

/-- The items of a pattern match what the pattern describes. -/
theorem matchesAt_tail_iff (atStart : Bool) : MatchesAt (tail p) atStart t ↔ Matches p t := by
  induction p generalizing atStart t with
  | nil =>
    show MatchesAt [.finish] atStart t ↔ _
    rw [matchesAt_finish_iff]
    constructor
    · rintro ⟨rfl, -⟩
      exact .nil
    · rintro ⟨⟩
      exact ⟨rfl, .nil atStart []⟩
  | cons w p ih =>
    show MatchesAt (.item true w.item :: tail p) atStart t ↔ _
    simp only [matchesAt_item_iff, matches_cons_iff, ih]

/-- The anchors tie the pieces of a pattern to the whole text. -/
theorem found_pieces_iff : Found (pieces p) t ↔ Matches p t := by
  constructor
  · rintro ⟨before, ahead, rfl, hmatches⟩
    obtain ⟨hstart, hmatches⟩ := matchesAt_start_iff.mp hmatches
    obtain rfl := List.isEmpty_iff.mp hstart
    exact (matchesAt_tail_iff _).mp hmatches
  · intro h
    exact ⟨[], t, rfl, matchesAt_start_iff.mpr ⟨rfl, (matchesAt_tail_iff _).mpr h⟩⟩

/-! The limit -/

/-- The engine of the library prepares every pattern that fits into its limit. -/
theorem exists_prepared (text : String) (h : fits (pieces (pattern text)) = true) :
    ∃ search, library.prepare (expression library text) = .ok search := by
  have hmeasured : (tail (pattern text)).all Piece.isMeasured = true := by
    simp [tail, Piece.isMeasured]
  have hparse := parse_of_writes (writes_expression documented_library text)
  exact ⟨_, prepare_of_parse hparse hmeasured h⟩

theorem memory_append (any : Nat) (front back : List Piece) :
    memory any (front ++ back) = memory any front + memory any back := by
  induction front with
  | nil => simp [memory]
  | cons piece front ih => simp [memory, ih, Nat.add_assoc]

/-- The memory of a pattern of one wildcard over and over. -/
theorem memory_pieces_replicate (any n : Nat) (w : Wildcard) :
    memory any (pieces (List.replicate n w)) =
      n * (Piece.item true w.item).bytes any + 2 * stateBytes := by
  induction n with
  | zero => rw [Nat.zero_mul]; rfl
  | succ n ih =>
    rw [pieces, tail, memory, memory_append] at ih ⊢
    rw [List.replicate_succ, List.map_cons, memory, Nat.succ_mul]
    omega

example : fits (pieces (List.replicate 10877 one)) = true := by
  rw [fits, memory_pieces_replicate, memory_pieces_replicate]; decide
example : fits (pieces (List.replicate 10878 one)) = false := by
  rw [fits, memory_pieces_replicate, memory_pieces_replicate]; decide
example : fits (pieces (List.replicate 10443 run)) = true := by
  rw [fits, memory_pieces_replicate, memory_pieces_replicate]; decide
example : fits (pieces (List.replicate 10444 run)) = false := by
  rw [fits, memory_pieces_replicate, memory_pieces_replicate]; decide

/-! Answers -/

/-- Where an engine prepares the expression of a pattern, there is an answer, and it says whether
the pattern describes the text. -/
theorem like_of_prepared (hengine : engine.Documented) (text : String) {pattern : String}
    {search : String → Bool} (h : engine.prepare (expression engine pattern) = .ok search) :
    ∃ answer, like engine text pattern = .ok answer ∧
      (answer = true ↔ Matches (Wildcard.pattern pattern) text.toList) := by
  refine ⟨search text, by rw [like, h]; rfl, ?_⟩
  rw [hengine.search _ _ _ (writes_expression hengine pattern) h, found_pieces_iff]

end Formulary.Text.Wildcard

namespace Formulary.Strategy

open Text

theorem like_strings {strategy : Strategy} (h : strategy ∈ [lenient, strict])
    (text pattern : String) : strategy.like (.string text) (.string pattern) =
      ((Wildcard.like Regex.library text pattern).mapError Coercion.refusal).map .boolean := by
  simp only [List.mem_cons, List.not_mem_nil, or_false] at h
  rcases h with rfl | rfl <;> rfl

/-- A wildcard pattern describes a text as a whole. With any engine that does what engines are
documented to do, the answer is whether the pattern matches, wherever its expression can be
prepared. Both strategies give that answer for the patterns within the limit. -/
theorem like_matches (text pattern : String) :
    (∀ engine : Regex.Engine, engine.Documented →
      ∀ search, engine.prepare (Wildcard.expression engine pattern) = .ok search →
        ∃ answer, Wildcard.like engine text pattern = .ok answer ∧
          (answer = true ↔ Wildcard.Matches (Wildcard.pattern pattern) text.toList)) ∧
    (Regex.fits (Wildcard.pieces (Wildcard.pattern pattern)) = true →
      ∀ strategy ∈ [lenient, strict],
        ∃ answer, strategy.like (.string text) (.string pattern) = .ok (.boolean answer) ∧
          (answer = true ↔ Wildcard.Matches (Wildcard.pattern pattern) text.toList)) := by
  constructor
  · intro engine hengine search hprepared
    exact Wildcard.like_of_prepared hengine text hprepared
  · intro hfits strategy hstrategy
    obtain ⟨search, hprepared⟩ := Wildcard.exists_prepared pattern hfits
    obtain ⟨answer, hlike, hanswer⟩ :=
      Wildcard.like_of_prepared Regex.documented_library text hprepared
    refine ⟨answer, ?_, hanswer⟩
    rw [like_strings hstrategy, hlike]
    rfl

/-- A wildcard takes a line break, and brackets stand for themselves. -/
theorem like_matches_line_break :
    (∃ answer, Wildcard.like Regex.library "a\n[b]" "a_[%]" = .ok answer ∧
      (answer = true ↔ Wildcard.Matches (Wildcard.pattern "a_[%]") "a\n[b]".toList)) ∧
    strict.like (.string "a\n[b]") (.string "a_[%]") = .ok (.boolean true) := by
  have hfits : Regex.fits (Wildcard.pieces (Wildcard.pattern "a_[%]")) = true := by decide
  have hboth := like_matches "a\n[b]" "a_[%]"
  obtain ⟨search, hprepared⟩ := Wildcard.exists_prepared "a_[%]" hfits
  refine ⟨hboth.1 Regex.library Regex.documented_library search hprepared, ?_⟩
  obtain ⟨answer, hlike, hanswer⟩ := hboth.2 hfits strict (by simp)
  have hmatches : Wildcard.Matches (Wildcard.pattern "a_[%]") "a\n[b]".toList :=
    .exactly 'a' (.one '\n' (.exactly '[' (.run ['b'] (.exactly ']' .nil))))
  rw [hlike, hanswer.mpr hmatches]

end Formulary.Strategy
