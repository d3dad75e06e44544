import Formulary.Library.Time
import Formulary.Proofs.Strategy.Times
import Formulary.Proofs.Strategy.Whole
import Formulary.Proofs.Time.Milliseconds
import Mathlib.Data.List.Forall2

/-!
# Durations from their parts

A duration is computed from its largest part to its smallest: each step takes the total in smaller
units and adds the part that is counted in them. Both halves of a step have to stay within 64 bits,
so what comes out is the exact number of milliseconds, or nothing as soon as one of the numbers on
the way is too large. The least number of 64 bits is no duration.
-/

namespace Formulary

namespace Library

variable {s : Strategy} {args : List Value} {ns : List Int}

/-! Whole numbers as arguments -/

theorem exists_long_of_whole (hs : s = .lenient ∨ s = .strict) {v : Value} {k : Kind} {n : Int}
    (hv : v.Whole k n) : ∃ w, s.convert v .long = .ok w ∧ w.int? = some n := by
  rcases hv.integer_or_long with ⟨x, rfl, -, rfl⟩ | ⟨x, rfl, -, rfl⟩
  · refine ⟨.long (widen x), ?_, congrArg some (toInt_widen x)⟩
    rcases hs with rfl | rfl <;> rfl
  · refine ⟨.long x, ?_, rfl⟩
    rcases hs with rfl | rfl <;> rfl

theorem holds_long_of_whole {v : Value} {k : Kind} {n : Int} (hv : v.Whole k n) :
    Kind.long.Holds n := by
  have hholds := hv.holds
  rcases hv.integer_or_long with ⟨-, -, rfl, -⟩ | ⟨-, -, rfl, -⟩
  · simp only [Kind.Holds, Kind.limit] at hholds ⊢
    omega
  · exact hholds

def AreWhole (args : List Value) (ns : List Int) : Prop :=
  List.Forall₂ (fun v n => ∃ k, v.Whole k n) args ns

/-- A whole argument is read as the number that it is. -/
theorem AreWhole.whole (h : AreWhole args ns) (hs : s = .lenient ∨ s = .strict) (i : Nat)
    (other : Int) : whole s args i other = .ok (ns.getD i other) := by
  induction h generalizing i with
  | nil => rfl
  | @cons v n args ns hv _ ih =>
    cases i with
    | zero =>
      obtain ⟨k, hv⟩ := hv
      obtain ⟨w, hw, hn⟩ := exists_long_of_whole hs hv
      change (s.convert v .long).map (fun n => n.int?.getD other) = _
      rw [hw]
      exact congrArg Except.ok (congrArg (Option.getD · other) hn)
    | succ i => exact ih i

/-! The total -/

/-- The numbers that a total goes through: in smaller units, of which `scale` make one, and with the
part in these units, again and again. -/
def passed : Int → List (Int × Int) → List Int
  | _, [] => []
  | total, (scale, part) :: rest =>
    total * scale :: (total * scale + part) :: passed (total * scale + part) rest

theorem map_toInt_int64? (n : Int) :
    (int64? n).map Int64.toInt = if Kind.long.Holds n then some n else none := by
  split
  case isTrue hholds =>
    obtain ⟨x, hx⟩ := Option.isSome_iff_exists.mp (Kind.isSome_int64?_iff.mpr hholds)
    rw [hx, Option.map_some, toInt_of_int64? hx]
  case isFalse hnot =>
    rw [Option.not_isSome_iff_eq_none.mp (mt Kind.isSome_int64?_iff.mp hnot)]
    rfl

/-- Both steps of a refinement have to stay within 64 bits. -/
theorem refine_eq (total scale part : Int) : refine total scale part =
    if Kind.long.Holds (total * scale) ∧ Kind.long.Holds (total * scale + part) then
      some (total * scale + part)
    else none := by
  have hsteps : refine total scale part = ((int64? (total * scale)).map Int64.toInt).bind
      fun scaled => (int64? (scaled + part)).map Int64.toInt := by
    unfold refine
    cases int64? (total * scale) with
    | none => rfl
    | some scaled =>
      change (int64? (scaled.toInt + part)).bind _ = (int64? (scaled.toInt + part)).map _
      cases int64? (scaled.toInt + part) <;> rfl
  rw [hsteps, map_toInt_int64?]
  by_cases hscaled : Kind.long.Holds (total * scale)
  · rw [if_pos hscaled, Option.bind_some, map_toInt_int64?]
    exact if_congr (and_iff_right hscaled).symm rfl rfl
  · rw [if_neg hscaled, if_neg fun h => hscaled h.1]
    rfl

/-- A total has a value exactly if all numbers that it goes through are of 64 bits. -/
theorem foldlM_refine (parts : List (Int × Int)) (total : Int) :
    parts.foldlM (fun total part => refine total part.1 part.2) total =
      if ∀ n ∈ passed total parts, Kind.long.Holds n then
        some (parts.foldl (fun total part => total * part.1 + part.2) total)
      else none := by
  induction parts generalizing total with
  | nil => exact (if_pos nofun).symm
  | cons part rest ih =>
    rw [List.foldlM_cons, refine_eq]
    simp only [List.foldl_cons, passed, List.forall_mem_cons]
    by_cases hstep : Kind.long.Holds (total * part.1) ∧ Kind.long.Holds (total * part.1 + part.2)
    · rw [if_pos hstep]
      exact (ih _).trans (if_congr ⟨fun h => ⟨hstep.1, hstep.2, h⟩, fun h => h.2.2⟩ rfl rfl)
    · rw [if_neg hstep, if_neg fun h => hstep ⟨h.1, h.2.1⟩]
      rfl

/-! The duration -/

theorem yieldsIf_spanOf (millis : Int) :
    YieldsIf (Kind.long.Holds millis ∧ millis ≠ -Kind.long.limit) (·.Lasts (millis * 1000000))
      (refuse "TimeSpan" .spanOutOfRange) (spanOf millis) := by
  have hspan : spanOf millis = (Span.ofMillis? millis).elim
      (.error (refuse "TimeSpan" .spanOutOfRange)) fun d => .ok (.duration d) := by
    unfold spanOf
    cases Span.ofMillis? millis <;> rfl
  rw [hspan]
  refine Value.yieldsIf_isSome (Span.isSome_ofMillis?_iff.trans ?_) fun d hd =>
    ⟨d, rfl, Span.nanos_of_ofNanos? hd⟩
  simp only [Kind.Holds, Kind.limit]
  omega

/-- The hours of a day, the minutes of an hour, the seconds of a minute and the milliseconds of a
second, each with the part that is counted in them. -/
def smallerParts (hours minutes seconds millis : Int) : List (Int × Int) :=
  [(24, hours), (60, minutes), (60, seconds), (1000, millis)]

theorem totalMillis_eq (days hours minutes seconds millis : Int) :
    totalMillis days hours minutes seconds millis =
      if ∀ n ∈ passed days (smallerParts hours minutes seconds millis), Kind.long.Holds n then
        some ((((days * 24 + hours) * 60 + minutes) * 60 + seconds) * 1000 + millis)
      else none := by
  have hfold : totalMillis days hours minutes seconds millis =
      (smallerParts hours minutes seconds millis).foldlM
        (fun total part => refine total part.1 part.2) days := by
    simp [totalMillis, smallerParts]
  exact hfold.trans (foldlM_refine _ _)

theorem yieldsIf_total (days hours minutes seconds millis : Int) :
    let total := (((days * 24 + hours) * 60 + minutes) * 60 + seconds) * 1000 + millis
    YieldsIf ((∀ n ∈ passed days (smallerParts hours minutes seconds millis), Kind.long.Holds n) ∧
        total ≠ -Kind.long.limit)
      (·.Lasts (total * 1000000)) (refuse "TimeSpan" .spanOutOfRange)
      (match totalMillis days hours minutes seconds millis with
        | some total => spanOf total
        | none => .error (refuse "TimeSpan" .spanOutOfRange)) := by
  intro total
  rw [totalMillis_eq]
  by_cases hfits : ∀ n ∈ passed days (smallerParts hours minutes seconds millis),
      Kind.long.Holds n
  · have htotal : Kind.long.Holds total := hfits total (by simp [passed, smallerParts, total])
    rw [if_pos hfits]
    exact (yieldsIf_spanOf total).congr
      ⟨fun h => ⟨hfits, h.2⟩, fun h => ⟨htotal, h.2⟩⟩
  · rw [if_neg hfits]
    exact ⟨fun h => absurd h.1 hfits, fun _ => rfl⟩

/-- A duration of whole numbers is exact or refused, under both strategies. A single number counts
milliseconds. Three to five numbers count days, hours, minutes, seconds and milliseconds, of which
the last two may be left out. Milliseconds that are the least number of 64 bits are refused, and so
is every duration on the way to which a number leaves the 64 bits. -/
theorem spans_exact (hs : s = .lenient ∨ s = .strict) (h : AreWhole args ns) :
    (∀ millis, ns = [millis] →
      YieldsIf (millis ≠ -Kind.long.limit) (·.Lasts (millis * 1000000))
        (refuse "TimeSpan" .spanOutOfRange) (timeSpan.body args s)) ∧
    ∀ days hours minutes rest, ns = days :: hours :: minutes :: rest → rest.length ≤ 2 →
      let seconds := rest.getD 0 0
      let millis := rest.getD 1 0
      let total := (((days * 24 + hours) * 60 + minutes) * 60 + seconds) * 1000 + millis
      YieldsIf ((∀ n ∈ passed days (smallerParts hours minutes seconds millis),
          Kind.long.Holds n) ∧ total ≠ -Kind.long.limit)
        (·.Lasts (total * 1000000)) (refuse "TimeSpan" .spanOutOfRange) (timeSpan.body args s) := by
  have hlength : args.length = ns.length := h.length_eq
  refine ⟨?one, ?several⟩
  case one =>
    rintro millis rfl
    have hholds : Kind.long.Holds millis := by
      obtain ⟨v, -, ⟨k, hv⟩, -⟩ := List.forall₂_cons_right_iff.mp h
      exact holds_long_of_whole hv
    have hbody : timeSpan.body args s = spanOf millis := by
      have hadmits : timeSpan.arity.admits args.length = true := by rw [hlength]; rfl
      rw [Builtin.body, if_pos hadmits]
      change (if args.length = 1 then (whole s args 0 0).bind spanOf else _) = _
      rw [if_pos (by simpa using hlength), h.whole hs]
      rfl
    rw [hbody]
    exact (yieldsIf_spanOf millis).congr (and_iff_right hholds)
  case several =>
    rintro days hours minutes rest rfl hrest
    have hadmits : timeSpan.arity.admits args.length = true := by
      obtain hcount | hcount | hcount : rest.length = 0 ∨ rest.length = 1 ∨ rest.length = 2 := by
        omega
      all_goals
        rw [hlength, List.length_cons, List.length_cons, List.length_cons, hcount]
        rfl
    have hseveral : args.length ≠ 1 := by
      rw [hlength]
      simp
    rw [Builtin.body, if_pos hadmits]
    dsimp only [timeSpan]
    rw [if_neg hseveral]
    simp only [h.whole hs]
    exact yieldsIf_total days hours minutes (rest.getD 0 0) (rest.getD 1 0)

/-- The seconds alone are too many, although the milliseconds would bring the total back. -/
theorem spans_exact_on_the_way :
    let args : List Value :=
      [.integer 0, .integer 0, .long 0, .long 9223372036854776, .integer (-500)]
    (Strategy.strict = .lenient ∨ Strategy.strict = .strict) ∧
      AreWhole args [0, 0, 0, 9223372036854776, -500] ∧
      Kind.long.Holds (9223372036854776 * 1000 + -500) ∧
      timeSpan.body args .strict = .error (.invalidArgument "TimeSpan" .spanOutOfRange) := by
  intro args
  have hwhole : AreWhole args [0, 0, 0, 9223372036854776, -500] :=
    .cons ⟨.integer, rfl, rfl⟩ (.cons ⟨.integer, rfl, rfl⟩ (.cons ⟨.long, rfl, rfl⟩
      (.cons ⟨.long, rfl, rfl⟩ (.cons ⟨.integer, rfl, rfl⟩ .nil))))
  have hspan := (spans_exact (.inr rfl) hwhole).2 0 0 0 [9223372036854776, -500] rfl (by decide)
  refine ⟨.inr rfl, hwhole, by decide, hspan.error fun hfits => ?_⟩
  have hseconds : Kind.long.Holds 9223372036854776000 := hfits.1 _ (by decide)
  revert hseconds
  decide

end Library

end Formulary
