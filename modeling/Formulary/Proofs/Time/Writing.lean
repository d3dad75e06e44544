import Formulary.Proofs.Number.Writing
import Formulary.Proofs.Time.Nanoseconds
import Formulary.Time.Timestamp

/-!
# Instants read back from writing

A timestamp has its numbers at fixed places, each with zeros in front up to a width. A reader that
takes as many digits finds the number and what follows it. The calendar is exact in both directions,
so the instant that was written is found again, provided that its year has four digits, it has whole
milliseconds and it lies in no leap second.
-/

namespace Formulary

namespace Date

theorem month_ofDays (days : Int) : 1 ≤ (ofDays days).month ∧ (ofDays days).month ≤ 12 := by
  have hmonth := MarchDate.month_ofDays (days + epoch)
  unfold ofDays ofMarch
  split
  · dsimp only
    omega
  · dsimp only
    omega

theorem day_ofDays (days : Int) : 1 ≤ (ofDays days).day ∧ (ofDays days).day ≤ 31 := by
  have hsplit := MarchDate.splitCycle_bounds ((days + epoch) % 146097) (by omega)
  have hday : (ofDays days).day = (MarchDate.ofDays (days + epoch)).day + 1 := by
    unfold ofDays ofMarch
    split <;> rfl
  rw [hday]
  simp only [MarchDate.ofDays, MarchDate.monthOfYear]
  omega

end Date

namespace Timestamp

variable {cs : List Char} {c : Char} {width n : Nat}

theorem toList_padded (width n : Nat) : (padded width n).toList =
    List.replicate (width - (Nat.toDigits 10 n).length) '0' ++ Nat.toDigits 10 n := by
  rw [padded, String.toList_ofList]

theorem length_padded (hwidth : 0 < width) (hn : n < Nat.pow 10 width) :
    (padded width n).toList.length = width := by
  have hshort : (Nat.toDigits 10 n).length ≤ width :=
    (Nat.length_toDigits_le_iff (by decide) hwidth).mpr hn
  rw [toList_padded, List.length_append, List.length_replicate]
  omega

theorem isDigit_of_mem_padded (h : c ∈ (padded width n).toList) : c.isDigit = true := by
  rw [toList_padded] at h
  rcases List.mem_append.mp h with h | h
  · rw [List.eq_of_mem_replicate h]
    rfl
  · exact isDigit_of_mem_toDigits h

theorem digitsValue_of_isDigit (h : ∀ c ∈ cs, c.isDigit = true) :
    digitsValue cs = Formulary.digitsValue cs := by
  have hfold (value : Nat) : cs.foldl (fun value c => value * 10 + ((c.toNat : Int) - 48)) value =
      (cs.foldl (fun value c => value * 10 + (c.toNat - 48)) value : Nat) := by
    induction cs generalizing value with
    | nil => rfl
    | cons c cs ih =>
      have hdigit : 48 ≤ c.toNat := by
        have hc := h c List.mem_cons_self
        simp only [Char.isDigit, Bool.and_eq_true, decide_eq_true_eq] at hc
        exact hc.1
      have hnext : (value : Int) * 10 + ((c.toNat : Int) - 48) =
          (value * 10 + (c.toNat - 48) : Nat) := by
        omega
      rw [List.foldl_cons, List.foldl_cons, hnext]
      exact ih (fun d hd => h d (List.mem_cons_of_mem c hd)) _
  exact hfold 0

theorem digitsValue_padded (width n : Nat) : digitsValue (padded width n).toList = n := by
  rw [digitsValue_of_isDigit fun c => isDigit_of_mem_padded, toList_padded,
    digitsValue_replicate_append, digitsValue_toDigits]

/-- A number of a fixed width is read together with what follows it. -/
theorem fixed_padded (hwidth : 0 < width) (hn : n < Nat.pow 10 width) (rest : List Char) :
    fixed width ((padded width n).toList ++ rest) = some ((n : Int), rest) := by
  have hlength := length_padded hwidth hn
  have hdigits : (padded width n).toList.all Char.isDigit = true :=
    List.all_eq_true.mpr fun c => isDigit_of_mem_padded
  have htake : ((padded width n).toList ++ rest).take width = (padded width n).toList :=
    List.take_left' hlength
  have hdrop : ((padded width n).toList ++ rest).drop width = rest := List.drop_left' hlength
  rw [fixed, htake, hdrop, if_pos ⟨hlength, hdigits⟩, digitsValue_padded]

/-- Three digits behind the point are milliseconds. -/
theorem fraction_padded (hn : n < 1000) :
    fraction ('.' :: ((padded 3 n).toList ++ ['Z'])) = some ((n : Int) * 1000000, ['Z']) := by
  have hdigits : ∀ c ∈ (padded 3 n).toList, c.isDigit = true := fun c => isDigit_of_mem_padded
  have hlength : (padded 3 n).toList.length = 3 := length_padded (by decide) hn
  have htake : ((padded 3 n).toList ++ ['Z']).takeWhile Char.isDigit = (padded 3 n).toList := by
    rw [List.takeWhile_append_of_pos hdigits]
    exact List.append_nil _
  have hdrop : ((padded 3 n).toList ++ ['Z']).dropWhile Char.isDigit = ['Z'] := by
    rw [List.dropWhile_append_of_pos hdigits]
    rfl
  have hcounted : (padded 3 n).toList.take 9 = (padded 3 n).toList :=
    List.take_of_length_le (by omega)
  have hsome : (padded 3 n).toList.isEmpty = false :=
    List.isEmpty_eq_false_iff.mpr (List.ne_nil_of_length_eq_add_one hlength)
  rw [fraction, htake, hdrop, hcounted, hsome, digitsValue_padded, hlength]
  rfl

def layout (year month day hour minute second milli : Nat) : List Char :=
  (padded 4 year).toList ++ '-' :: ((padded 2 month).toList ++ '-' :: ((padded 2 day).toList ++
    'T' :: ((padded 2 hour).toList ++ ':' :: ((padded 2 minute).toList ++
      ':' :: ((padded 2 second).toList ++ '.' :: ((padded 3 milli).toList ++ ['Z']))))))

/-- A timestamp of this layout is read as the numbers that it was written with. -/
theorem readFull?_layout {year month day hour minute second milli : Nat} (hyear : year < 10000)
    (hmonth : month < 100) (hday : day < 100) (hhour : hour < 100) (hminute : minute < 100)
    (hsecond : second < 100) (hmilli : milli < 1000) :
    readFull? (layout year month day hour minute second milli) =
      instant? ⟨year, month, day⟩ ⟨hour, minute, second, (milli : Int) * 1000000⟩ 0 := by
  have hpair {n : Nat} (hn : n < 100) (rest : List Char) :
      fixed 2 ((padded 2 n).toList ++ rest) = some ((n : Int), rest) :=
    fixed_padded (by decide) hn rest
  have hfour (rest : List Char) :
      fixed 4 ((padded 4 year).toList ++ rest) = some ((year : Int), rest) :=
    fixed_padded (by decide) hyear rest
  have hend : offset ['Z'] = some (0, []) := rfl
  have hmark (rest : List Char) : afterDateMark ('T' :: rest) = some rest := rfl
  have hafter (c : Char) (rest : List Char) : after c (c :: rest) = some rest := if_pos rfl
  simp only [readFull?, layout, hfour, hpair hmonth, hpair hday, hpair hhour, hpair hminute,
    hpair hsecond, fraction_padded hmilli, hend, hmark, hafter, Option.bind_eq_bind,
    Option.bind_some, List.isEmpty_nil, if_true]

theorem not_isBlank_of_mem_layout {year month day hour minute second milli : Nat}
    (h : c ∈ layout year month day hour minute second milli) : Text.isBlank c = false := by
  have hpadded {width n : Nat} (h : c ∈ (padded width n).toList) : Text.isBlank c = false :=
    Text.isBlank_of_isDigit (isDigit_of_mem_padded h)
  simp only [layout, List.mem_append, List.mem_cons, List.not_mem_nil, or_false] at h
  rcases h with h | rfl | h | rfl | h | rfl | h | rfl | h | rfl | h | rfl | h | rfl
  all_goals first | exact hpadded h | decide

theorem read?_layout {year month day hour minute second milli : Nat} {t : Instant}
    (h : readFull? (layout year month day hour minute second milli) = some t) :
    read? (layout year month day hour minute second milli) = some t := by
  rw [read?, Text.trim_of_not_blank fun c => not_isBlank_of_mem_layout, h]
  rfl

/-- A timestamp says all there is to know about the instant. -/
structure Written (t : Instant) : Prop where
  year : 0 ≤ (Date.ofDays t.days).year ∧ (Date.ofDays t.days).year ≤ 9999
  millis : t.nanos % 1000000 = 0
  noLeap : t.isLeap = false

variable {t : Instant}

theorem toList_write (hyear : 0 ≤ (Date.ofDays t.days).year ∧ (Date.ofDays t.days).year ≤ 9999) :
    (write t).toList =
      layout (Date.ofDays t.days).year.natAbs (Date.ofDays t.days).month.natAbs
        (Date.ofDays t.days).day.natAbs (t.secondOfDay / 3600).natAbs
        (t.secondOfDay % 3600 / 60).natAbs (t.secondOfDay % 60 + t.nanos / 1000000000).natAbs
        (t.nanos % 1000000000 / 1000000).natAbs := by
  have hhyphen : "-".toList = ['-'] := rfl
  have hmark : "T".toList = ['T'] := rfl
  have hcolon : ":".toList = [':'] := rfl
  have hpoint : ".".toList = ['.'] := rfl
  have hzone : "Z".toList = ['Z'] := rfl
  simp only [write, yearText, if_pos hyear, String.toList_append, layout, List.append_assoc,
    hhyphen, hmark, hcolon, hpoint, hzone, List.cons_append, List.nil_append]

/-- The numbers of a timestamp are put together to the instant that they come from. -/
theorem instant?_of_written (ht : Written t) :
    instant? (Date.ofDays t.days)
      ⟨t.secondOfDay / 3600, t.secondOfDay % 3600 / 60, t.secondOfDay % 60 + t.nanos / 1000000000,
        t.nanos % 1000000000 / 1000000 * 1000000⟩ 0 = some t := by
  have hnanos := Instant.nanos_of_not_isLeap ht.noLeap
  have hmillis := ht.millis
  have hday : t.seconds = t.days * 86400 + t.secondOfDay := by
    unfold Instant.days Instant.secondOfDay
    omega
  have hsecond : 0 ≤ t.secondOfDay ∧ t.secondOfDay < 86400 := by
    unfold Instant.secondOfDay
    omega
  generalize t.secondOfDay = second at *
  have hvalid : ((Date.ofDays t.days).isValid && decide (second / 3600 ≤ 23) &&
      decide (second % 3600 / 60 ≤ 59) && decide (second % 60 + t.nanos / 1000000000 ≤ 60)) =
        true := by
    simp only [Date.isValid_ofDays, Bool.true_and, Bool.and_eq_true, decide_eq_true_eq]
    omega
  have hleap : ¬ second % 60 + t.nanos / 1000000000 = 60 := by omega
  have hseconds : t.days * 86400 + second / 3600 * 3600 + second % 3600 / 60 * 60 +
      (second % 60 + t.nanos / 1000000000 - 0) - 0 = t.seconds := by
    omega
  have hrest : t.nanos % 1000000000 / 1000000 * 1000000 + 0 * 1000000000 = t.nanos := by omega
  simp only [instant?, hvalid, hleap, if_true, if_false, Date.toDays_ofDays]
  rw [hseconds, hrest]
  exact dif_pos t.inRange

/-- An instant is read back from its timestamp. -/
theorem read?_write (ht : Written t) : read? (write t).toList = some t := by
  have hnanos := Instant.nanos_of_not_isLeap ht.noLeap
  have hyear := ht.year
  have hmonth := Date.month_ofDays t.days
  have hday := Date.day_ofDays t.days
  have hsecond : 0 ≤ t.secondOfDay ∧ t.secondOfDay < 86400 := by
    unfold Instant.secondOfDay
    omega
  rw [toList_write ht.year]
  refine read?_layout ?_
  rw [readFull?_layout (by omega) (by omega) (by omega) (by omega) (by omega) (by omega)
    (by omega), Int.natAbs_of_nonneg hyear.1, Int.natAbs_of_nonneg (by omega),
    Int.natAbs_of_nonneg (by omega), Int.natAbs_of_nonneg (by omega),
    Int.natAbs_of_nonneg (by omega), Int.natAbs_of_nonneg (by omega),
    Int.natAbs_of_nonneg (by omega)]
  exact instant?_of_written ht

end Timestamp

end Formulary
