import Formulary.Proofs.Strategy.Matching
import Formulary.Proofs.Time.Milliseconds

/-!
# Operands on either side

A comparison turned round compares the same operands from the other side. Both strategies answer it
alike, because what they bring two operands to is, turned round, what they bring them to in the
other order. Where both operands can become of the kind of the other, the lenient strategy takes the
kind of the left one. That is so for a time beside a count of milliseconds or a text, and there the
answer may depend on the side.
-/

namespace Formulary

/-- The error about two operands in the other order, under the operation turned round. -/
def EvalError.mirrored (op : Operation) : EvalError → EvalError
  | typeMismatch _ left right => typeMismatch op right left
  | e => e

/-- Kinds each of which can become the other, apart from numbers beside numbers and texts and from
truth values: a time and a whole number or a text. -/
theorem Kind.of_reaches_both {j k : Kind} (hjk : j.reaches k = true) (hkj : k.reaches j = true)
    (hne : j ≠ k) (hj : j ≠ .null ∧ j ≠ .boolean) (hk : k ≠ .null ∧ k ≠ .boolean)
    (hnumbers : (j.isNumeric && k.isNumeric) = false)
    (hleft : j = .string → k.isNumeric = false) (hright : k = .string → j.isNumeric = false) :
    j ∈ [string, integer, long] ∧ k ∈ [dateTime, duration] ∨
      k ∈ [string, integer, long] ∧ j ∈ [dateTime, duration] := by
  revert hjk hkj hne hj hk hnumbers hleft hright
  cases j <;> cases k <;> decide

namespace Value

mutual

theorem same_comm (v w : Value) : v.same w = w.same v := by
  cases v with
  | object fs =>
    cases w with
    | object gs => exact sameFields_comm fs gs
    | _ => rfl
  | array vs =>
    cases w with
    | array ws => exact sameItems_comm vs ws
    | _ => rfl
  | _ => cases w <;> first | rfl | exact BEq.comm

theorem sameItems_comm (vs ws : List Value) : sameItems vs ws = sameItems ws vs := by
  cases vs with
  | nil => cases ws <;> rfl
  | cons v vs =>
    cases ws with
    | nil => rfl
    | cons w ws => rw [sameItems, sameItems, same_comm v w, sameItems_comm vs ws]

theorem sameFields_comm (fs gs : List (String × Value)) : sameFields fs gs = sameFields gs fs := by
  cases fs with
  | nil => cases gs <;> rfl
  | cons f fs =>
    cases gs with
    | nil => rfl
    | cons g gs =>
      obtain ⟨k, v⟩ := f
      obtain ⟨l, w⟩ := g
      have hname : (k == l) = (l == k) := BEq.comm
      rw [sameFields, sameFields, hname, same_comm v w, sameFields_comm fs gs]

end

theorem order_swap (op op' : Operation) (v w : Value) :
    order op' w v = ((order op v w).map Ordering.swap).mapError (EvalError.mirrored op') := by
  cases v with
  | dateTime t =>
    cases w with
    | dateTime u => exact congrArg Except.ok (Instant.order_swap t u).symm
    | _ => rfl
  | _ => cases w <;> first | rfl | exact congrArg Except.ok Std.OrientedOrd.eq_swap

theorem beq_of_eq_iff {α : Type} [DecidableEq α] {x y : α} {o : Ordering} (h : o = .eq ↔ x = y) :
    (x == y) = (o == .eq) := by
  rw [Bool.eq_iff_iff, beq_iff_eq, beq_iff_eq, h]

/-- Values that have an order are the same when the order tells no difference. -/
theorem same_of_order {op : Operation} {v w : Value} {o : Ordering} (h : order op v w = .ok o) :
    v.same w = (o == .eq) := by
  cases v <;> cases w <;> cases h
  case integer m n => exact beq_of_eq_iff (by rw [Int.compare_eq_eq, Int32.toInt_inj])
  case long m n => exact beq_of_eq_iff (by rw [Int.compare_eq_eq, Int64.toInt_inj])
  case boolean b c => exact beq_of_eq_iff (by cases b <;> cases c <;> decide)
  case string s t => exact beq_of_eq_iff Std.LawfulEqOrd.compare_eq_iff_eq
  case dateTime t u => exact beq_of_eq_iff Instant.order_eq_eq_iff
  case duration d e => exact beq_of_eq_iff Span.compare_nanos_eq_eq
  all_goals exact beq_of_eq_iff Int.compare_eq_eq

/-- The whole milliseconds that a time is cut to. -/
def millis? : Value → Option Int
  | dateTime t => some t.millis
  | duration d => some d.millis
  | _ => none

/-- Two values of which a comparison depends on the sides: a text that writes the time it stands
beside, and a number of milliseconds that the time straddles. -/
inductive Lopsided : Value → Value → Prop
  | text {text : String} {time w : Value} (htime : time.isTime = true)
    (h : (string text).convert time.kind = .ok w) : Lopsided (string text) time
  | instant {v : Value} {n : Int} {t : Instant} (hv : v.int? = some n) (h : t.Straddles n) :
    Lopsided v (dateTime t)
  | span {v : Value} {n : Int} {d : Span} (hv : v.int? = some n) (h : d.Straddles n) :
    Lopsided v (duration d)

theorem order_numbers {v w : Value} {m n : Int} (hkind : w.kind = v.kind) (hv : v.int? = some m)
    (hw : w.int? = some n) (op : Operation) : order op v w = .ok (compare m n) := by
  cases v <;> cases hv <;> cases w <;> cases hkind <;> cases hw <;> rfl

theorem toInt_of_toLong {time : Value} {k : Int} {n : Int64} (htime : time.millis? = some k)
    (h : time.toLong = .ok n) : n.toInt = k := by
  cases time with
  | dateTime t =>
    cases htime
    cases h
    exact Int64.toInt_ofInt_of_le t.millis_bounds.1 (Int.lt_add_one_of_le t.millis_bounds.2)
  | duration d =>
    cases htime
    cases h
    exact Int64.toInt_ofInt_of_le d.millis_bounds.1 (Int.lt_add_one_of_le d.millis_bounds.2)
  | _ => cases htime

/-- A time becomes the number of its milliseconds. -/
theorem int?_of_convert {time w : Value} {target : Kind} {k : Int} (htime : time.millis? = some k)
    (htarget : target = .integer ∨ target = .long) (h : time.convert target = .ok w) :
    w.int? = some k := by
  have hne : time.kind ≠ target := by
    rcases htarget with rfl | rfl <;> cases time <;> first | (rintro ⟨⟩; done) | cases htime
  unfold convert at h
  rw [if_neg hne] at h
  rcases htarget with rfl | rfl
  · obtain ⟨i, hi, rfl⟩ := of_found_ok h
    obtain ⟨n, hn, hfit⟩ := of_bind_ok hi
    rw [int?, toInt_of_int32? (of_elim_ok hfit), toInt_of_toLong htime hn]
  · obtain ⟨n, hn, rfl⟩ := of_found_ok h
    rw [int?, toInt_of_toLong htime hn]

/-- A number of milliseconds becomes a time that is in the same order as the numbers are. -/
theorem order_time {v time w : Value} {k n : Int} (htime : time.millis? = some k)
    (hv : v.int? = some n) (h : v.convert time.kind = .ok w) (hside : ¬ v.Lopsided time)
    (op : Operation) : order op time w = .ok (compare k n) := by
  cases time with
  | dateTime t =>
    have hstraddles : ¬ t.Straddles n := fun h => hside (.instant hv h)
    have hinstant : ∃ u, Instant.ofMillis? n = some u ∧ dateTime u = w := by
      cases v <;> cases hv <;> exact
        (of_found_ok h).imp fun u hu => ⟨of_elim_ok hu.1, hu.2⟩
    obtain ⟨u, hu, rfl⟩ := hinstant
    cases htime
    exact congrArg Except.ok (Instant.order_ofMillis? hu hstraddles)
  | duration d =>
    have hstraddles : ¬ d.Straddles n := fun h => hside (.span hv h)
    have hspan : ∃ e, Span.ofMillis? n = some e ∧ duration e = w := by
      cases v <;> cases hv <;> exact
        (of_found_ok h).imp fun e he => ⟨of_elim_ok he.1, he.2⟩
    obtain ⟨e, he, rfl⟩ := hspan
    cases htime
    exact congrArg Except.ok (Span.compare_ofMillis? he hstraddles)
  | _ => cases htime

end Value

/-- Two pairs of operands, the one as good as the other turned round. -/
structure Mirrored (p q : Value × Value) : Prop where
  same : p.1.same p.2 = q.1.same q.2
  order : ∀ op op', Value.order op' q.1 q.2 =
    ((Value.order op p.1 p.2).map Ordering.swap).mapError (EvalError.mirrored op')

theorem Mirrored.swap (a b : Value) : Mirrored (a, b) (b, a) :=
  ⟨Value.same_comm a b, fun op op' => Value.order_swap op op' a b⟩

theorem Mirrored.of_order {a b c d : Value} {o : Ordering}
    (hab : ∀ op, Value.order op a b = .ok o) (hcd : ∀ op, Value.order op c d = .ok o.swap) :
    Mirrored (a, b) (c, d) where
  same := by
    rw [Value.same_of_order (hab .equal), Value.same_of_order (hcd .equal)]
    cases o <;> rfl
  order op op' := by
    rw [hab, hcd]
    rfl

/-- Two attempts to bring operands together: both succeed with pairs that mirror each other, or both
fail, the second under the operation turned round. -/
inductive Turned (op : Operation) :
    Except EvalError (Value × Value) → Except EvalError (Value × Value) → Prop
  | pairs {p q : Value × Value} (h : Mirrored p q) : Turned op (.ok p) (.ok q)
  | refused (e : EvalError) : Turned op (.error e) (.error (e.mirrored op))

namespace Coercion

variable {c : Coercion} {a b : Value}

/-- Equality turned round answers alike, if the operands are brought together alike. -/
theorem equal_turned (h : a.isNull = false → b.isNull = false →
    Turned .equal (c.coerce .equal a b) (c.coerce .equal b a)) :
    c.equal b a = (c.equal a b).mapError (EvalError.mirrored .equal) := by
  unfold equal
  cases ha : a.isNull <;> cases hb : b.isNull <;> try rfl
  have hturned := h ha hb
  generalize c.coerce .equal a b = x at hturned
  generalize c.coerce .equal b a = y at hturned
  cases hturned with
  | refused e => rfl
  | pairs hpairs => exact congrArg (fun answer => Except.ok (Value.boolean answer)) hpairs.same.symm

theorem more_turned (h : a.isNull = false → b.isNull = false →
    Turned .more (c.coerce .less a b) (c.coerce .more b a)) :
    c.more b a = (c.less a b).mapError (EvalError.mirrored .more) := by
  unfold more less ordering binary
  rw [Bool.or_comm b.isNull]
  cases hnull : a.isNull || b.isNull with
  | true => rfl
  | false =>
    obtain ⟨ha, hb⟩ := Bool.or_eq_false_iff.mp hnull
    have hturned := h ha hb
    generalize c.coerce .less a b = x at hturned
    generalize c.coerce .more b a = y at hturned
    cases hturned with
    | refused e => rfl
    | @pairs p q hpairs =>
      have horder := hpairs.order .less .more
      simp only [Bool.false_eq_true, if_false, Except.bind, horder]
      cases Value.order .less p.1 p.2 with
      | error e => rfl
      | ok o => cases o <;> rfl

end Coercion

theorem isTemporalPair_of_isComparison {op : Operation} (h : op.isComparison = true) (l r : Value) :
    isTemporalPair op l r = false := by
  refine Bool.eq_false_iff.mpr fun hpair => ?_
  obtain ⟨-, -, ⟨rfl, -⟩ | ⟨rfl, -⟩⟩ := isTemporalPair_iff.mp hpair
  · cases h
  · cases h

namespace Strategy

variable {op op' : Operation} {a b : Value}

/-- The strict coercion brings two operands together alike from both sides. -/
theorem strictPair_turned (hop : op.isComparison = true) (hop' : op'.isComparison = true) :
    Turned op' (strictPair op a b) (strictPair op' b a) := by
  unfold strictPair
  rw [isTemporalPair_of_isComparison hop, isTemporalPair_of_isComparison hop']
  by_cases hkinds : a.kind = b.kind
  · rw [if_pos (.inl hkinds), if_pos (.inl hkinds.symm)]
    exact .pairs (.swap a b)
  · have hkinds' : b.kind ≠ a.kind := fun h => hkinds h.symm
    rw [if_neg (by simpa using hkinds), if_neg (by simpa using hkinds')]
    cases hnumbers : a.kind.isNumeric && b.kind.isNumeric with
    | false =>
      rw [promote_eq_none hnumbers, promote_eq_none (Bool.and_comm .. ▸ hnumbers)]
      exact .refused _
    | true =>
      obtain ⟨ha, hb⟩ := Bool.and_eq_true_iff.mp hnumbers
      obtain ⟨c, d, hforth, hback, -⟩ := promote_numbers .widen ha hb
      rw [hforth, hback]
      exact .pairs (.swap c d)

/-- Two strings are brought together alike from both sides. -/
theorem pairTexts_turned (hop : op.isComparison = true) (hop' : op'.isComparison = true)
    (s t : String) : Turned op' (pairTexts op s t) (pairTexts op' t s) := by
  have hlogical {o : Operation} (ho : o.isComparison = true) : o.isLogical = false := by
    cases o <;> first | rfl | cases ho
  unfold pairTexts
  simp only [hop, hop', hlogical hop, hlogical hop', if_true, Bool.false_eq_true, if_false]
  cases hs : Value.readNumber? s with
  | none => cases Value.readNumber? t <;> exact .pairs (.swap _ _)
  | some m =>
    cases ht : Value.readNumber? t with
    | none => exact .pairs (.swap _ _)
    | some n =>
      obtain ⟨c, d, hforth, hback, -⟩ := promote_numbers .convert
        (Value.isNumeric_of_readNumber? hs) (Value.isNumeric_of_readNumber? ht)
      simp only [hforth, hback]
      exact .pairs (.swap c d)

theorem pairTextNumber_turned (hop : op.isComparison = true) (hop' : op'.isComparison = true)
    {text : String} {number : Value} (hnumber : number.kind.isNumeric = true) :
    ∃ c d, lenientPair op (.string text) number = .ok (c, d) ∧
      lenientPair op' number (.string text) = .ok (d, c) := by
  have hadd : op ≠ .add := by
    rintro rfl
    cases hop
  rw [lenientPair_text_number hadd hnumber, lenientPair_number_text hnumber]
  unfold pairTextNumber
  simp only [hop, hop', if_true]
  cases hread : Value.readNumber? text with
  | none => exact ⟨_, _, rfl, rfl⟩
  | some n =>
    obtain ⟨c, d, hforth, hback, -⟩ :=
      promote_numbers .convert (Value.isNumeric_of_readNumber? hread) hnumber
    simp only [hforth, hback]
    exact ⟨c, d, rfl, rfl⟩

/-- Two operands that are not both converted to the kind of the other are brought together as the
same pair turned round. -/
theorem pairByKind_turned (hop : op.isComparison = true) (hop' : op'.isComparison = true)
    (hboth : a.kind ≠ .boolean → b.kind ≠ .boolean → ∀ c d, a.convert b.kind = .ok c →
      b.convert a.kind = .ok d → Mirrored (a, d) (b, c)) :
    Turned op' (pairByKind op a b) (pairByKind op' b a) := by
  unfold pairByKind
  extract_lets forth back
  have hkinds (hno : a.kind ≠ .boolean ∧ b.kind ≠ .boolean ∨
      ∀ c d, a.convert .boolean = .ok c → b.convert .boolean ≠ .ok d) :
      Turned op' forth back := by
    unfold forth back
    simp only [hop, hop', if_true]
    cases hc : a.convert b.kind with
    | error e => cases b.convert a.kind <;> exact .pairs (.swap _ _)
    | ok c =>
      cases hd : b.convert a.kind with
      | error e => exact .pairs (.swap _ _)
      | ok d =>
        -- Beside a truth value, both conversions to the kind of the other are conversions to
        -- truth values, and these would have been taken before.
        rcases hno with ⟨ha, hb⟩ | hno
        · exact .pairs (hboth ha hb c d hc hd)
        · refine .pairs (hboth (fun ha => ?_) (fun hb => ?_) c d hc hd)
          · exact hno a d (if_pos ha) (ha ▸ hd)
          · exact hno c b (hb ▸ hc) (if_pos hb)
  by_cases hboolean : a.kind = .boolean ∨ b.kind = .boolean
  · rw [if_pos hboolean, if_pos hboolean.symm]
    cases hc : a.convert .boolean with
    | error e =>
      have hno := hkinds (.inr fun c d h => by rw [hc] at h; cases h)
      cases b.convert .boolean <;> exact hno
    | ok c =>
      cases hd : b.convert .boolean with
      | error e => exact hkinds (.inr fun c d _ h => by rw [hd] at h; cases h)
      | ok d => exact .pairs (.swap c d)
  · rw [if_neg hboolean, if_neg fun h => hboolean h.symm]
    exact hkinds (.inl (not_or.mp hboolean))

/-- A number and a time that are both converted to the kind of the other. -/
theorem mirrored_of_number {v time c d : Value} {k n : Int} (hv : v.int? = some n)
    (htime : time.millis? = some k) (hc : v.convert time.kind = .ok c)
    (hd : time.convert v.kind = .ok d) (hside : ¬ v.Lopsided time) :
    Mirrored (v, d) (time, c) ∧ Mirrored (time, c) (v, d) := by
  have hkind : v.kind = .integer ∨ v.kind = .long := by
    cases v <;> cases hv
    · exact .inl rfl
    · exact .inr rfl
  have hnull : time.isNull = false := by cases time <;> first | rfl | cases htime
  have hnumbers := Value.order_numbers (Value.kind_of_convert hnull hd) hv
    (Value.int?_of_convert htime hkind hd)
  have htimes := Value.order_time htime hv hc hside
  constructor
  · exact .of_order hnumbers (Int.compare_swap n k ▸ htimes)
  · exact .of_order htimes (Int.compare_swap k n ▸ hnumbers)

/-- A value beside a time is compared alike from both sides, unless the two are lopsided. -/
theorem mirrored_of_time {v time c d : Value} (hv : v.kind ∈ [.string, .integer, .long])
    (htime : time.kind ∈ [.dateTime, .duration]) (hc : v.convert time.kind = .ok c)
    (hd : time.convert v.kind = .ok d) (hside : ¬ v.Lopsided time) :
    Mirrored (v, d) (time, c) ∧ Mirrored (time, c) (v, d) := by
  obtain ⟨k, hk, hisTime⟩ : ∃ k, time.millis? = some k ∧ time.isTime = true := by
    cases time with
    | dateTime t => exact ⟨_, rfl, rfl⟩
    | duration d => exact ⟨_, rfl, rfl⟩
    | _ => simp [Value.kind] at htime
  cases v with
  | string text => exact absurd (.text hisTime hc) hside
  | integer n => exact mirrored_of_number rfl hk hc hd hside
  | long n => exact mirrored_of_number rfl hk hc hd hside
  | _ => simp [Value.kind] at hv

theorem kind_ne_null {v : Value} (hv : v.isNull = false) : v.kind ≠ .null := by
  cases v <;> first | (rintro ⟨⟩; done) | cases hv

theorem exists_text {v : Value} (hv : v.kind = .string) : ∃ text, v = .string text := by
  cases v <;> cases hv
  exact ⟨_, rfl⟩

theorem pairMixed_of_isComparison (hop : op.isComparison = true)
    (htexts : a.kind = .string → b.kind ≠ .string) : lenientPair op a b = pairMixed op a b := by
  refine lenientPair_eq_pairMixed (isTemporalPair_of_isComparison hop a b) fun h => ⟨htexts h, ?_⟩
  rintro rfl
  cases hop

/-- Operands of one kind are brought together alike from both sides. -/
theorem lenientPair_turned_of_kinds (hop : op.isComparison = true)
    (hop' : op'.isComparison = true) (hkinds : a.kind = b.kind) :
    Turned op' (lenientPair op a b) (lenientPair op' b a) := by
  by_cases htext : a.kind = .string
  · obtain ⟨s, rfl⟩ := exists_text htext
    obtain ⟨t, rfl⟩ := exists_text (hkinds.symm.trans htext)
    rw [lenientPair_texts (by rintro rfl; cases hop), lenientPair_texts (by rintro rfl; cases hop')]
    exact pairTexts_turned hop hop' s t
  · rw [pairMixed_of_isComparison hop fun h => absurd h htext,
      pairMixed_of_isComparison hop' fun h => absurd (hkinds.trans h) htext,
      pairMixed_of_kinds hkinds, pairMixed_of_kinds hkinds.symm]
    exact .pairs (.swap a b)

/-- What a comparison makes of two operands, from either side. -/
theorem lenientPair_turned (hop : op.isComparison = true) (hop' : op'.isComparison = true)
    (ha : a.isNull = false) (hb : b.isNull = false) (hab : ¬ a.Lopsided b) (hba : ¬ b.Lopsided a) :
    Turned op' (lenientPair op a b) (lenientPair op' b a) := by
  by_cases hkinds : a.kind = b.kind
  · exact lenientPair_turned_of_kinds hop hop' hkinds
  have hmixed : lenientPair op a b = pairMixed op a b :=
    pairMixed_of_isComparison hop fun h h' => hkinds (h.trans h'.symm)
  have hmixed' : lenientPair op' b a = pairMixed op' b a :=
    pairMixed_of_isComparison hop' fun h h' => hkinds (h'.trans h.symm)
  by_cases hnumbers : (a.kind.isNumeric && b.kind.isNumeric) = true
  · obtain ⟨ha, hb⟩ := Bool.and_eq_true_iff.mp hnumbers
    obtain ⟨c, d, hforth, hback, -⟩ := promote_numbers .convert ha hb
    rw [hmixed, hmixed', pairMixed_of_promote hkinds hforth,
      pairMixed_of_promote (Ne.symm hkinds) hback]
    exact .pairs (.swap c d)
  by_cases hleft : a.kind = .string ∧ b.kind.isNumeric = true
  · obtain ⟨text, rfl⟩ := exists_text hleft.1
    obtain ⟨c, d, hforth, hback⟩ := pairTextNumber_turned hop hop' hleft.2
    rw [hforth, hback]
    exact .pairs (.swap c d)
  by_cases hright : b.kind = .string ∧ a.kind.isNumeric = true
  · obtain ⟨text, rfl⟩ := exists_text hright.1
    obtain ⟨c, d, hforth, hback⟩ := pairTextNumber_turned hop' hop hright.2
    rw [hforth, hback]
    exact .pairs (.swap d c)
  simp only [Bool.not_eq_true] at hnumbers
  simp only [not_and, Bool.not_eq_true] at hleft hright
  rw [hmixed, hmixed', pairMixed_eq_pairByKind hkinds hnumbers hleft hright,
    pairMixed_eq_pairByKind (Ne.symm hkinds) (Bool.and_comm .. ▸ hnumbers) hright hleft]
  refine pairByKind_turned hop hop' fun haBool hbBool c d hc hd => ?_
  rcases Kind.of_reaches_both (Value.reaches_of_convert ha hc) (Value.reaches_of_convert hb hd)
    hkinds ⟨kind_ne_null ha, haBool⟩ ⟨kind_ne_null hb, hbBool⟩ hnumbers hleft hright with
    ⟨hv, htime⟩ | ⟨hv, htime⟩
  · exact (mirrored_of_time hv htime hc hd hab).1
  · exact (mirrored_of_time hv htime hd hc hba).2

/-- A text to the right of a time that it can write is read. -/
theorem lenientPair_time_text (hop : op.isComparison = true) {text : String} {time w : Value}
    (htime : time.isTime = true) (hw : (Value.string text).convert time.kind = .ok w) :
    lenientPair op time (.string text) = .ok (time, w) := by
  have hkinds : time.kind ≠ .string ∧ time.kind.isNumeric = false ∧ time.kind ≠ .boolean := by
    cases time <;> cases htime <;> exact ⟨by rintro ⟨⟩, rfl, by rintro ⟨⟩⟩
  obtain ⟨hstring, hnumber, hboolean⟩ := hkinds
  rw [pairMixed_of_isComparison hop fun h => absurd h hstring,
    pairMixed_eq_pairByKind hstring (by rw [hnumber]; rfl) (fun h => absurd h hstring)
      fun _ => hnumber, pairByKind, if_neg (not_or.mpr ⟨hboolean, by rintro ⟨⟩⟩), hw]

end Strategy

/-- The answer of a strategy to a comparison is its answer to the comparison turned round, and so is
its refusal but for the kinds and the operation that it names. -/
def Strategy.Impartial (s : Strategy) (a b : Value) : Prop :=
  s.equal b a = (s.equal a b).mapError (EvalError.mirrored .equal) ∧
    s.more b a = (s.less a b).mapError (EvalError.mirrored .more)

/-- Comparisons do not depend on the side an operand stands on, but for the lenient strategy where a
number of milliseconds stands beside a time that straddles it, or a text beside the time that it
writes. Such a text is read when the time is on the left. -/
theorem Strategy.comparisons_impartial (a b : Value) :
    strict.Impartial a b ∧
    (¬ a.Lopsided b → ¬ b.Lopsided a → lenient.Impartial a b) ∧
    (∀ (op : Operation) (time : Value), op.isComparison = true → a.isTime = true →
      b.kind = .string → b.convert a.kind = .ok time → lenient.coerce op a b = .ok (a, time)) := by
  refine ⟨⟨?_, ?_⟩, fun hab hba => ?_, fun op time hop ha hb htime => ?_⟩
  · exact Coercion.equal_turned fun _ _ => strictPair_turned rfl rfl
  · exact Coercion.more_turned fun _ _ => strictPair_turned rfl rfl
  · have hturned (op op' : Operation) (hop : op.isComparison = true)
        (hop' : op'.isComparison = true) (ha : a.isNull = false) (hb : b.isNull = false) :
        Turned op' (lenient.coerce op a b) (lenient.coerce op' b a) :=
      lenientPair_turned hop hop' ha hb hab hba
    exact ⟨Coercion.equal_turned (hturned _ _ rfl rfl), Coercion.more_turned (hturned _ _ rfl rfl)⟩
  · obtain ⟨text, rfl⟩ := exists_text hb
    exact lenientPair_time_text hop ha htime

def Instant.epoch : Instant := ⟨0, 0, by decide⟩

theorem convert_epoch : (Value.string "1970-01-01").convert .dateTime = .ok (.dateTime .epoch) := by
  have hread : Timestamp.read? "1970-01-01".toList = some .epoch := by decide +kernel
  unfold Value.convert Value.toDateTime
  simp only [hread]
  rfl

/-- A second and a half as a number and as a point in time, and a text before it. -/
theorem Strategy.comparisons_impartial_milliseconds :
    (¬ (Value.long 1500).Lopsided (.dateTime ⟨1, 500000000, by decide⟩) ∧
      ¬ (Value.dateTime ⟨1, 500000000, by decide⟩).Lopsided (.long 1500) ∧
      lenient.Impartial (.long 1500) (.dateTime ⟨1, 500000000, by decide⟩)) ∧
    (Operation.less.isComparison = true ∧ (Value.dateTime .epoch).isTime = true ∧
      (Value.string "1970-01-01").kind = .string ∧
      (Value.string "1970-01-01").convert .dateTime = .ok (.dateTime .epoch) ∧
      lenient.coerce .less (.dateTime .epoch) (.string "1970-01-01") =
        .ok (.dateTime .epoch, .dateTime .epoch)) := by
  have hright : ¬ (Value.long 1500).Lopsided (.dateTime ⟨1, 500000000, by decide⟩) := by
    intro h
    cases h with
    | instant hn hstraddles =>
      cases hn
      exact hstraddles.2.2 (by decide)
  have hleft : ¬ (Value.dateTime ⟨1, 500000000, by decide⟩).Lopsided (.long 1500) := by
    rintro ⟨⟩
  exact ⟨⟨hright, hleft, (comparisons_impartial _ _).2.1 hright hleft⟩, rfl, rfl, rfl,
    convert_epoch, (comparisons_impartial _ _).2.2 _ _ rfl rfl rfl convert_epoch⟩

/-- Half a millisecond past the start of 1970 is no whole millisecond, and the text of the start is
not read when it is on the left. -/
theorem Strategy.equal_depends_on_side :
    lenient.equal (.long 0) (.dateTime ⟨0, 500000, by decide⟩) = .ok (.boolean true) ∧
      lenient.equal (.dateTime ⟨0, 500000, by decide⟩) (.long 0) = .ok (.boolean false) ∧
      lenient.equal (.string "1970-01-01") (.dateTime .epoch) = .ok (.boolean false) ∧
      lenient.equal (.dateTime .epoch) (.string "1970-01-01") = .ok (.boolean true) := by
  have htext : ("1970-01-01" == (Value.dateTime .epoch).text) = false := by decide +kernel
  have hread : lenientPair .equal (.dateTime .epoch) (.string "1970-01-01") =
      .ok (.dateTime .epoch, .dateTime .epoch) := lenientPair_time_text rfl rfl convert_epoch
  refine ⟨rfl, rfl, ?_, ?_⟩
  · exact congrArg (fun answer => Except.ok (Value.boolean answer)) htext
  · exact congrArg (Except.map fun pair => Value.boolean (pair.1.same pair.2)) hread

end Formulary
