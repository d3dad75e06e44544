import Formulary.Proofs.Strategy.Absence
import Formulary.Proofs.Strategy.Sides

/-!
# Comparisons agree with each other

All comparisons of two operands look at one pair: what a strategy brings the operands to does not
depend on which of the comparisons asks for it. The values of that pair have one kind, and the order
within a kind tells the same values from the others, so equality and the four orders are readings of
one answer. The lenient strategy finds such a pair for any two operands. It has an order unless the
operands were two arrays or two objects from the start, since nothing becomes one of these.
-/

namespace Formulary

/-- The kinds whose values come one after the other. -/
def Kind.hasOrder : Kind → Bool
  | null | object | array => false
  | _ => true

theorem Kind.hasOrder_of_isNumeric {k : Kind} (h : k.isNumeric = true) : k.hasOrder = true := by
  cases k <;> first | rfl | cases h

/-- A value of another kind becomes none of a kind without an order, unless it is given up. -/
theorem Kind.hasOrder_of_reaches {j k : Kind} (h : j.reaches k = true) (hne : j ≠ k)
    (hk : k ≠ .null) : k.hasOrder = true := by
  revert h hne hk
  cases j <;> cases k <;> decide

namespace Value

variable {op : Operation} {a b v w : Value}

theorem order_of_hasOrder (hkinds : a.kind = b.kind) (h : a.kind.hasOrder = true)
    (op : Operation) : ∃ o, order op a b = .ok o := by
  cases a <;> cases h <;> cases b <;> cases hkinds <;> exact ⟨_, rfl⟩

theorem order_of_no_hasOrder (h : a.kind.hasOrder = false) (op : Operation) (b : Value) :
    order op a b = .error (mismatch op a b) := by
  cases a <;> first | rfl | cases h

/-- Which operation asks for the order shows in the refusal alone. -/
theorem order_congr {o : Ordering} (h : order op a b = .ok o) (op' : Operation) :
    order op' a b = .ok o := by
  cases a <;> cases b <;> first | exact h | cases h

mutual

theorem same_self (v : Value) : v.same v = true := by
  cases v with
  | object fields => exact sameFields_self fields
  | array items => exact sameItems_self items
  | null => rfl
  | _ => exact beq_self_eq_true _

theorem sameItems_self (items : List Value) : sameItems items items = true := by
  cases items with
  | nil => rfl
  | cons v items => rw [sameItems, same_self v, sameItems_self items]; rfl

theorem sameFields_self (fields : List (String × Value)) : sameFields fields fields = true := by
  cases fields with
  | nil => rfl
  | cons field fields =>
    obtain ⟨name, v⟩ := field
    rw [sameFields, same_self v, sameFields_self fields, beq_self_eq_true]
    rfl

end

end Value

namespace Coercion

variable {c : Coercion} {l r a b : Value}

/-- Every comparison of the two operands looks at this pair. -/
def Brings (c : Coercion) (l r a b : Value) : Prop :=
  ∀ op : Operation, op.isComparison = true → c.coerce op l r = .ok (a, b)

/-- The answers to all comparisons of two operands that stand in an order. -/
structure Answers (c : Coercion) (l r : Value) (o : Ordering) : Prop where
  less : c.less l r = .ok (.boolean o.isLT)
  equal : c.equal l r = .ok (.boolean (o == .eq))
  more : c.more l r = .ok (.boolean o.isGT)
  lessEqual : c.lessEqual l r = .ok (.boolean o.isLE)
  moreEqual : c.moreEqual l r = .ok (.boolean o.isGE)
  notEqual : c.notEqual l r = .ok (.boolean !(o == .eq))

theorem Brings.equal (h : c.Brings l r a b) (hl : l.isNull = false) (hr : r.isNull = false) :
    c.equal l r = .ok (.boolean (a.same b)) := by
  rw [Coercion.equal, hl, hr]
  dsimp only
  rw [h .equal rfl]
  rfl

theorem Brings.ordering (h : c.Brings l r a b) (hl : l.isNull = false) (hr : r.isNull = false)
    {op : Operation} (hop : op.isComparison = true) (test : Ordering → Bool) :
    c.ordering op test l r = (Value.order op a b).map fun o => .boolean (test o) := by
  rw [Coercion.ordering, binary, hl, hr, h op hop]
  rfl

/-- Comparisons that all look at one pair answer by its order. -/
theorem Brings.answers (h : c.Brings l r a b) (hl : l.isNull = false) (hr : r.isNull = false)
    {o : Ordering} (horder : Value.order .less a b = .ok o) : c.Answers l r o := by
  have hequal : c.equal l r = .ok (.boolean (o == .eq)) := by
    rw [h.equal hl hr, Value.same_of_order horder]
  have hordering (op : Operation) (hop : op.isComparison = true) (test : Ordering → Bool) :
      c.ordering op test l r = .ok (.boolean (test o)) := by
    rw [h.ordering hl hr hop, Value.order_congr horder op]
    rfl
  exact {
    less := hordering .less rfl _
    equal := hequal
    more := hordering .more rfl _
    lessEqual := hordering .lessEqual rfl _
    moreEqual := hordering .moreEqual rfl _
    notEqual := by
      rw [Coercion.notEqual, hequal]
      rfl }

/-- Where all comparisons look at one pair, an answer to one of them is an answer to all. -/
theorem answers_of_less {answer : Value}
    (hsteady : ∀ a b, c.coerce .less l r = .ok (a, b) → c.Brings l r a b)
    (hl : l.isNull = false) (hr : r.isNull = false) (h : c.less l r = .ok answer) :
    ∃ o, c.Answers l r o := by
  rw [less, ordering, binary, hl, hr] at h
  obtain ⟨⟨a, b⟩, hcoerce, hanswer⟩ := of_bind_ok h
  obtain ⟨o, horder, -⟩ := of_map_ok hanswer
  exact ⟨o, (hsteady a b hcoerce).answers hl hr horder⟩

/-- Where the value can be compared with every item, the search ends with an answer. -/
theorem exists_anyEqual (c : Coercion) (v : Value) {items : List Value}
    (h : ∀ item ∈ items, ∃ e, c.equal v item = .ok (.boolean e)) :
    ∃ found, c.anyEqual v items = .ok found ∧
      (found = true ↔ ∃ item ∈ items, c.equal v item = .ok (.boolean true)) := by
  induction items with
  | nil => exact ⟨false, rfl, by simp⟩
  | cons item rest ih =>
    obtain ⟨⟨e, he⟩, hrest⟩ := List.forall_mem_cons.mp h
    rw [anyEqual, he]
    cases e with
    | true => exact ⟨true, rfl, fun _ => ⟨item, List.mem_cons_self, he⟩, fun _ => rfl⟩
    | false =>
      obtain ⟨found, hfound, hiff⟩ := ih hrest
      refine ⟨found, hfound, hiff.trans ?_⟩
      simp [he]

end Coercion

namespace Strategy

variable {op : Operation} {l r a b : Value}

theorem isLogical_of_isComparison (h : op.isComparison = true) : op.isLogical = false := by
  cases op <;> first | rfl | cases h

theorem brings_strictPair (hop : op.isComparison = true) (h : strictPair op l r = .ok (a, b)) :
    strict.Brings l r a b := by
  intro op' hop'
  show strictPair op' l r = _
  unfold strictPair at h ⊢
  rw [isTemporalPair_of_isComparison hop] at h
  rw [isTemporalPair_of_isComparison hop']
  split at h
  case isTrue hkinds => rw [if_pos hkinds, h]
  case isFalse hkinds =>
    rw [if_neg hkinds, of_getD_ok h]
    rfl

/-! The lenient strategy -/

/-- Two numbers are brought to a kind of numbers. -/
theorem exists_promote (hl : l.kind.isNumeric = true) (hr : r.kind.isNumeric = true) :
    ∃ a b, promote Value.convert l r = some (.ok (a, b)) ∧ a.kind.hasOrder = true := by
  obtain ⟨a, b, hpair, -, hkinds⟩ := promote_numbers .convert hl hr
  refine ⟨a, b, hpair, ?_⟩
  unfold promote at hpair
  split at hpair
  case h_2 => cases hpair
  case h_1 i j hi hj =>
    have hnull : l.isNull = false := by cases l <;> first | rfl | cases hl
    obtain ⟨c, hc, hrest⟩ := of_bind_ok (Option.some.inj hpair)
    obtain ⟨d, -, heq⟩ := of_map_ok hrest
    cases heq
    rw [Value.kind_of_convert hnull hc]
    split
    · exact Kind.hasOrder_of_isNumeric hl
    · exact Kind.hasOrder_of_isNumeric hr

/-- What is compared as two texts, two numbers or two truth values does not depend on the
comparison, and it has an order. -/
def Settles (pair : Operation → Except EvalError (Value × Value)) : Prop :=
  ∃ a b, (∀ op : Operation, op.isComparison = true → pair op = .ok (a, b)) ∧
    a.kind.hasOrder = true

/-- Two strings are compared as one pair, whatever the comparison asks. -/
theorem settles_pairTexts (s t : String) : Settles fun op => pairTexts op s t := by
  have hunread (op : Operation) (hop : op.isComparison = true)
      (hpair : ∀ m n, Value.readNumber? s = some m → Value.readNumber? t ≠ some n) :
      pairTexts op s t = .ok (.string s, .string t) := by
    unfold pairTexts
    rw [isLogical_of_isComparison hop, hop]
    dsimp only
    split
    case h_1 m n hm hn => exact absurd hn (hpair m n hm)
    case h_2 => rfl
  cases hs : Value.readNumber? s with
  | none => exact ⟨_, _, fun op hop => hunread op hop (by simp [hs]), rfl⟩
  | some m =>
    cases ht : Value.readNumber? t with
    | none => exact ⟨_, _, fun op hop => hunread op hop (by simp [ht]), rfl⟩
    | some n =>
      obtain ⟨a, b, hpair, horder⟩ := exists_promote (Value.isNumeric_of_readNumber? hs)
        (Value.isNumeric_of_readNumber? ht)
      refine ⟨a, b, fun op _ => ?_, horder⟩
      simp only [pairTexts, hs, ht, hpair]
      rfl

theorem settles_pairTextNumber (l r number : Value) (text : String)
    (withNumber : Value → Value × Value)
    (hnumbers : ∀ n, n.kind.isNumeric = true →
      (withNumber n).1.kind.isNumeric = true ∧ (withNumber n).2.kind.isNumeric = true) :
    Settles fun op => pairTextNumber op l r text number withNumber := by
  cases hread : Value.readNumber? text with
  | none =>
    refine ⟨.string l.text, .string r.text, fun op hop => ?_, rfl⟩
    simp only [pairTextNumber, hread, hop, if_true]
    rfl
  | some n =>
    obtain ⟨hleft, hright⟩ := hnumbers n (Value.isNumeric_of_readNumber? hread)
    obtain ⟨a, b, hpair, horder⟩ := exists_promote hleft hright
    refine ⟨a, b, fun op _ => ?_, horder⟩
    simp only [pairTextNumber, hread, hpair]
    rfl

/-- Operands of two kinds are compared as one pair, whatever the comparison asks. -/
theorem settles_pairByKind (hl : l.isNull = false) (hr : r.isNull = false)
    (hkinds : l.kind ≠ r.kind) : Settles fun op => pairByKind op l r := by
  have hreaches {v w : Value} {target : Kind} (hv : v.isNull = false) (hne : v.kind ≠ target)
      (htarget : target ≠ .null) (h : v.convert target = .ok w) : target.hasOrder = true :=
    Kind.hasOrder_of_reaches (Value.reaches_of_convert hv h) hne htarget
  by_cases hboolean : (l.kind = .boolean ∨ r.kind = .boolean) ∧
      (∃ c, l.convert .boolean = .ok c) ∧ ∃ d, r.convert .boolean = .ok d
  · obtain ⟨hsome, ⟨c, hc⟩, d, hd⟩ := hboolean
    refine ⟨c, d, fun op _ => ?_, by rw [Value.kind_of_convert hl hc]; rfl⟩
    simp only [pairByKind, if_pos hsome, hc, hd]
  · have hbyKind (op : Operation) (hop : op.isComparison = true) : pairByKind op l r =
        .ok ((r.convert l.kind).toOption.elim
          ((l.convert r.kind).toOption.elim (asTexts l r) fun c => (c, r)) fun d => (l, d)) := by
      have htried : ∀ c d, l.convert .boolean = .ok c → r.convert .boolean = .ok d →
          ¬ (l.kind = .boolean ∨ r.kind = .boolean) :=
        fun c d hc hd hsome => hboolean ⟨hsome, ⟨c, hc⟩, d, hd⟩
      unfold pairByKind
      simp only [hop, if_true]
      split
      case isFalse => cases r.convert l.kind <;> cases l.convert r.kind <;> rfl
      case isTrue hsome =>
        split
        case h_1 c d hc hd => exact absurd hsome (htried c d hc hd)
        case h_2 => cases r.convert l.kind <;> cases l.convert r.kind <;> rfl
    cases hd : r.convert l.kind with
    | ok d =>
      refine ⟨l, d, fun op hop => (hbyKind op hop).trans ?_,
        hreaches hr hkinds.symm (kind_ne_null hl) hd⟩
      rw [hd]
      rfl
    | error e =>
      cases hc : l.convert r.kind with
      | ok c =>
        refine ⟨c, r, fun op hop => (hbyKind op hop).trans ?_, ?_⟩
        · rw [hd, hc]
          rfl
        · rw [Value.kind_of_convert hl hc]
          exact hreaches hl hkinds (kind_ne_null hr) hc
      | error e' =>
        refine ⟨.string l.text, .string r.text, fun op hop => (hbyKind op hop).trans ?_, rfl⟩
        rw [hd, hc]
        rfl

/-- Operands of two kinds, or two texts, are brought to a pair with an order. -/
theorem settles_lenientPair (hl : l.isNull = false) (hr : r.isNull = false)
    (h : l.kind = r.kind → l.kind = .string) : Settles fun op => lenientPair op l r := by
  by_cases hkinds : l.kind = r.kind
  · obtain ⟨s, rfl⟩ := exists_text (h hkinds)
    obtain ⟨t, rfl⟩ := exists_text (hkinds.symm.trans (h hkinds))
    obtain ⟨a, b, hpair, horder⟩ := settles_pairTexts s t
    refine ⟨a, b, fun op hop => ?_, horder⟩
    rw [← hpair op hop]
    exact lenientPair_texts (by rintro rfl; cases hop)
  have hmixed (op : Operation) (hop : op.isComparison = true) :
      lenientPair op l r = pairMixed op l r :=
    pairMixed_of_isComparison hop fun hleft hright => hkinds (hleft.trans hright.symm)
  by_cases hnumbers : (l.kind.isNumeric && r.kind.isNumeric) = true
  · obtain ⟨hleft, hright⟩ := Bool.and_eq_true_iff.mp hnumbers
    obtain ⟨a, b, hpair, horder⟩ := exists_promote hleft hright
    exact ⟨a, b, fun op hop => (hmixed op hop).trans (pairMixed_of_promote hkinds hpair), horder⟩
  by_cases hleft : l.kind = .string ∧ r.kind.isNumeric = true
  · obtain ⟨text, rfl⟩ := exists_text hleft.1
    obtain ⟨a, b, hpair, horder⟩ := settles_pairTextNumber (.string text) r r text
      (fun n => (n, r)) fun n hn => ⟨hn, hleft.2⟩
    refine ⟨a, b, fun op hop => ?_, horder⟩
    rw [← hpair op hop]
    exact lenientPair_text_number (by rintro rfl; cases hop) hleft.2
  by_cases hright : r.kind = .string ∧ l.kind.isNumeric = true
  · obtain ⟨text, rfl⟩ := exists_text hright.1
    obtain ⟨a, b, hpair, horder⟩ := settles_pairTextNumber l (.string text) l text
      (fun n => (l, n)) fun n hn => ⟨hright.2, hn⟩
    refine ⟨a, b, fun op hop => ?_, horder⟩
    rw [← hpair op hop]
    exact lenientPair_number_text hright.2
  simp only [Bool.not_eq_true] at hnumbers
  simp only [not_and, Bool.not_eq_true] at hleft hright
  obtain ⟨a, b, hpair, horder⟩ := settles_pairByKind hl hr hkinds
  refine ⟨a, b, fun op hop => ?_, horder⟩
  rw [← hpair op hop]
  exact (hmixed op hop).trans (pairMixed_eq_pairByKind hkinds hnumbers hleft hright)

theorem brings_of_kinds (hkinds : l.kind = r.kind) (htext : l.kind ≠ .string) :
    lenient.Brings l r l r := fun _ hop =>
  (pairMixed_of_isComparison hop fun h => absurd h htext).trans (pairMixed_of_kinds hkinds)

theorem brings_of_settles (h : Settles fun op => lenientPair op l r) :
    ∃ a b, lenient.Brings l r a b := by
  obtain ⟨a, b, hpair, -⟩ := h
  exact ⟨a, b, hpair⟩

/-- The lenient strategy brings any two operands together. -/
theorem exists_brings (hl : l.isNull = false) (hr : r.isNull = false) :
    ∃ a b, lenient.Brings l r a b := by
  by_cases h : l.kind = r.kind ∧ l.kind ≠ .string
  · exact ⟨l, r, brings_of_kinds h.1 h.2⟩
  · exact brings_of_settles (settles_lenientPair hl hr (by simpa using h))

/-- Equality has an answer for any two values. -/
theorem exists_equal (l r : Value) : ∃ e, lenient.equal l r = .ok (.boolean e) := by
  cases hl : l.isNull with
  | true =>
    cases l <;> cases hl
    exact ⟨_, lenient.equal_null_left r⟩
  | false =>
    cases hr : r.isNull with
    | true =>
      cases r <;> cases hr
      exact ⟨_, lenient.equal_null_right l⟩
    | false =>
      obtain ⟨a, b, h⟩ := exists_brings hl hr
      exact ⟨_, h.equal hl hr⟩

/-- A text beside itself is one number twice, or one text. -/
theorem pairTexts_self (op : Operation) (hop : op.isComparison = true) (s : String) :
    ∃ v, pairTexts op s s = .ok (v, v) := by
  unfold pairTexts
  rw [isLogical_of_isComparison hop, hop]
  cases hs : Value.readNumber? s with
  | none => exact ⟨_, rfl⟩
  | some n =>
    have hrank : ∃ i, n.kind.numericRank = some i :=
      Option.isSome_iff_exists.mp (Value.isNumeric_of_readNumber? hs)
    obtain ⟨i, hi⟩ := hrank
    refine ⟨n, ?_⟩
    simp [promote, hi, Value.convert, Except.bind, Except.map]

/-- Every value equals itself. -/
theorem equal_self (v : Value) : lenient.equal v v = .ok (.boolean true) := by
  cases hv : v.isNull with
  | true =>
    cases v <;> cases hv
    rfl
  | false =>
    by_cases htext : v.kind = .string
    · obtain ⟨s, rfl⟩ := exists_text htext
      obtain ⟨w, hw⟩ := pairTexts_self .equal rfl s
      have hcoerce : lenient.coerce .equal (.string s) (.string s) = .ok (w, w) :=
        (lenientPair_texts (by decide)).trans hw
      show (lenient.coerce .equal (.string s) (.string s)).map _ = _
      rw [hcoerce, ← w.same_self]
      rfl
    · have hequal : lenient.equal v v = .ok (.boolean (v.same v)) :=
        (brings_of_kinds rfl htext).equal hv hv
      rw [hequal, v.same_self]

/-- Membership has an answer, which says whether some item equals the value. -/
theorem exists_contains (v : Value) (items : List Value) :
    ∃ found, lenient.contains (.array items) v = .ok (.boolean found) ∧
      (found = true ↔ ∃ item ∈ items, lenient.equal v item = .ok (.boolean true)) := by
  obtain ⟨found, hfound, hiff⟩ := lenient.toCoercion.exists_anyEqual v
    fun (item : Value) (_ : item ∈ items) => exists_equal v item
  refine ⟨found, ?_, hiff⟩
  show (lenient.anyEqual v items).map _ = _
  rw [hfound]
  rfl

def orders (s : Strategy) : List (Operation × (Value → Value → Except EvalError Value)) :=
  [(.less, s.less), (.lessEqual, s.lessEqual), (.more, s.more), (.moreEqual, s.moreEqual)]

def Unordered (l r : Value) : Prop :=
  l.kind = .array ∧ r.kind = .array ∨ l.kind = .object ∧ r.kind = .object

theorem hasOrder_of_kinds (hl : l.isNull = false) (hkinds : l.kind = r.kind)
    (h : ¬ Unordered l r) : l.kind.hasOrder = true := by
  cases l with
  | null => cases hl
  | object fields => exact absurd (.inr ⟨rfl, hkinds.symm⟩) h
  | array items => exact absurd (.inl ⟨rfl, hkinds.symm⟩) h
  | _ => rfl

/-- Every comparison of two values that stand in an order has an answer. -/
theorem exists_ordering (hl : l.isNull = false) (hr : r.isNull = false)
    (h : ¬ Unordered l r) (hop : op.isComparison = true) (test : Ordering → Bool) :
    ∃ answer, lenient.ordering op test l r = .ok answer := by
  have hpair : ∃ a b, lenient.Brings l r a b ∧ a.kind = b.kind ∧ a.kind.hasOrder = true := by
    by_cases hkinds : l.kind = r.kind ∧ l.kind ≠ .string
    · exact ⟨l, r, brings_of_kinds hkinds.1 hkinds.2, hkinds.1, hasOrder_of_kinds hl hkinds.1 h⟩
    · obtain ⟨a, b, hpair, horder⟩ := settles_lenientPair hl hr (by simpa using hkinds)
      refine ⟨a, b, hpair, ?_, horder⟩
      have hsuits := suits_of_lenientPair hl hr (hpair .less rfl)
      rcases hsuits with (hsame | ⟨-, -, -, -, ⟨hadd, -⟩ | ⟨hsub, -⟩⟩) | ⟨hstrays, -⟩
      · exact hsame
      · cases hadd
      · cases hsub
      · cases hstrays
  obtain ⟨a, b, hbrings, hkinds, horder⟩ := hpair
  obtain ⟨o, ho⟩ := Value.order_of_hasOrder hkinds horder op
  rw [hbrings.ordering hl hr hop, ho]
  exact ⟨_, rfl⟩

/-- No order is found between two arrays or two objects. -/
theorem ordering_of_unordered (h : Unordered l r) (hop : op.isComparison = true)
    (test : Ordering → Bool) :
    lenient.ordering op test l r = .error (.typeMismatch op l.kind r.kind) := by
  have hkinds : l.kind = r.kind ∧ l.kind ≠ .string ∧ l.kind.hasOrder = false ∧
      l.isNull = false ∧ r.isNull = false := by
    rcases h with ⟨hl, hr⟩ | ⟨hl, hr⟩ <;> cases l <;> cases hl <;> cases r <;> cases hr <;>
      exact ⟨rfl, by rintro ⟨⟩, rfl, rfl, rfl⟩
  obtain ⟨hsame, htext, horder, hl, hr⟩ := hkinds
  rw [(brings_of_kinds hsame htext).ordering hl hr hop, Value.order_of_no_hasOrder horder]
  rfl

end Strategy

/-- Whatever two operands one strategy can put in an order, it answers all comparisons of them, and
the answers agree: either they are equal or one of them comes first, and the other three comparisons
are the opposites of these. -/
theorem Strategy.comparisons_cohere {s : Strategy} (hs : s = lenient ∨ s = strict)
    {a b answer : Value} (ha : a.isNull = false) (hb : b.isNull = false)
    (h : s.less a b = .ok answer) :
    ∃ before same behind : Bool,
      s.less a b = .ok (.boolean before) ∧ s.equal a b = .ok (.boolean same) ∧
      s.more a b = .ok (.boolean behind) ∧ [before, same, behind].count true = 1 ∧
      s.lessEqual a b = .ok (.boolean !behind) ∧ s.moreEqual a b = .ok (.boolean !before) ∧
      s.notEqual a b = .ok (.boolean !same) := by
  have hanswers : ∃ c : Coercion, s = c.strategy ∧ ∃ o, c.Answers a b o := by
    rcases hs with rfl | rfl
    · obtain ⟨l, r, hbrings⟩ := exists_brings ha hb
      refine ⟨lenient.toCoercion, rfl, Coercion.answers_of_less (fun l' r' h' => ?_) ha hb h⟩
      obtain ⟨rfl, rfl⟩ : l = l' ∧ r = r' := by
        simpa using (hbrings .less rfl).symm.trans h'
      exact hbrings
    · exact ⟨strict.toCoercion, rfl,
        Coercion.answers_of_less (fun l r => brings_strictPair rfl) ha hb h⟩
  obtain ⟨c, rfl, o, ho⟩ := hanswers
  refine ⟨o.isLT, o == .eq, o.isGT, ho.less, ho.equal, ho.more, ?_, ?_, ?_, ho.notEqual⟩
  · cases o <;> rfl
  · show c.lessEqual a b = _
    rw [ho.lessEqual]
    cases o <;> rfl
  · show c.moreEqual a b = _
    rw [ho.moreEqual]
    cases o <;> rfl

/-- Half a millisecond past the start of 1970 and the count of milliseconds there. -/
theorem Strategy.comparisons_cohere_milliseconds :
    (lenient = lenient ∨ lenient = strict) ∧
      (Value.dateTime ⟨0, 500000, by decide⟩).isNull = false ∧ (Value.long 0).isNull = false ∧
      lenient.less (.dateTime ⟨0, 500000, by decide⟩) (.long 0) = .ok (.boolean false) ∧
      ∃ before same behind : Bool,
        lenient.less (.dateTime ⟨0, 500000, by decide⟩) (.long 0) = .ok (.boolean before) ∧
        lenient.equal (.dateTime ⟨0, 500000, by decide⟩) (.long 0) = .ok (.boolean same) ∧
        lenient.more (.dateTime ⟨0, 500000, by decide⟩) (.long 0) = .ok (.boolean behind) ∧
        [before, same, behind].count true = 1 ∧
        lenient.lessEqual (.dateTime ⟨0, 500000, by decide⟩) (.long 0) = .ok (.boolean !behind) ∧
        lenient.moreEqual (.dateTime ⟨0, 500000, by decide⟩) (.long 0) = .ok (.boolean !before) ∧
        lenient.notEqual (.dateTime ⟨0, 500000, by decide⟩) (.long 0) = .ok (.boolean !same) :=
  ⟨.inl rfl, rfl, rfl, rfl, comparisons_cohere (.inl rfl) rfl rfl rfl⟩

/-- Under the lenient strategy every comparison for equality has an answer, and so has every
question for membership: a value is in an array when it, on the left, equals one of the items,
wherever that item stands. Only two arrays and two objects have no order. -/
theorem Strategy.comparisons_total (a b : Value) :
    (∃ same, lenient.equal a b = .ok (.boolean same)) ∧ lenient.equal a a = .ok (.boolean true) ∧
    (∃ answer, lenient.contains a b = .ok answer) ∧
    (∀ items, ∃ found, lenient.contains (.array items) a = .ok (.boolean found) ∧
      (found = true ↔ ∃ item ∈ items, lenient.equal a item = .ok (.boolean true))) ∧
    (a.isNull = false → b.isNull = false → ∀ order ∈ lenient.orders,
      ((∃ e, order.2 a b = .error e) ↔ Unordered a b) ∧
      ∀ e, order.2 a b = .error e → e = .typeMismatch order.1 a.kind b.kind) := by
  refine ⟨exists_equal a b, equal_self a, ?membership, exists_contains a, ?order⟩
  case membership =>
    cases a with
    | null => exact ⟨.null, rfl⟩
    | array items =>
      obtain ⟨found, hfound, -⟩ := exists_contains b items
      exact ⟨_, hfound⟩
    | _ =>
      obtain ⟨same, hsame⟩ := exists_equal b _
      exact ⟨_, hsame⟩
  case order =>
    intro ha hb order horder
    obtain ⟨op, test, hop, heq⟩ : ∃ op test, op.isComparison = true ∧
        order = (op, lenient.ordering op test) := by
      simp only [orders, List.mem_cons, List.not_mem_nil, or_false] at horder
      rcases horder with rfl | rfl | rfl | rfl <;> exact ⟨_, _, rfl, rfl⟩
    subst heq
    by_cases hunordered : Unordered a b
    · have herror := ordering_of_unordered hunordered hop test
      refine ⟨⟨fun _ => hunordered, fun _ => ⟨_, herror⟩⟩, fun e he => ?_⟩
      exact Except.error.inj (he.symm.trans herror)
    · obtain ⟨answer, hanswer⟩ := exists_ordering ha hb hunordered hop test
      refine ⟨⟨?_, fun h => absurd h hunordered⟩, ?_⟩
      · rintro ⟨e, he⟩
        cases hanswer.symm.trans he
      · intro e he
        cases hanswer.symm.trans he

/-- A length of time beside an array, which are compared as texts, and an array beside another. -/
theorem Strategy.comparisons_total_arrays :
    (Value.array []).isNull = false ∧ (Value.array [.null]).isNull = false ∧
      (Operation.less, lenient.less) ∈ lenient.orders ∧
      lenient.less (.array []) (.array [.null]) = .error (.typeMismatch .less .array .array) ∧
      ∃ same, lenient.equal (.duration .zero) (.array []) = .ok (.boolean same) := by
  have harrays : (Value.array []).isNull = false ∧ (Value.array [.null]).isNull = false := ⟨rfl, rfl⟩
  have hless : (Operation.less, lenient.less) ∈ lenient.orders := List.mem_cons_self
  obtain ⟨hiff, herror⟩ :=
    (comparisons_total (.array []) (.array [.null])).2.2.2.2 harrays.1 harrays.2 _ hless
  obtain ⟨e, he⟩ := hiff.mpr (.inl ⟨rfl, rfl⟩)
  refine ⟨harrays.1, harrays.2, hless, ?_, (comparisons_total _ _).1⟩
  rw [herror e he] at he
  exact he

end Formulary
