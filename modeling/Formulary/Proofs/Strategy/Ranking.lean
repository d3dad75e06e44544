import Formulary.Proofs.Strategy.Comparing
import Formulary.Proofs.Strategy.Whole

/-!
# Values in one order

Whole numbers of both widths have one order, and so have the truth values, the dates and the
durations, because a comparison leaves the numbers and the values of one kind what they are. Texts
have one order only where none of them is read as a number. Within such values a comparison answers
by their ranks, so that what it says of two pairs it says of the third.
-/

namespace Formulary

/-- The place of an instant among all others, those in leap seconds included. -/
def Instant.rank (t : Instant) : Int := t.seconds * 2000000000 + t.nanos

/-- Instants are ordered by their ranks. -/
theorem Instant.order_eq_compare (t u : Instant) : t.order u = compare t.rank u.rank := by
  have ht := t.inRange
  have hu := u.inRange
  unfold rank
  rcases hcase : t.order u with _ | _ | _
  · rw [order_eq_lt_iff] at hcase
    exact (Int.compare_eq_lt.mpr (by omega)).symm
  · rw [order_eq_eq_iff] at hcase
    subst hcase
    exact (Int.compare_eq_eq.mpr rfl).symm
  · rw [order_eq_gt_iff] at hcase
    exact (Int.compare_eq_gt.mpr (by omega)).symm

/-- Values that a strategy compares by one order: whole numbers of both widths, values of a kind
that nothing is converted for, and texts where they are taken as they are. -/
inductive Strategy.Compares (s : Strategy) (vs : List Value) : Prop
  | wholes (h : ∀ v ∈ vs, v.kind = .integer ∨ v.kind = .long)
  | booleans (h : ∀ v ∈ vs, v.kind = .boolean)
  | dateTimes (h : ∀ v ∈ vs, v.kind = .dateTime)
  | durations (h : ∀ v ∈ vs, v.kind = .duration)
  | strings (hs : s = strict) (h : ∀ v ∈ vs, v.kind = .string)

namespace Coercion

variable {c : Coercion} {vs : List Value} {α : Type} [Ord α] {rank : Value → α} {l r : Value}

structure Ranks (c : Coercion) (rank : Value → α) (vs : List Value) : Prop where
  less : ∀ v ∈ vs, ∀ w ∈ vs, c.less v w = .ok (.boolean (compare (rank v) (rank w)).isLT)
  more : ∀ v ∈ vs, ∀ w ∈ vs, c.more v w = .ok (.boolean (compare (rank v) (rank w)).isGT)

theorem Ranks.of_ordering (h : ∀ v ∈ vs, ∀ w ∈ vs, ∀ (op : Operation) (test : Ordering → Bool),
    op.isComparison = true →
    c.ordering op test v w = .ok (.boolean (test (compare (rank v) (rank w))))) :
    c.Ranks rank vs where
  less v hv w hw := h v hv w hw .less _ rfl
  more v hv w hw := h v hv w hw .more _ rfl

def Leaves (c : Coercion) (k : Kind) : Prop :=
  ∀ l r : Value, l.kind = k → r.kind = k → c.Brings l r l r

/-- The order of values that are compared as they are is the order within their kind. -/
theorem Leaves.ranks {β : Type} {k : Kind} (hc : c.Leaves k) (wrap : β → Value)
    (hwrap : ∀ v : Value, v.kind = k → ∃ b, v = wrap b) (hnull : ∀ b, (wrap b).isNull = false)
    (horder : ∀ a b, Value.order .less (wrap a) (wrap b) =
      .ok (compare (rank (wrap a)) (rank (wrap b))))
    (h : ∀ v ∈ vs, v.kind = k) : c.Ranks rank vs := by
  refine .of_ordering fun v hv w hw op test hop => ?_
  have hbrings := hc v w (h v hv) (h w hw)
  obtain ⟨a, rfl⟩ := hwrap v (h v hv)
  obtain ⟨b, rfl⟩ := hwrap w (h w hw)
  rw [hbrings.ordering (hnull a) (hnull b) hop, Value.order_congr (horder a b) op]
  rfl

/-- Two integers compare as the numbers that they are. -/
theorem WidensIntegers.ordering (hc : c.WidensIntegers) {j k : Kind} {m n : Int}
    (hl : l.Whole j m) (hr : r.Whole k n) (op : Operation) (test : Ordering → Bool) :
    c.ordering op test l r = .ok (.boolean (test (compare m n))) := by
  obtain ⟨a, b, hpair, ha, hb⟩ := hc.binary hl hr op fun a b =>
    (Value.order op a b).map fun order => .boolean (test order)
  refine hpair.trans ?_
  rcases ha.both hb with ⟨x, y, rfl, rfl, -, rfl, rfl⟩ | ⟨x, y, rfl, rfl, -, rfl, rfl⟩ <;> rfl

theorem WidensIntegers.ranks (hc : c.WidensIntegers)
    (h : ∀ v ∈ vs, v.kind = .integer ∨ v.kind = .long) :
    c.Ranks (fun v => v.int?.getD 0) vs := by
  have hwhole (v : Value) (hv : v ∈ vs) : v.Whole v.kind (v.int?.getD 0) := by
    rcases h v hv with hkind | hkind <;> cases v <;> cases hkind <;> exact ⟨rfl, rfl⟩
  exact .of_ordering fun v hv w hw op test _ => hc.ordering (hwhole v hv) (hwhole w hw) op test

end Coercion

namespace Strategy

variable {s : Strategy} {vs : List Value}

theorem strict_leaves (k : Kind) : strict.toCoercion.Leaves k := fun _ _ hl hr _ _ =>
  if_pos (.inl (hl.trans hr.symm))

theorem lenient_leaves {k : Kind} (hk : k ≠ .string) : lenient.toCoercion.Leaves k :=
  fun _ _ hl hr => brings_of_kinds (hl.trans hr.symm) fun htext => hk (hl.symm.trans htext)

theorem exists_coercion (hs : s = lenient ∨ s = strict) : ∃ c : Coercion, s = c.strategy ∧
    c.WidensIntegers ∧ ∀ k : Kind, k ≠ .string ∨ s = strict → c.Leaves k := by
  rcases hs with rfl | rfl
  · refine ⟨lenient.toCoercion, rfl, lenient_widensIntegers, fun k hk => ?_⟩
    rcases hk with hk | hsame
    · exact lenient_leaves hk
    · have hcoercion : lenient.toCoercion = strict.toCoercion := congrArg toCoercion hsame
      exact hcoercion ▸ strict_leaves k
  · exact ⟨_, rfl, strict_widensIntegers, fun k _ => strict_leaves k⟩

/-- Values that have one order are ranked by it. -/
theorem Compares.exists_ranks (hs : s = lenient ∨ s = strict) (h : s.Compares vs) :
    ∃ (c : Coercion) (α : Type) (_ : Ord α) (_ : Std.TransOrd α) (rank : Value → α),
      s = c.strategy ∧ c.Ranks rank vs := by
  obtain ⟨c, hc, hwidens, hleaves⟩ := exists_coercion hs
  cases h with
  | wholes h => exact ⟨c, Int, inferInstance, inferInstance, _, hc, hwidens.ranks h⟩
  | booleans h =>
    exact ⟨c, Nat, inferInstance, inferInstance, fun v => (v.bool?.getD false).toNat, hc,
      (hleaves .boolean (.inl (by decide))).ranks .boolean
        (fun v hv => by cases v <;> cases hv; exact ⟨_, rfl⟩) (fun _ => rfl) (fun _ _ => rfl) h⟩
  | dateTimes h =>
    exact ⟨c, Int, inferInstance, inferInstance, fun v => v.dateTime?.elim 0 Instant.rank, hc,
      (hleaves .dateTime (.inl (by decide))).ranks .dateTime
        (fun v hv => by cases v <;> cases hv; exact ⟨_, rfl⟩) (fun _ => rfl)
        (fun t u => congrArg Except.ok (t.order_eq_compare u)) h⟩
  | durations h =>
    exact ⟨c, Int, inferInstance, inferInstance, fun v => v.duration?.elim 0 Span.nanos, hc,
      (hleaves .duration (.inl (by decide))).ranks .duration
        (fun v hv => by cases v <;> cases hv; exact ⟨_, rfl⟩) (fun _ => rfl) (fun _ _ => rfl) h⟩
  | strings hstrict h =>
    exact ⟨c, String, inferInstance, inferInstance, fun v => v.string?.getD "", hc,
      (hleaves .string (.inr hstrict)).ranks .string
        (fun v hv => exists_text hv) (fun _ => rfl) (fun _ _ => rfl) h⟩

end Strategy

end Formulary
