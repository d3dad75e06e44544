import Formulary.Library.Choice
import Formulary.Proofs.Strategy.Ranking

/-!
# The least and the greatest argument

The value that stays after each of the others took its place if it was better leads the values seen
so far: it is better than all in front of it, and none behind it is better. One more value keeps
that so, because the comparison is one order. At the end the value is the first one that no other is
better than, with the kind that it had as an argument.
-/

namespace Formulary.Library

variable {better : Value → Value → Except EvalError Value} {order : Value → Value → Ordering}
  {seen rest vs : List Value} {first v : Value}

/-- No value of the list is better. -/
def Unbeaten (better : Value → Value → Except EvalError Value) (vs : List Value) (v : Value) :
    Prop :=
  ∀ w ∈ vs, better w v = .ok (.boolean false)

/-- The value is the first of the list that no value of the list is better than. -/
def Wins (better : Value → Value → Except EvalError Value) (vs : List Value) (v : Value) : Prop :=
  ∃ front back, vs = front ++ v :: back ∧ Unbeaten better vs v ∧
    ∀ u ∈ front, ¬ Unbeaten better vs u

/-- The value comes before all in front of it, and none behind it comes before it. -/
def Leads (order : Value → Value → Ordering) (vs : List Value) (v : Value) : Prop :=
  ∃ front back, vs = front ++ v :: back ∧ (∀ u ∈ front, order v u = .lt) ∧
    ∀ w ∈ back, (order v w).isLE = true

/-- The comparison says which of two values comes before the other. -/
def Follows (better : Value → Value → Except EvalError Value) (order : Value → Value → Ordering)
    (vs : List Value) : Prop :=
  ∀ v ∈ vs, ∀ w ∈ vs, better v w = .ok (.boolean (order v w).isLT)

section

variable [Std.TransCmp order]

theorem isLE_iff {v w : Value} : (order v w).isLE = true ↔ (order w v).isLT = false := by
  have hswap : order w v = (order v w).swap := Std.OrientedCmp.eq_swap
  rw [hswap]
  cases order v w <;> decide

theorem Leads.isLE (h : Leads order vs v) : ∀ w ∈ vs, (order v w).isLE = true := by
  obtain ⟨front, back, rfl, hfront, hback⟩ := h
  intro w hw
  rcases List.mem_append.mp hw with hmem | hmem
  · rw [hfront w hmem]
    rfl
  · rcases List.mem_cons.mp hmem with rfl | hmem
    · have hself : order w w = .eq := Std.ReflCmp.compare_self
      rw [hself]
      rfl
    · exact hback w hmem

/-- One value more either takes the lead from all that were seen or comes to stand behind. -/
theorem Leads.concat (h : Leads order seen first) (v : Value) :
    Leads order (seen ++ [v]) (if (order v first).isLT then v else first) := by
  cases hbetter : (order v first).isLT with
  | true =>
    have hless : order v first = .lt := Ordering.isLT_iff_eq_lt.mp hbetter
    refine ⟨seen, [], rfl, fun u hu => ?_, nofun⟩
    exact Std.TransCmp.lt_of_lt_of_isLE hless (h.isLE u hu)
  | false =>
    obtain ⟨front, back, rfl, hfront, hback⟩ := h
    refine ⟨front, back ++ [v], by simp, hfront, fun w hw => ?_⟩
    rcases List.mem_append.mp hw with hmem | hmem
    · exact hback w hmem
    · obtain rfl := List.mem_singleton.mp hmem
      exact isLE_iff.mpr hbetter

/-- The search for the best one keeps the value that leads so far. -/
theorem Leads.best (h : Leads order seen first) (hfollows : Follows better order (seen ++ rest)) :
    ∃ v, best better first rest = .ok v ∧ Leads order (seen ++ rest) v := by
  induction rest generalizing seen first with
  | nil => exact ⟨first, rfl, by simpa using h⟩
  | cons v rest ih =>
    have hanswer : better v first = .ok (.boolean (order v first).isLT) := by
      obtain ⟨front, back, rfl, -⟩ := h
      exact hfollows v (by simp) first (by simp)
    have happend : seen ++ v :: rest = (seen ++ [v]) ++ rest := by simp
    rw [happend] at hfollows ⊢
    obtain ⟨last, hlast, hleads⟩ := ih (h.concat v) hfollows
    refine ⟨last, ?_, hleads⟩
    rw [Library.best, hanswer]
    exact hlast

/-- What leads wins. -/
theorem Leads.wins (h : Leads order vs v) (hfollows : Follows better order vs) :
    Wins better vs v := by
  have hleast := h.isLE
  obtain ⟨front, back, rfl, hfront, -⟩ := h
  have hv : v ∈ front ++ v :: back := by simp
  refine ⟨front, back, rfl, fun w hw => ?_, fun u hu hunbeaten => ?_⟩
  · rw [hfollows w hw v hv, isLE_iff.mp (hleast w hw)]
  · have hbeats := hfollows v hv u (List.mem_append_left _ hu)
    rw [hunbeaten v hv, hfront u hu] at hbeats
    cases hbeats

theorem Follows.wins (hfollows : Follows better order (first :: rest)) :
    ∃ v, best better first rest = .ok v ∧ Wins better (first :: rest) v := by
  have hleads : Leads order [first] first := ⟨[], [], rfl, nofun, nofun⟩
  obtain ⟨v, hv, hlast⟩ := hleads.best hfollows
  exact ⟨v, hv, hlast.wins hfollows⟩

end

theorem body_fold (name : String) (apply : Strategy → Value → List Value → Except EvalError Value)
    (s : Strategy) (h : 2 ≤ (first :: rest).length) :
    (fold name apply).body (first :: rest) s = apply s first rest :=
  if_pos (decide_eq_true h)

/-- Of two or more values that a strategy compares by one order, `Min` gives the first that none is
less than, and `Max` the first that none is more than. -/
theorem extremes_select {s : Strategy} (hs : s = .lenient ∨ s = .strict) (h : s.Compares vs)
    (hlength : 2 ≤ vs.length) :
    (∃ v, min.body vs s = .ok v ∧ Wins s.less vs v) ∧
      ∃ v, max.body vs s = .ok v ∧ Wins s.more vs v := by
  obtain ⟨c, α, _, _, rank, rfl, hranks⟩ := h.exists_ranks hs
  obtain ⟨first, rest, rfl⟩ : ∃ first rest, vs = first :: rest :=
    List.exists_cons_of_length_pos (by omega)
  have hrising : Std.TransCmp fun v w => compare (rank v) (rank w) :=
    { eq_swap := Std.OrientedCmp.eq_swap, isLE_trans := Std.TransCmp.isLE_trans }
  have hfalling : Std.TransCmp fun v w => compare (rank w) (rank v) := Std.TransCmp.opposite
  have hless : Follows c.less (fun v w => compare (rank v) (rank w)) (first :: rest) := hranks.less
  have hmore : Follows c.more (fun v w => compare (rank w) (rank v)) (first :: rest) := by
    intro v hv w hw
    have hswap : compare (rank w) (rank v) = (compare (rank v) (rank w)).swap :=
      Std.OrientedCmp.eq_swap
    change c.more v w = .ok (.boolean (compare (rank w) (rank v)).isLT)
    rw [hswap, Ordering.isLT_swap]
    exact hranks.more v hv w hw
  have hmin : min.body (first :: rest) c.strategy = best c.less first rest :=
    body_fold _ _ _ hlength
  have hmax : max.body (first :: rest) c.strategy = best c.more first rest :=
    body_fold _ _ _ hlength
  rw [hmin, hmax]
  exact ⟨hless.wins, hmore.wins⟩

/-- Equal numbers of both widths, where the first of them is taken. -/
theorem extremes_select_widths :
    let vs : List Value := [.integer 3, .long 1, .integer 1, .long 3]
    (Strategy.lenient = .lenient ∨ Strategy.lenient = .strict) ∧ Strategy.lenient.Compares vs ∧
      2 ≤ vs.length ∧
      (min.body vs .lenient = .ok (.long 1) ∧ Wins Strategy.lenient.less vs (.long 1)) ∧
      max.body vs .lenient = .ok (.integer 3) ∧ Wins Strategy.lenient.more vs (.integer 3) := by
  intro vs
  have hwholes : Strategy.lenient.Compares vs := .wholes (by simp [vs, Value.kind])
  obtain ⟨⟨v, hmin, hleast⟩, w, hmax, hgreatest⟩ :=
    extremes_select (.inl rfl) hwholes (by decide)
  obtain rfl : .long 1 = v := Except.ok.inj hmin
  obtain rfl : .integer 3 = w := Except.ok.inj hmax
  exact ⟨.inl rfl, hwholes, by decide, ⟨hmin, hleast⟩, hmax, hgreatest⟩

end Formulary.Library
