import Formulary.Expr.Basic
import Formulary.Proofs.Number.Rounding
import Formulary.Proofs.Strategy.Absence
import Formulary.Proofs.Strategy.Matching

/-!
# What the lenient strategy adds

Away from strings, the lenient strategy finds whatever the strict one finds. The operators are the
same for both, so this is a matter of the two conversions and the two ways to bring operands
together. One conversion stands apart: the lenient one makes a single of an integer of 64 bits by
way of a double and so rounds twice. Below `2 ^ 53` that makes no difference.
-/

namespace Formulary

/-- A whole number of which rounding twice makes the same single as rounding once. -/
def Binary.RoundsAlike (n : Int) : Prop :=
  (ofDouble (ofInt n).toDouble).toSingle = (ofInt n).toSingle

namespace Value

/-- A value that is not rounded twice to something else on the way to a kind. -/
def SteadyAs (v : Value) (target : Kind) : Prop :=
  ∀ n, v = .long n → target = .float → Binary.RoundsAlike n.toInt

/-- Two values neither of which is rounded twice to something else beside the other. -/
def SteadyBeside (l r : Value) : Prop := l.SteadyAs r.kind ∧ r.SteadyAs l.kind

end Value

/-- What membership looks through: the items of an array, and anything else as a whole. -/
def Value.members (v : Value) : List Value := v.items?.getD [v]

/-- The values that an operation brings together with its left operand. -/
def BinaryOperation.partners : BinaryOperation → Value → List Value
  | operator .member, right | notMember, right => right.members
  | _, right => [right]

/-- What the first finds, the second finds as well. -/
def Refines {α : Type} (x y : Except EvalError α) : Prop := ∀ a, x = .ok a → y = .ok a

namespace Refines

variable {α β : Type} {x y : Except EvalError α}

theorem refl (x : Except EvalError α) : Refines x x := fun _ => id

theorem bind {f g : α → Except EvalError β} (h : Refines x y) (hfg : ∀ a, Refines (f a) (g a)) :
    Refines (x.bind f) (y.bind g) := by
  intro b hb
  obtain ⟨a, ha, hf⟩ := of_bind_ok hb
  rw [h a ha]
  exact hfg a b hf

theorem map (f : α → β) (h : Refines x y) : Refines (x.map f) (y.map f) := by
  intro b hb
  obtain ⟨a, ha, hf⟩ := of_map_ok hb
  rw [h a ha, ← hf]
  rfl

end Refines

namespace Coercion

variable {c d : Coercion} {op : Operation} {l r : Value}

theorem binary_refines (apply : Value → Value → Except EvalError Value)
    (h : Refines (c.coerce op l r) (d.coerce op l r)) :
    Refines (c.binary op apply l r) (d.binary op apply l r) := by
  unfold binary
  split
  · exact .refl _
  · exact h.bind fun _ => .refl _

theorem ordering_refines (test : Ordering → Bool)
    (h : Refines (c.coerce op l r) (d.coerce op l r)) :
    Refines (c.ordering op test l r) (d.ordering op test l r) := binary_refines _ h

theorem equal_refines (h : Refines (c.coerce .equal l r) (d.coerce .equal l r)) :
    Refines (c.equal l r) (d.equal l r) := by
  unfold equal
  split
  case h_4 => exact h.map _
  all_goals exact .refl _

theorem anyEqual_refines {items : List Value}
    (h : ∀ item ∈ items, Refines (c.coerce .equal l item) (d.coerce .equal l item)) :
    Refines (c.anyEqual l items) (d.anyEqual l items) := by
  induction items with
  | nil => exact .refl _
  | cons item rest ih =>
    unfold anyEqual
    refine (equal_refines (h item List.mem_cons_self)).bind fun answer => ?_
    split
    · exact .refl _
    · exact ih fun other hother => h other (List.mem_cons_of_mem _ hother)

theorem contains_refines
    (h : ∀ v ∈ r.members, Refines (c.coerce .equal l v) (d.coerce .equal l v)) :
    Refines (c.contains r l) (d.contains r l) := by
  cases r with
  | null => exact .refl _
  | array items => exact (anyEqual_refines h).map _
  | _ => exact equal_refines (h _ List.mem_cons_self)

theorem index_refines (h : r.isNull = false → Refines (c.convert r .long) (d.convert r .long)) :
    Refines (c.index r) (d.index r) := by
  unfold index
  split
  case h_4 => exact .refl _
  all_goals exact (h rfl).bind fun _ => .refl _

theorem element_refines (h : r.isNull = false → Refines (c.convert r .long) (d.convert r .long)) :
    Refines (c.element l r) (d.element l r) := by
  unfold element
  split
  · exact .refl _
  · exact (index_refines h).bind fun _ => .refl _

theorem like_refines
    (h : ∀ v : Value, v.isNull = false → Refines (c.convert v .string) (d.convert v .string)) :
    Refines (c.like l r) (d.like l r) := by
  unfold like
  split
  case isTrue => exact .refl _
  case isFalse hsome =>
    obtain ⟨hl, hr⟩ : l.isNull = false ∧ r.isNull = false := by simpa using hsome
    exact (h l hl).bind fun _ => (h r hr).bind fun _ => .refl _

/-- An operation goes the way of the conversion and of what brings its operands together. -/
theorem apply_refines (op : BinaryOperation)
    (hcoerce : ∀ operation, ∀ v ∈ op.partners r,
      Refines (c.coerce operation l v) (d.coerce operation l v))
    (hconvert : ∀ (v : Value) (target : Kind), v.isNull = false → target ≠ .float →
      Refines (c.convert v target) (d.convert v target)) :
    Refines (op.apply c.strategy l r) (op.apply d.strategy l r) := by
  have hlike : Refines (c.like l r) (d.like l r) :=
    like_refines fun v hv => hconvert v _ hv (by decide)
  cases op with
  | notMember => exact (contains_refines (hcoerce .equal)).map _
  | notLike => exact hlike.map _
  | element => exact element_refines fun hr => hconvert r _ hr (by decide)
  | operator op =>
    cases op with
    | member => exact contains_refines (hcoerce .equal)
    | like => exact hlike
    | equal => exact equal_refines (hcoerce _ r List.mem_cons_self)
    | notEqual => exact (equal_refines (hcoerce _ r List.mem_cons_self)).map _
    | less | lessEqual | more | moreEqual =>
      exact ordering_refines _ (hcoerce _ r List.mem_cons_self)
    | _ => exact binary_refines _ (hcoerce _ r List.mem_cons_self)

theorem unary_refines {v : Value} (op : UnaryOperation)
    (h : ∀ text target,
      Refines (c.convert (.string text) target) (d.convert (.string text) target)) :
    Refines (op.apply c.strategy v) (op.apply d.strategy v) := by
  cases v with
  | string text =>
    cases op with
    | not => exact Refines.bind (h _ _) fun _ => .refl _
    | negative => exact Refines.bind (h _ _) fun _ => .refl _
    | isNull | isNotNull => exact .refl _
  | _ => cases op <;> exact Refines.refl _

end Coercion

namespace Value

variable {v w l r : Value} {target : Kind}

theorem roundsAlike_toInt (n : Int32) : Binary.RoundsAlike n.toInt := by
  have hlow := n.le_toInt
  have hhigh := n.toInt_lt
  exact Binary.toSingle_ofDouble_toDouble_ofInt (by omega)

theorem steadyAs_kind (v : Value) : v.SteadyAs v.kind := by
  rintro n rfl ⟨⟩

/-- What widening finds, conversion finds, unless it rounds twice to something else. -/
theorem convert_of_widen (hv : v.isNull = false) (hsteady : v.SteadyAs target) :
    Refines (v.widen target) (v.convert target) := by
  intro w h
  unfold widen at h
  split at h
  case isTrue hnull =>
    cases h
    subst hnull
    cases v with
    | null => cases hv
    | _ => rfl
  case isFalse =>
    split at h
    case isTrue hsame =>
      cases h
      exact if_pos (hsame.resolve_right (by simp [hv]))
    case isFalse =>
      split at h
      case h_2 n _ _ =>
        rw [← h, ← roundsAlike_toInt n]
        rfl
      case h_4 n _ _ =>
        rw [← h, ← hsteady n rfl rfl]
        rfl
      case h_7 => cases h
      all_goals
        rw [← h]
        rfl

end Value

theorem promote_refines {l r : Value} {pair : Value × Value} (hsteady : l.SteadyBeside r)
    (h : promote Value.widen l r = some (.ok pair)) :
    promote Value.convert l r = some (.ok pair) := by
  unfold promote at h ⊢
  split at h
  case h_2 => cases h
  case h_1 i j hi hj =>
    have hl : l.isNull = false := by cases l <;> first | rfl | cases hi
    have hr : r.isNull = false := by cases r <;> first | rfl | cases hj
    have htarget (target : Kind) (hchosen : target = l.kind ∨ target = r.kind) :
        l.SteadyAs target ∧ r.SteadyAs target := by
      rcases hchosen with rfl | rfl
      · exact ⟨l.steadyAs_kind, hsteady.2⟩
      · exact ⟨hsteady.1, r.steadyAs_kind⟩
    obtain ⟨hleft, hright⟩ := htarget (if i ≥ j then l.kind else r.kind) (by split <;> simp)
    have hpair := (Value.convert_of_widen hl hleft).bind fun a =>
      (Value.convert_of_widen hr hright).map fun b => (a, b)
    exact congrArg some (hpair pair (Option.some.inj h))

namespace Strategy

variable {op : Operation} {l r : Value}

/-- Operands that the strict coercion finds are those that the lenient one finds, unless one of them
is rounded twice. -/
theorem coerce_refines (hl : l.kind ≠ .string) (hsteady : l.SteadyBeside r) :
    Refines (strictPair op l r) (lenientPair op l r) := by
  intro pair h
  cases htimes : isTemporalPair op l r with
  | true =>
    rw [strictPair, if_pos (.inr htimes)] at h
    rw [← h]
    exact if_pos htimes
  | false =>
    rw [lenientPair_eq_pairMixed htimes fun htext => absurd htext hl]
    by_cases hkinds : l.kind = r.kind
    · rw [strictPair, if_pos (.inl hkinds)] at h
      rw [pairMixed_of_kinds hkinds, h]
    · rw [strictPair, if_neg (by simp [hkinds, htimes])] at h
      exact pairMixed_of_promote hkinds (promote_refines hsteady (of_getD_ok h))

end Strategy

/-- Where the strict strategy has a result, the lenient one has the same. Operations on two values
ask that the left one is no string, so this holds wherever there is no string at all. An integer of
64 bits must not be brought to a single that it is rounded to in two ways, which takes one of more
than 53 places. -/
theorem Strategy.lenient_extends_strict (v : Value) :
    (∀ (op : BinaryOperation) (right : Value), v.kind ≠ .string →
      (∀ w ∈ op.partners right, v.SteadyBeside w) →
      ∀ answer, op.apply strict v right = .ok answer → op.apply lenient v right = .ok answer) ∧
    (∀ (op : UnaryOperation) (answer : Value), op.apply strict v = .ok answer →
      op.apply lenient v = .ok answer) ∧
    (∀ target : Kind, v.isNull = false → v.SteadyAs target →
      ∀ answer, strict.convert v target = .ok answer → lenient.convert v target = .ok answer) ∧
    ((∀ n, v = .long n → n.toInt.natAbs < 2 ^ 53) → ∀ target, v.SteadyAs target) := by
  refine ⟨?binary, ?unary, ?convert, ?steady⟩
  case binary =>
    intro op right hv hsteady
    refine Coercion.apply_refines op (fun operation w hw => ?_) fun w target hw htarget => ?_
    · exact coerce_refines hv (hsteady w hw)
    · exact Value.convert_of_widen hw fun n _ hfloat => absurd hfloat htarget
  case unary =>
    intro op
    exact Coercion.unary_refines op fun text target =>
      Value.convert_of_widen rfl fun n hn => by cases hn
  case convert => exact fun target => Value.convert_of_widen
  case steady =>
    exact fun hsmall target n hn _ => Binary.toSingle_ofDouble_toDouble_ofInt (hsmall n hn)

/-- The sum of an integer of 64 bits and a single. -/
theorem Strategy.lenient_extends_strict_sum :
    (Value.long 1).kind ≠ .string ∧
      (∀ w ∈ (BinaryOperation.operator .add).partners (.float 2), (Value.long 1).SteadyBeside w) ∧
      (BinaryOperation.operator .add).apply lenient (.long 1) (.float 2) =
        .ok (.float ((Binary.ofInt 1).toSingle + 2)) := by
  obtain ⟨hbinary, -, -, hsmall⟩ := lenient_extends_strict (.long 1)
  have hstring : (Value.long 1).kind ≠ .string := by decide
  have hsteady : ∀ w ∈ (BinaryOperation.operator .add).partners (.float 2),
      (Value.long 1).SteadyBeside w := by
    intro w hw
    cases List.mem_singleton.mp hw
    refine ⟨hsmall (fun n hn => ?_) _, fun n hn => by cases hn⟩
    cases hn
    decide
  exact ⟨hstring, hsteady, hbinary _ _ hstring hsteady _ rfl⟩

/-- An integer of 64 bits that lies just above the middle between two singles. The nearest double is
that middle, and its even neighbour is the smaller single. -/
theorem Strategy.convert_rounds_twice :
    ∃ x y : Float32,
      strict.convert (.long 1152921573326323713) .float = .ok (.float x) ∧
      lenient.convert (.long 1152921573326323713) .float = .ok (.float y) ∧ x ≠ y :=
  ⟨_, _, rfl, rfl, by decide +kernel⟩

end Formulary
