import Formulary.Proofs.Strategy.Absence

/-!
# Operators see nothing of the expression

Operators see values and never know which names of an expression they came from, nor who called
them. None of them answers with an error about that, as long as the coercion that it follows from
does not; and neither of the two coercions does.
-/

namespace Formulary

/-- Whether an error is about a name of an expression or about the number of arguments of a call. -/
def EvalError.isStructural : EvalError → Bool
  | unresolvedVariable .. | unknownFunction .. | wrongArgumentCount .. | partialsNotSupported .. =>
    true
  | _ => false

/-- An outcome that is not an error about names or numbers of arguments. -/
def Discreet {α : Type} (outcome : Except EvalError α) : Prop :=
  ∀ e, outcome = .error e → e.isStructural = false

namespace Discreet

variable {α β : Type} {x : Except EvalError α}

@[simp] theorem ok (a : α) : Discreet (.ok a : Except EvalError α) := fun _ h => by cases h

@[simp] theorem error_iff {e : EvalError} :
    Discreet (.error e : Except EvalError α) ↔ e.isStructural = false :=
  ⟨fun h => h e rfl, fun h _ he => Except.error.inj he ▸ h⟩

@[simp] theorem map_iff {f : α → β} : Discreet (x.map f) ↔ Discreet x := by
  cases x with
  | error e => exact error_iff.trans error_iff.symm
  | ok a => exact iff_of_true (ok _) (ok a)

theorem bind {f : α → Except EvalError β} (hx : Discreet x) (hf : ∀ a, Discreet (f a)) :
    Discreet (x.bind f) := by
  cases x with
  | error e => exact error_iff.mpr (error_iff.mp hx)
  | ok a => exact hf a

theorem elim {o : Option β} {e : EvalError} {f : β → Except EvalError α}
    (he : e.isStructural = false) (hf : ∀ b, Discreet (f b)) :
    Discreet (o.elim (.error e) f) := by
  cases o with
  | none => exact error_iff.mpr he
  | some b => exact hf b

end Discreet

/-! Values -/

namespace Value

variable (op : Operation) (l r : Value)

@[simp] theorem isStructural_mismatch :
    (mismatch op l r).isStructural = false := rfl

@[simp] theorem isStructural_refuse (target : Kind) (obstacle : Obstacle) :
    (l.refuse target obstacle).isStructural = false := rfl

@[simp] theorem discreet_fitting {α : Type} (wrap : α → Value) (x : Option α) :
    Discreet (fitting op wrap x) := by
  cases x with
  | none => exact Discreet.error_iff.mpr rfl
  | some a => exact .ok _

@[simp] theorem discreet_fitInteger (n : Int) : Discreet (fitInteger op n) :=
  discreet_fitting op _ _

@[simp] theorem discreet_fitLong (n : Int) : Discreet (fitLong op n) :=
  discreet_fitting op _ _

theorem discreet_quotient {fit : Operation → Int → Except EvalError Value}
    (hfit : ∀ op n, Discreet (fit op n)) (m n : Int) : Discreet (quotient fit m n) := by
  unfold quotient
  split
  · exact Discreet.error_iff.mpr rfl
  · exact hfit _ _

theorem discreet_leftover {fit : Operation → Int → Except EvalError Value}
    (hfit : ∀ op n, Discreet (fit op n)) (m n : Int) : Discreet (leftover fit m n) := by
  unfold leftover
  split
  · exact Discreet.error_iff.mpr rfl
  · exact (hfit _ _).bind fun _ => hfit _ _

theorem discreet_add : Discreet (add l r) := by
  unfold add
  split <;> simp

theorem discreet_sub : Discreet (sub l r) := by
  unfold sub
  split <;> simp

theorem discreet_mul : Discreet (mul l r) := by
  unfold mul
  split <;> simp

theorem discreet_div : Discreet (div l r) := by
  unfold div
  split
  · exact discreet_quotient discreet_fitInteger _ _
  · exact discreet_quotient discreet_fitLong _ _
  all_goals simp

theorem discreet_rem : Discreet (rem l r) := by
  unfold rem
  split
  · exact discreet_leftover discreet_fitInteger _ _
  · exact discreet_leftover discreet_fitLong _ _
  all_goals simp

theorem discreet_pow : Discreet (pow l r) := by
  unfold pow
  split <;> simp

theorem discreet_shift : Discreet (shift op l r) := by
  unfold shift
  split
  · split
    · split
      · split <;> simp [EvalError.isStructural]
      · split <;> simp [EvalError.isStructural]
      · simp
    · simp
  · simp

theorem discreet_and : Discreet (and l r) := by
  unfold and
  split <;> simp

theorem discreet_or : Discreet (or l r) := by
  unfold or
  split <;> simp

theorem discreet_xor : Discreet (xor l r) := by
  unfold xor
  split <;> simp

theorem discreet_not : Discreet (not l) := by
  unfold not
  split <;> simp [EvalError.isStructural]

theorem discreet_negate : Discreet (negate l) := by
  unfold negate
  split <;> simp [EvalError.isStructural]

theorem discreet_order : Discreet (order op l r) := by
  unfold order
  split <;> simp

theorem discreet_widen (target : Kind) : Discreet (l.widen target) := by
  unfold widen
  split
  · exact .ok _
  · split
    · exact .ok _
    · split <;> simp

@[simp] theorem discreet_found (target : Kind) (result : Except Obstacle Value) :
    Discreet (l.found target result) := by
  cases result with
  | error obstacle => exact Discreet.error_iff.mpr rfl
  | ok v => exact .ok v

theorem discreet_convert (target : Kind) : Discreet (l.convert target) := by
  unfold convert
  split
  · exact .ok l
  · split <;> try split
    all_goals simp

end Value

/-! Coercions -/

/-- A coercion that sees nothing of the expression. -/
structure Coercion.Discreet (c : Coercion) : Prop where
  convert : ∀ v target, Formulary.Discreet (c.convert v target)
  coerce : ∀ op l r, Formulary.Discreet (c.coerce op l r)

theorem discreet_promote {convert : Value → Kind → Except EvalError Value}
    (hconvert : ∀ v target, Discreet (convert v target)) {l r : Value}
    {result : Except EvalError (Value × Value)} (h : promote convert l r = some result) :
    Discreet result := by
  unfold promote at h
  split at h
  · cases h
    exact (hconvert _ _).bind fun a => Discreet.map_iff.mpr (hconvert _ _)
  · cases h

theorem discreet_promote_getD {convert : Value → Kind → Except EvalError Value}
    (hconvert : ∀ v target, Discreet (convert v target)) {l r : Value}
    {other : Except EvalError (Value × Value)} (hother : Discreet other) :
    Discreet ((promote convert l r).getD other) := by
  cases h : promote convert l r with
  | none => exact hother
  | some result => exact discreet_promote hconvert h

namespace Strategy

theorem discreet_pairTexts (op : Operation) (s t : String) : Discreet (pairTexts op s t) := by
  unfold pairTexts
  extract_lets unread
  have hunread : Discreet unread := by
    unfold unread
    split
    · exact (Value.discreet_convert _ _).bind fun a =>
        Discreet.map_iff.mpr (Value.discreet_convert _ _)
    · split <;> simp
  split
  · exact discreet_promote_getD Value.discreet_convert hunread
  · exact hunread

theorem discreet_pairTextNumber (op : Operation) (l r : Value) (text : String) (number : Value)
    (withNumber : Value → Value × Value) :
    Discreet (pairTextNumber op l r text number withNumber) := by
  unfold pairTextNumber
  split
  · exact discreet_promote_getD Value.discreet_convert (Discreet.error_iff.mpr rfl)
  · split
    · exact .ok _
    · exact Discreet.map_iff.mpr (Value.discreet_convert _ _)

theorem discreet_pairByKind (op : Operation) (l r : Value) : Discreet (pairByKind op l r) := by
  unfold pairByKind
  extract_lets byKind
  have hbyKind : Discreet byKind := by
    unfold byKind
    split
    · exact .ok _
    · split
      · exact .ok _
      · split <;> simp
  split
  · split
    · exact .ok _
    · exact hbyKind
  · exact hbyKind

theorem discreet_pairMixed (op : Operation) (l r : Value) : Discreet (pairMixed op l r) := by
  unfold pairMixed
  split
  · exact .ok _
  · split
    · next h => exact discreet_promote Value.discreet_convert h
    · split
      all_goals try split
      all_goals first
        | exact discreet_pairTextNumber op _ _ _ _ _
        | exact discreet_pairByKind op _ _

/-- The lenient coercion sees nothing of the expression. -/
theorem discreet_lenient : lenient.toCoercion.Discreet where
  convert := Value.discreet_convert
  coerce op l r := by
    change Discreet (lenientPair op l r)
    unfold lenientPair
    split
    · exact .ok _
    · split
      · split
        · exact .ok _
        · exact discreet_pairTexts op _ _
      · split
        · exact .ok _
        · exact discreet_pairMixed op _ _
      · exact discreet_pairMixed op _ _

theorem discreet_strict : strict.toCoercion.Discreet where
  convert := Value.discreet_widen
  coerce op l r := by
    change Discreet (strictPair op l r)
    unfold strictPair
    split
    · exact .ok _
    · exact discreet_promote_getD Value.discreet_widen (Discreet.error_iff.mpr rfl)

end Strategy

/-! Operators -/

namespace Coercion.Discreet

variable {c : Coercion} (hc : c.Discreet) (op : Operation) (l r : Value)
include hc

theorem binary {apply : Value → Value → Except EvalError Value}
    (happly : ∀ a b, Formulary.Discreet (apply a b)) :
    Formulary.Discreet (c.binary op apply l r) := by
  unfold Coercion.binary
  split
  · exact .ok _
  · exact (hc.coerce op l r).bind fun pair => happly pair.1 pair.2

theorem ordering (test : Ordering → Bool) : Formulary.Discreet (c.ordering op test l r) :=
  hc.binary op l r fun a b => Discreet.map_iff.mpr (Value.discreet_order op a b)

theorem not : Formulary.Discreet (c.not l) := by
  unfold Coercion.not
  split
  · exact .ok _
  · exact (hc.convert _ _).bind Value.discreet_not
  · exact Value.discreet_not _

theorem negative : Formulary.Discreet (c.negative l) := by
  unfold Coercion.negative
  split
  · exact .ok _
  · exact (hc.convert _ _).bind Value.discreet_negate
  · exact Value.discreet_negate _

theorem equal : Formulary.Discreet (c.equal l r) := by
  unfold Coercion.equal
  split
  · exact .ok _
  · exact .ok _
  · exact .ok _
  · exact Discreet.map_iff.mpr (hc.coerce .equal l r)

theorem anyEqual (items : List Value) : Formulary.Discreet (c.anyEqual l items) := by
  induction items with
  | nil => exact .ok false
  | cons item rest ih =>
    refine (hc.equal l item).bind fun answer => ?_
    split
    · exact .ok true
    · exact ih

theorem contains : Formulary.Discreet (c.contains l r) := by
  unfold Coercion.contains
  split
  · exact .ok _
  · exact Discreet.map_iff.mpr (hc.anyEqual r _)
  · exact hc.equal _ _

theorem like : Formulary.Discreet (c.like l r) := by
  unfold Coercion.like
  split
  · exact .ok _
  · refine (hc.convert l .string).bind fun text => (hc.convert r .string).bind fun wildcards => ?_
    split
    · refine Discreet.map_iff.mpr ?_
      unfold matchText
      cases Text.Wildcard.like Text.Regex.library _ _ with
      | ok answer => exact .ok answer
      | error fault => cases fault <;> exact Discreet.error_iff.mpr rfl
    · exact Discreet.error_iff.mpr rfl

theorem index : Formulary.Discreet (c.index l) := by
  unfold Coercion.index
  split
  all_goals first
    | exact (hc.convert _ _).bind fun n => .elim rfl .ok
    | exact Discreet.error_iff.mpr rfl

omit hc in
theorem entry {α : Type} (entries : List α) (i : Int) :
    Formulary.Discreet (Coercion.entry entries i) := by
  unfold Coercion.entry
  split
  · exact Discreet.error_iff.mpr rfl
  · split
    · exact .ok _
    · exact Discreet.error_iff.mpr rfl

theorem element : Formulary.Discreet (c.element l r) := by
  unfold Coercion.element
  split
  · exact .ok _
  · refine (hc.index r).bind fun i => ?_
    split
    · exact entry _ i
    · exact Discreet.map_iff.mpr (entry _ i)
    · exact Discreet.error_iff.mpr rfl

end Coercion.Discreet

structure Strategy.Discreet (s : Strategy) : Prop where
  convert : ∀ v target, Formulary.Discreet (s.convert v target)
  unary : ∀ (op : UnaryOperation) v, Formulary.Discreet (op.apply s v)
  binary : ∀ (op : BinaryOperation) l r, Formulary.Discreet (op.apply s l r)

/-- The operators that follow from a discreet coercion are discreet. -/
theorem Coercion.Discreet.strategy {c : Coercion} (hc : c.Discreet) : c.strategy.Discreet where
  convert := hc.convert
  unary op v := by
    cases op with
    | negative => exact hc.negative v
    | not => exact hc.not v
    | isNull | isNotNull => exact .ok _
  binary op l r := by
    cases op with
    | notMember => exact Discreet.map_iff.mpr (hc.contains r l)
    | notLike => exact Discreet.map_iff.mpr (hc.like l r)
    | element => exact hc.element l r
    | operator op =>
      cases op with
      | or => exact hc.binary _ l r Value.discreet_or
      | xor => exact hc.binary _ l r Value.discreet_xor
      | and => exact hc.binary _ l r Value.discreet_and
      | equal => exact hc.equal l r
      | notEqual => exact Discreet.map_iff.mpr (hc.equal l r)
      | less | lessEqual | more | moreEqual => exact hc.ordering _ l r _
      | member => exact hc.contains r l
      | like => exact hc.like l r
      | shiftLeft | shiftRight => exact hc.binary _ l r (Value.discreet_shift _)
      | add => exact hc.binary _ l r Value.discreet_add
      | sub => exact hc.binary _ l r Value.discreet_sub
      | mul => exact hc.binary _ l r Value.discreet_mul
      | div => exact hc.binary _ l r Value.discreet_div
      | rem => exact hc.binary _ l r Value.discreet_rem
      | pow => exact hc.binary _ l r Value.discreet_pow

end Formulary
