import Formulary.Proofs.Time.Milliseconds
import Formulary.Value.Conversion

/-!
# Computations that may break off

To look at a position of a list, to count down or to store a number in fewer bits cannot be done
always: it takes that something is there. A fragile computation breaks off where it is not, and has
no outcome then, not even an error. Conversions to whole numbers are carried out here in that way,
and none of them ever breaks off: each comes to its end with the outcome that it has.
-/

namespace Formulary

/-- A computation that breaks off, which is `none`, or ends with a result or an error. -/
abbrev Fragile (ε α : Type) := ExceptT ε Option α

namespace Fragile

variable {ε α β : Type}

/-- What has to be there for the computation to go on. -/
def demand (x : Option α) : Fragile ε α := .mk (x.map .ok)

def outcome (x : Except ε α) : Fragile ε α := .mk (some x)

/-- The computation does not break off and has an outcome. -/
def Ends (x : Fragile ε α) (result : Except ε α) : Prop := x.run = some result

theorem ends_pure (a : α) : Ends (pure a : Fragile ε α) (.ok a) := rfl

theorem ends_throw (e : ε) : Ends (throw e : Fragile ε α) (.error e) := rfl

theorem ends_outcome (x : Except ε α) : Ends (outcome x) x := rfl

theorem ends_demand {x : Option α} {a : α} (h : x = some a) :
    Ends (demand x : Fragile ε α) (.ok a) := by
  rw [h]
  rfl

/-- Computations one behind the other end as their plain counterparts do. -/
theorem Ends.bind {x : Fragile ε α} {result : Except ε α} {f : α → Fragile ε β}
    {g : α → Except ε β} (hx : Ends x result) (hf : ∀ a, result = .ok a → Ends (f a) (g a)) :
    Ends (x >>= f) (result.bind g) := by
  have hrun : (x >>= f).run = x.run.bind fun
      | .ok a => (f a).run
      | .error e => some (.error e) := by
    rw [ExceptT.run_bind]
    rfl
  rw [Ends, hrun, hx]
  cases result with
  | error e => rfl
  | ok a => exact hf a rfl

theorem Ends.map {x : Fragile ε α} {result : Except ε α} {f : α → Fragile ε β} {g : α → β}
    (hx : Ends x result) (hf : ∀ a, Ends (f a) (.ok (g a))) : Ends (x >>= f) (result.map g) := by
  have hmap : result.map g = result.bind fun a => .ok (g a) := by cases result <;> rfl
  rw [hmap]
  exact hx.bind fun a _ => hf a

/-- A step in front that only finds what is there. -/
theorem Ends.demand {x : Option α} {a : α} {f : α → Fragile ε β} {result : Except ε β}
    (hx : x = some a) (hf : Ends (f a) result) : Ends (Fragile.demand x >>= f) result :=
  (ends_demand hx).bind (g := fun _ => result) fun _ h => by
    cases h
    exact hf

theorem Ends.foldlM {step : β → α → Fragile ε β} {plain : β → α → Except ε β}
    (h : ∀ b a, Ends (step b a) (plain b a)) (first : β) (rest : List α) :
    Ends (rest.foldlM step first) (rest.foldlM plain first) := by
  induction rest generalizing first with
  | nil => exact ends_pure first
  | cons a rest ih => exact (h first a).bind fun b _ => ih b

/-! Conversions -/

/-- The whole part of a finite number between the limits of 64 bits. -/
def cutToLong (x : Binary) : Fragile Obstacle Int64 :=
  match x.truncate with
  | none => throw .outOfRange
  | some n =>
    if -9223372036854775808 ≤ n ∧ n ≤ 9223372036854775808 then
      demand (int64? (min n 9223372036854775807))
    else throw .outOfRange

def toLong : Value → Fragile Obstacle Int64
  | .float x => cutToLong (Binary.ofSingle x)
  | .double x => cutToLong (Binary.ofDouble x)
  | .dateTime t => demand (int64? t.millis)
  | .duration d => demand (int64? d.millis)
  | v => outcome v.toLong

def toInteger (v : Value) : Fragile Obstacle Int32 := do
  outcome ((int32? (← toLong v).toInt).elim (.error .outOfRange) .ok)

/-- The value as one of another kind. Only whole numbers are made of numbers that may be larger. -/
def convert (v : Value) (target : Kind) : Fragile EvalError Value :=
  if v.kind = target then pure v
  else match target with
    | .integer => (do return .integer (← toInteger v) : Fragile Obstacle Value).adapt
        (v.refuse .integer)
    | .long => (do return .long (← toLong v) : Fragile Obstacle Value).adapt (v.refuse .long)
    | other => outcome (v.convert other)

theorem ends_cutToLong (x : Binary) :
    Ends (cutToLong x) ((Value.cutToLong x).elim (.error .outOfRange) .ok) := by
  unfold cutToLong Value.cutToLong
  cases x.truncate with
  | none => exact ends_throw _
  | some n =>
    dsimp only [Option.bind_some]
    split
    case isTrue hrange => exact ends_demand (if_pos (by omega))
    case isFalse => exact ends_throw _

/-- No date and no duration has more milliseconds than 64 bits hold. -/
theorem ends_toLong (v : Value) : Ends (toLong v) v.toLong := by
  cases v with
  | float x => exact ends_cutToLong _
  | double x => exact ends_cutToLong _
  | dateTime t =>
    have hbounds := t.millis_bounds
    exact ends_demand (if_pos (by omega))
  | duration d =>
    have hbounds := d.millis_bounds
    exact ends_demand (if_pos (by omega))
  | _ => exact ends_outcome _

theorem ends_toInteger (v : Value) : Ends (toInteger v) v.toInteger :=
  (ends_toLong v).bind fun _ _ => ends_outcome _

theorem Ends.adapt {ε' : Type} {x : Fragile ε α} {result : Except ε α} (h : Ends x result)
    (f : ε → ε') : Ends (x.adapt f) (result.mapError f) := by
  change Option.map _ x.run = _
  rw [h]
  rfl

/-- Conversion never breaks off. -/
theorem ends_convert (v : Value) (target : Kind) : Ends (convert v target) (v.convert target) := by
  unfold convert
  by_cases hkind : v.kind = target
  · have hsame : v.convert target = .ok v := if_pos hkind
    rw [if_pos hkind, hsame]
    exact ends_pure v
  · rw [if_neg hkind]
    cases target with
    | integer =>
      rw [Value.convert, if_neg hkind]
      exact ((ends_toInteger v).map fun _ => ends_pure _).adapt _
    | long =>
      rw [Value.convert, if_neg hkind]
      exact ((ends_toLong v).map fun _ => ends_pure _).adapt _
    | _ => exact ends_outcome _

end Fragile

end Formulary
