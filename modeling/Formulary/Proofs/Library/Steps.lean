import Formulary.Error.Parsing
import Formulary.Library
import Formulary.Proofs.Library.Fragile
import Mathlib.Data.List.Forall2
import Mathlib.Data.Nat.PSub

/-!
# The library step by step

A function looks at arguments by their positions, goes through those behind the first, counts down
from how many there are and stores numbers in fewer bits. Each function is carried out here with
every such step as one that may break off, after the number of arguments is checked. Conversions and
operators are asked of the strategy, which has an outcome in every case. No function breaks off,
whatever its arguments and the strategy are, and all end as the library says.
-/

namespace Formulary.Library

open Fragile (demand outcome ends_pure ends_throw ends_outcome ends_demand)

/-- A function that is carried out step by step, with its name and the numbers of arguments that it
takes. -/
structure Routine where
  name : String
  arity : Arity
  steps : List Value → Strategy → Fragile EvalError Value

namespace Routine

/-- A call. The arguments are counted before the first step. -/
def run (f : Routine) (args : List Value) (s : Strategy) : Fragile EvalError Value :=
  if f.arity.admits args.length then f.steps args s
  else throw (.wrongArgumentCount f.name f.arity args.length)

def value (name : String) (steps : Fragile EvalError Value) : Routine :=
  ⟨name, .exactly 0, fun _ _ => steps⟩

def unary (name : String) (steps : Strategy → Value → Fragile EvalError Value) : Routine :=
  ⟨name, .exactly 1, fun args s => do steps s (← demand args[0]?)⟩

def double (name : String) (apply : Float → Float) : Routine := unary name fun s v => do
  match ← outcome (number? s v) with
  | none => return .null
  | some x => return .double (apply x)

def fold (name : String)
    (step : Strategy → Value → Value → Fragile EvalError Value) : Routine where
  name := name
  arity := .atLeast 2
  steps args s := do
    let first ← demand args[0]?
    let rest ← demand args.tail?
    rest.foldlM (step s) first

def integral (function : String) (x : Float) (rounded : Option Int) : Fragile EvalError Value :=
  match rounded with
  | none => throw (refuse function (.notFinite (doubleText x)))
  | some n =>
    if -2147483648 ≤ n ∧ n ≤ 2147483647 then return .integer (← demand (int32? n))
    else if -9223372036854775808 ≤ n ∧ n < 9223372036854775808 then
      return .long (← demand (int64? n))
    else throw (refuse function (.outOfRange (doubleText x)))

def truncate (name : String) : Routine := unary name fun s v => do
  match ← outcome (number? s v) with
  | none => return .null
  | some x => integral name x (Binary.ofDouble x).truncate

def round : Routine where
  name := "Round"
  arity := .oneOf [1, 2]
  steps args s := do
    match ← outcome (number? s (← demand args[0]?)) with
    | none => return .null
    | some x =>
      if args.length = 1 then integral "Round" x (Binary.ofDouble x).roundHalfAway
      else
        let places ← outcome (whole s args 1 0)
        let exponent ← demand (int32? (Max.max (-mostPlaces) (Min.min places mostPlaces)))
        let scale := powerOfTen exponent.toInt
        return .double ((x * scale).round / scale)

/-- The parts in front of the milliseconds are brought to seconds one after the other. -/
def timeSpan : Routine where
  name := "TimeSpan"
  arity := .oneOf [1, 3, 4, 5]
  steps args s :=
    if args.length = 1 then do outcome (spanOf (← outcome (whole s args 0 0)))
    else do
      let days ← outcome (whole s args 0 0)
      let hours ← outcome (whole s args 1 0)
      let minutes ← outcome (whole s args 2 0)
      let seconds ← outcome (whole s args 3 0)
      let millis ← outcome (whole s args 4 0)
      let parts := [days, hours, minutes, seconds]
      let first ← demand parts[0]?
      let rest ← demand parts.tail?
      let total := ([24, 60, 60].zip rest).foldlM (fun sum part => refine sum part.1 part.2) first
      match total.bind fun seconds => refine seconds 1000 millis with
      | some total => outcome (spanOf total)
      | none => throw (refuse "TimeSpan" .spanOutOfRange)

def date : Routine where
  name := "Date"
  arity := .between 1 7
  steps args s :=
    if args.length = 1 then do outcome (s.convert (← demand args[0]?) .dateTime)
    else do
      let year ← outcome (whole s args 0 0)
      if (int32? year).isNone then throw (refuse "Date" (.yearOutOfRange year))
      else
        let millis ← outcome (datePart s args 6 0)
        let span ← demand (Span.ofMillis? millis)
        let month ← outcome (datePart s args 1 1)
        let day ← outcome (datePart s args 2 1)
        let hour ← outcome (datePart s args 3 0)
        let minute ← outcome (datePart s args 4 0)
        let second ← outcome (datePart s args 5 0)
        let start :=
          if second < 60 then
            Timestamp.instant? ⟨year, month, day⟩ ⟨hour, minute, second, 0⟩ 0
          else none
        match start.bind fun t => t.add? span with
        | some t => return .dateTime t
        | none => throw (refuse "Date" .noSuchDate)

def dayOfWeek : Routine := unary "DayOfWeek" fun s v => do
  match ← outcome (s.convert v .dateTime) with
  | .dateTime t => return .integer (← demand (int32? t.weekday))
  | _ => return .null

def ifElse : Routine where
  name := "If"
  arity := .exactly 3
  steps args s := do
    let condition ← outcome (s.convert (← demand args[0]?) .boolean)
    if isTrue condition then demand args[1]? else demand args[2]?

/-- How many choices there are is only counted when none of them is taken. -/
def choose : Routine where
  name := "Choose"
  arity := .atLeast 3
  steps args s := do
    let index ← outcome (whole s args 0 0)
    match if index ≥ 1 then args[index.toNat]? else none with
    | some v => return v
    | none =>
      let choices ← demand args.length.ppred
      throw (refuse "Choose" (.noChoice index choices))

def contains : Routine where
  name := "Contains"
  arity := .exactly 2
  steps args s := do
    let text ← demand args[0]?
    let part ← demand args[1]?
    if text.isNull || part.isNull then return .boolean false
    else
      let text ← outcome (s.convert text .string)
      let part ← outcome (s.convert part .string)
      let chars (v : Value) : List Char := (v.string?.getD "").toList
      return .boolean (occurs (chars part) (chars text))

/-- Of two arguments, the one that is better than the other, and the first if neither is. -/
def better (compare : Value → Value → Except EvalError Value) (kept v : Value) :
    Fragile EvalError Value := do
  return if isTrue (← outcome (compare v kept)) then v else kept

def doubles : List (String × (Float → Float)) := [
  ("Acos", Float.acos), ("Asin", Float.asin), ("Atan", Float.atan), ("Exp", Float.exp),
  ("Log", Float.log), ("Ln", Float.log), ("Log10", Float.log10), ("Ceil", Float.ceil),
  ("Ceiling", Float.ceil), ("Floor", Float.floor), ("Cos", Float.cos), ("Sin", Float.sin),
  ("Tan", Float.tan), ("Sqr", Float.sqrt), ("Sqrt", Float.sqrt)]

/-- The functions of the library in the order of their registration. -/
def all (world : Ambient) : List Routine := [
  value "Ticks" do return .long (← demand (int64? world.now.millis)),
  timeSpan,
  value "Now" (pure (.dateTime world.now)),
  date,
  dayOfWeek,
  fold "Min" fun s => better s.less,
  fold "Max" fun s => better s.more,
  fold "Sum" fun s total v => outcome (s.add total v),
  ifElse,
  choose,
  value "E" (pure (.double 2.718281828459045)),
  value "Pi" (pure (.double 3.141592653589793)),
  value "Rnd" (pure (.double world.lot)),
  value "Random" (pure (.double world.lot)),
  unary "Abs" fun s v => outcome (absolute s v)]
  ++ doubles.map (fun f => double f.1 f.2)
  ++ [round, truncate "Trunc", truncate "Truncate"]
  ++ [unary "Empty" fun _ v => pure (.boolean (holdsNothing v)),
  value "Null" (pure .null),
  contains,
  ⟨"Array", .any, fun args _ => pure (.array args)⟩]

/-! The steps and the library -/

/-- The steps never break off and end as the function of the library does, if it takes as many
arguments. -/
structure Does (f : Routine) (g : Builtin) : Prop where
  name : f.name = g.name
  arity : f.arity = g.arity
  steps : ∀ args s, g.arity.admits args.length = true → (f.steps args s).Ends (g.apply args s)

theorem Does.run {f : Routine} {g : Builtin} (h : f.Does g) (args : List Value) (s : Strategy) :
    (f.run args s).Ends (g.body args s) := by
  rw [Routine.run, Builtin.body, h.name, h.arity]
  split
  case isTrue hadmits => exact h.steps args s hadmits
  case isFalse hrefuses => exact ends_throw _

/-! Arguments that are there -/

variable {args : List Value}

theorem getElem?_of_lt {i : Nat} (h : i < args.length) : args[i]? = some (argument args i) := by
  rw [argument, List.getD_eq_getElem?_getD, List.getElem?_eq_getElem h]
  rfl

theorem tail?_of_pos (h : 0 < args.length) : args.tail? = some args.tail := by
  cases args with
  | nil => cases h
  | cons first rest => rfl

theorem Does.value {v : Value} {steps : Fragile EvalError Value} (name : String)
    (h : steps.Ends (.ok v)) : (Routine.value name steps).Does (.value name v) :=
  ⟨rfl, rfl, fun _ _ _ => h⟩

theorem Does.unary {steps : Strategy → Value → Fragile EvalError Value}
    {apply : Strategy → Value → Except EvalError Value} (name : String)
    (h : ∀ s v, (steps s v).Ends (apply s v)) :
    (Routine.unary name steps).Does (.unary name apply) := by
  refine ⟨rfl, rfl, fun args s hcount => ?_⟩
  have hlength : args.length = 1 := beq_iff_eq.mp hcount
  exact .demand (getElem?_of_lt (by omega)) (h s _)

/-- A function that goes through its arguments does what the library does, if every step does. -/
theorem Does.fold {step : Strategy → Value → Value → Fragile EvalError Value}
    {apply : Strategy → Value → List Value → Except EvalError Value} (name : String)
    (plain : Strategy → Value → Value → Except EvalError Value)
    (hsteps : ∀ s kept v, (step s kept v).Ends (plain s kept v))
    (happly : ∀ s first rest, apply s first rest = rest.foldlM (plain s) first) :
    (Routine.fold name step).Does (Library.fold name apply) := by
  refine ⟨rfl, rfl, fun args s hcount => ?_⟩
  have hlength : 2 ≤ args.length := of_decide_eq_true hcount
  change Fragile.Ends _ (apply s (argument args 0) args.tail)
  rw [happly]
  exact .demand (getElem?_of_lt (by omega)) (.demand (tail?_of_pos (by omega))
    (.foldlM (hsteps s) _ _))

theorem best_eq_foldlM (compare : Value → Value → Except EvalError Value) (first : Value)
    (rest : List Value) : best compare first rest = rest.foldlM (fun kept v =>
      (compare v kept).bind fun answer => .ok (if isTrue answer then v else kept)) first := by
  induction rest generalizing first with
  | nil => rfl
  | cons v rest ih =>
    rw [best, List.foldlM_cons]
    cases compare v first with
    | error e => rfl
    | ok answer => exact ih _

theorem does_best (name : String) (compare : Strategy → Value → Value → Except EvalError Value) :
    (fold name fun s => better (compare s)).Does
      (Library.fold name fun s first rest => best (compare s) first rest) :=
  .fold name _ (fun s kept v => (ends_outcome (compare s v kept)).bind fun _ _ => ends_pure _)
    fun s first rest => best_eq_foldlM (compare s) first rest

theorem does_sum : (fold "Sum" fun s total v => outcome (s.add total v)).Does sum :=
  .fold "Sum" (fun s => s.add) (fun _ _ _ => ends_outcome _) fun _ _ _ => rfl

theorem does_double (name : String) (apply : Float → Float) : (double name apply).Does
    (.unary name fun s v =>
      (number? s v).map fun x => x.elim .null fun x => .double (apply x)) := by
  refine .unary name fun s v => (ends_outcome (number? s v)).map fun x => ?_
  cases x <;> exact ends_pure _

theorem does_doubles :
    List.Forall₂ Does (doubles.map fun f => double f.1 f.2) transcendental := by
  have hlibrary : transcendental = doubles.map fun f => .unary f.1 fun s v =>
      (number? s v).map fun x => x.elim .null fun x => .double (f.2 x) := rfl
  rw [hlibrary, List.forall₂_map_left_iff, List.forall₂_map_right_iff, List.forall₂_same]
  exact fun f _ => does_double f.1 f.2

/-! Narrowing -/

theorem ends_integral (function : String) (x : Float) (rounded : Option Int) :
    (integral function x rounded).Ends (Library.integral function x rounded) := by
  cases rounded with
  | none => exact ends_throw _
  | some n =>
    dsimp only [integral, Library.integral]
    split
    case isTrue hsmall =>
      have hn : int32? n = some (Int32.ofInt n) := if_pos (by omega)
      rw [hn]
      exact ends_pure _
    case isFalse hlarge =>
      have hnone : int32? n = none := if_neg (by omega)
      rw [hnone]
      split
      case isTrue hwide =>
        have hn : int64? n = some (Int64.ofInt n) := if_pos hwide
        rw [hn]
        exact ends_pure _
      case isFalse hhuge =>
        have hn : int64? n = none := if_neg hhuge
        rw [hn]
        exact ends_throw _

theorem does_truncate (name : String) : (truncate name).Does
    (.unary name fun s v => (number? s v).bind fun x =>
      x.elim (.ok .null) fun x => Library.integral name x (Binary.ofDouble x).truncate) := by
  refine .unary name fun s v => (ends_outcome (number? s v)).bind fun x _ => ?_
  cases x with
  | none => exact ends_pure _
  | some x => exact ends_integral name x _

theorem does_round : round.Does Library.round := by
  refine ⟨rfl, rfl, fun args s hcount => ?_⟩
  have hlength : args.length = 1 ∨ args.length = 2 := by
    simpa [Library.round, Arity.admits] using hcount
  refine .demand (getElem?_of_lt (by omega)) ((ends_outcome _).bind fun x _ => ?_)
  cases x with
  | none => exact ends_pure _
  | some x =>
    dsimp only
    split
    · exact ends_integral "Round" x _
    · refine (ends_outcome (whole s args 1 0)).map fun places => ?_
      obtain ⟨exponent, hexponent⟩ : ∃ exponent,
          int32? (Max.max (-mostPlaces) (Min.min places mostPlaces)) = some exponent :=
        ⟨_, if_pos (by simp only [mostPlaces]; omega)⟩
      refine .demand hexponent ?_
      rw [toInt_of_int32? hexponent]
      exact ends_pure _

theorem does_dayOfWeek : dayOfWeek.Does Library.dayOfWeek := by
  refine .unary "DayOfWeek" fun s v => (ends_outcome (s.convert v .dateTime)).map fun t => ?_
  cases t
  case dateTime t =>
    have hday : int32? t.weekday = some (Int32.ofInt t.weekday) := by
      refine if_pos ?_
      simp only [Instant.weekday, Date.weekday]
      omega
    exact .demand hday (ends_pure _)
  all_goals exact ends_pure _

/-! Dates and durations -/

theorem does_timeSpan : timeSpan.Does Library.timeSpan := by
  refine ⟨rfl, rfl, fun args s _ => ?_⟩
  dsimp only [timeSpan, Library.timeSpan]
  split
  · exact (ends_outcome (whole s args 0 0)).bind fun millis _ => ends_outcome (spanOf millis)
  · refine (ends_outcome (whole s args 0 0)).bind fun days _ => ?_
    refine (ends_outcome (whole s args 1 0)).bind fun hours _ => ?_
    refine (ends_outcome (whole s args 2 0)).bind fun minutes _ => ?_
    refine (ends_outcome (whole s args 3 0)).bind fun seconds _ => ?_
    refine (ends_outcome (whole s args 4 0)).bind fun millis _ => ?_
    refine .demand rfl (.demand rfl ?_)
    have htotal : totalMillis days hours minutes seconds millis =
        (([24, 60, 60].zip [hours, minutes, seconds]).foldlM
          (fun sum part => refine sum part.1 part.2) days).bind
            fun seconds => refine seconds 1000 millis := by
      simp [totalMillis, Option.bind_assoc]
    rw [← htotal]
    cases totalMillis days hours minutes seconds millis with
    | none => exact ends_throw _
    | some total => exact ends_outcome (spanOf total)

theorem datePart_bounds {s : Strategy} {args : List Value} {i : Nat} {other n : Int}
    (h : datePart s args i other = .ok n) : 0 ≤ n ∧ n < 4294967296 := by
  obtain ⟨m, -, hm⟩ := of_bind_ok h
  split at hm
  case isTrue hrange =>
    cases hm
    exact hrange
  case isFalse => cases hm

theorem does_date : date.Does Library.date := by
  refine ⟨rfl, rfl, fun args s hcount => ?_⟩
  have hlength : 1 ≤ args.length ∧ args.length ≤ 7 := by
    simpa [Library.date, Arity.admits] using hcount
  dsimp only [date, Library.date]
  split
  · exact .demand (getElem?_of_lt (by omega)) (ends_outcome _)
  · refine (ends_outcome (whole s args 0 0)).bind fun year _ => ?_
    split
    · exact ends_throw _
    · refine (ends_outcome (datePart s args 6 0)).bind fun millis hmillis => ?_
      have hrange := datePart_bounds hmillis
      obtain ⟨span, hspan⟩ := Option.isSome_iff_exists.mp
        (Span.isSome_ofMillis?_iff.mpr (by omega : _ ∧ millis ≤ 9223372036854775807))
      refine .demand hspan ?_
      refine (ends_outcome (datePart s args 1 1)).bind fun month _ => ?_
      refine (ends_outcome (datePart s args 2 1)).bind fun day _ => ?_
      refine (ends_outcome (datePart s args 3 0)).bind fun hour _ => ?_
      refine (ends_outcome (datePart s args 4 0)).bind fun minute _ => ?_
      refine (ends_outcome (datePart s args 5 0)).bind fun second _ => ?_
      have hinstant : instantOf ⟨year, month, day⟩ hour minute second millis =
          (if second < 60 then
            Timestamp.instant? ⟨year, month, day⟩ ⟨hour, minute, second, 0⟩ 0
          else none).bind fun t => t.add? span := by
        unfold instantOf
        split
        · rw [hspan]
          rfl
        · rfl
      rw [← hinstant]
      cases instantOf ⟨year, month, day⟩ hour minute second millis with
      | none => exact ends_throw _
      | some t => exact ends_pure _

/-! Choices and texts -/

theorem does_ifElse : ifElse.Does Library.ifElse := by
  refine ⟨rfl, rfl, fun args s hcount => ?_⟩
  have hlength : args.length = 3 := beq_iff_eq.mp hcount
  refine .demand (getElem?_of_lt (by omega)) ((ends_outcome _).map fun condition => ?_)
  split
  · exact ends_demand (getElem?_of_lt (by omega))
  · exact ends_demand (getElem?_of_lt (by omega))

theorem does_choose : choose.Does Library.choose := by
  refine ⟨rfl, rfl, fun args s hcount => ?_⟩
  have hlength : 3 ≤ args.length := of_decide_eq_true hcount
  have hchoices : args.length.ppred = some (args.length - 1) := Nat.ppred_eq_some.mpr (by omega)
  refine (ends_outcome (whole s args 0 0)).bind fun index _ => ?_
  dsimp only
  cases if index ≥ 1 then args[index.toNat]? else none with
  | none => exact .demand hchoices (ends_throw _)
  | some v => exact ends_pure v

theorem does_contains : contains.Does Library.contains := by
  refine ⟨rfl, rfl, fun args s hcount => ?_⟩
  have hlength : args.length = 2 := beq_iff_eq.mp hcount
  refine .demand (getElem?_of_lt (by omega)) (.demand (getElem?_of_lt (by omega)) ?_)
  dsimp only [Library.contains]
  split
  · exact ends_pure _
  · exact (ends_outcome _).bind fun text _ => (ends_outcome _).bind fun part _ => ends_pure _

/-- What is carried out step by step are the functions of the library, one after the other. -/
theorem forall₂_does (world : Ambient) : List.Forall₂ Does (all world) (builtins world) := by
  refine List.rel_append (List.rel_append (List.rel_append ?front does_doubles) ?rounding) ?back
  case front =>
    have hticks : int64? world.now.millis = some (Int64.ofInt world.now.millis) := by
      have hbounds := world.now.millis_bounds
      exact if_pos (by omega)
    have habs : (unary "Abs" fun s v => outcome (absolute s v)).Does abs :=
      .unary "Abs" fun s v => ends_outcome (absolute s v)
    exact .cons (.value "Ticks" (.demand hticks (ends_pure _))) <| .cons does_timeSpan <|
      .cons (.value "Now" (ends_pure _)) <| .cons does_date <| .cons does_dayOfWeek <|
      .cons (does_best "Min" Strategy.less) <| .cons (does_best "Max" Strategy.more) <|
      .cons does_sum <| .cons does_ifElse <| .cons does_choose <|
      .cons (.value "E" (ends_pure _)) <| .cons (.value "Pi" (ends_pure _)) <|
      .cons (.value "Rnd" (ends_pure _)) <| .cons (.value "Random" (ends_pure _)) <|
      .cons habs .nil
  case rounding =>
    exact .cons does_round <| .cons (does_truncate _) <| .cons (does_truncate _) .nil
  case back =>
    have hempty : (unary "Empty" fun _ v => pure (.boolean (holdsNothing v))).Does empty :=
      .unary "Empty" fun _ _ => ends_pure _
    have harray : (⟨"Array", .any, fun args _ => pure (.array args)⟩ : Routine).Does array :=
      ⟨rfl, rfl, fun _ _ _ => ends_pure _⟩
    exact .cons hempty <| .cons (.value "Null" (ends_pure _)) <| .cons does_contains <|
      .cons harray .nil

end Routine

end Formulary.Library
