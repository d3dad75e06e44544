import Formulary.Proofs.Library.Discretion
import Formulary.Proofs.Library.Steps

/-!
# The library counts arguments first

Each name of the library leads to the function that was registered under it. Whatever the arguments
are, a call comes to its end: with the error that there are too few or too many of them, which names
the function and says how many there are, or with another outcome if the function takes as many.
-/

namespace Formulary.Library

namespace Routine

theorem Does.exists_of_mem {fs : List Routine} {gs : List Builtin} (h : List.Forall₂ Does fs gs) :
    ∀ f ∈ fs, ∃ g ∈ gs, f.Does g := by
  induction h with
  | nil => exact nofun
  | cons hdoes _ ih =>
    refine List.forall_mem_cons.mpr ⟨⟨_, List.mem_cons_self, hdoes⟩, fun f hf => ?_⟩
    obtain ⟨g, hg, hfg⟩ := ih f hf
    exact ⟨g, .tail _ hg, hfg⟩

theorem Does.map_name {fs : List Routine} {gs : List Builtin} (h : List.Forall₂ Does fs gs) :
    fs.map (·.name) = gs.map (·.name) := by
  induction h with
  | nil => rfl
  | cons hdoes _ ih => rw [List.map_cons, List.map_cons, hdoes.name, ih]

end Routine

theorem find?_functions {world : Ambient} {f : Builtin} (h : f ∈ builtins world) :
    (functions world).find? f.name = some f.entry := by
  refine Registry.find?_eq_some_iff.mpr ⟨?_, rfl⟩
  rw [toList_functions]
  exact List.mem_map_of_mem h

/-- A call fails for the number of arguments exactly when the function does not take as many, and
the error says which function it was and how many it got. -/
theorem body_eq_wrongArgumentCount_iff {s : Strategy} {f : Builtin} (h : f.Discreet s)
    (args : List Value) (function : String) (counts : Arity) (n : Nat) :
    f.body args s = .error (.wrongArgumentCount function counts n) ↔
      f.arity.admits args.length = false ∧
        function = f.name ∧ counts = f.arity ∧ n = args.length := by
  constructor
  · intro hcall
    rcases body_error h hcall with hvalues | ⟨hrefused, hcount⟩
    · cases hvalues
    · cases hcount
      exact ⟨hrefused, rfl, rfl, rfl⟩
  · rintro ⟨hrefused, rfl, rfl, rfl⟩
    exact if_neg (Bool.eq_false_iff.mp hrefused)

/-- The functions of the library, carried out step by step, never break off, whatever the strategy
and the arguments are, and end with what is registered under their names; and the lenient
conversions never break off either. Under both strategies a call fails for the number of arguments
exactly when the function does not take as many, and the error has the name under which the function
is registered and the number that there are. -/
theorem functions_never_break_off (world : Ambient) :
    (functions world).toList.map (·.name) = (Routine.all world).map (·.name) ∧
    (∀ f ∈ Routine.all world, ∃ entry,
      (functions world).find? f.name = some entry ∧ entry.name = f.name ∧
      (∀ args s, (f.run args s).Ends (entry.content args s)) ∧
      ∀ s, s = .lenient ∨ s = .strict → ∀ args function counts n,
        entry.content args s = .error (.wrongArgumentCount function counts n) ↔
          f.arity.admits args.length = false ∧
            function = f.name ∧ counts = f.arity ∧ n = args.length) ∧
    ∀ v target, (Fragile.convert v target).Ends (v.convert target) := by
  have hdoes := Routine.forall₂_does world
  refine ⟨?names, fun f hf => ?calls, Fragile.ends_convert⟩
  case names =>
    rw [Routine.Does.map_name hdoes, toList_functions, List.map_map]
    rfl
  case calls =>
    obtain ⟨g, hg, hfg⟩ := Routine.Does.exists_of_mem hdoes f hf
    rw [hfg.name, hfg.arity]
    refine ⟨g.entry, find?_functions hg, rfl, hfg.run, fun s hs => ?_⟩
    have hstrategy : s.Discreet := by
      rcases hs with rfl | rfl
      · exact Strategy.discreet_lenient.strategy
      · exact Strategy.discreet_strict.strategy
    exact body_eq_wrongArgumentCount_iff (discreet_builtins hstrategy world g hg)

/-- A choice among no more than one. -/
theorem functions_never_break_off_choose :
    let world : Ambient := ⟨⟨0, 0, by decide⟩, 0⟩
    Routine.choose ∈ Routine.all world ∧ (Strategy.strict = .lenient ∨ Strategy.strict = .strict) ∧
      ∃ entry, (functions world).find? "Choose" = some entry ∧
        (Routine.choose.run [.integer 1, .null] .strict).Ends
          (entry.content [.integer 1, .null] .strict) ∧
        entry.content [.integer 1, .null] .strict =
          .error (.wrongArgumentCount "Choose" (.atLeast 3) 2) := by
  intro world
  have hmem : Routine.choose ∈ Routine.all world := by
    simp [Routine.all]
  obtain ⟨-, hcalls, -⟩ := functions_never_break_off world
  obtain ⟨entry, hfind, -, hends, hcount⟩ := hcalls Routine.choose hmem
  exact ⟨hmem, .inr rfl, entry, hfind, hends _ _,
    (hcount .strict (.inr rfl) _ _ _ _).mpr ⟨rfl, rfl, rfl, rfl⟩⟩

end Formulary.Library
