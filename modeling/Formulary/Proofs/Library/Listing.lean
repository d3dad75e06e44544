import Formulary.Library
import Formulary.Proofs.Registry.Listing

/-!
# The functions of the library in order

No two names of the library are one name in other letters. So the functions are registered one
behind the other, and what is registered are these functions alone.
-/

namespace Formulary.Library

def names : List String := [
  "Ticks", "TimeSpan", "Now", "Date", "DayOfWeek", "Min", "Max", "Sum", "If", "Choose", "E", "Pi",
  "Rnd", "Random", "Abs", "Acos", "Asin", "Atan", "Exp", "Log", "Ln", "Log10", "Ceil", "Ceiling",
  "Floor", "Cos", "Sin", "Tan", "Sqr", "Sqrt", "Round", "Trunc", "Truncate", "Empty", "Null",
  "Contains", "Array"]

theorem pairwise_names : names.Pairwise fun a b => Text.lowercase a ≠ Text.lowercase b := by
  decide +kernel

def Builtin.entry (f : Builtin) : Entry FunctionBody := ⟨f.name, f.body⟩

theorem map_name_builtins (world : Ambient) : (builtins world).map (·.name) = names := rfl

/-- Functions of different names are registered in their order. -/
theorem toList_foldl_add {fs : List Builtin} (functions : Functions)
    (h : (functions.toList ++ fs.map Builtin.entry).Pairwise fun a b => a.key ≠ b.key) :
    (fs.foldl (fun functions f => functions.add f.name f.body) functions).toList =
      functions.toList ++ fs.map Builtin.entry := by
  induction fs generalizing functions with
  | nil => exact (List.append_nil _).symm
  | cons f fs ih =>
    obtain ⟨-, -, hdistinct⟩ := List.pairwise_append.mp h
    have habsent : functions.find? f.name = none :=
      Registry.find?_eq_none_iff.mpr fun entry hentry =>
        hdistinct entry hentry f.entry List.mem_cons_self
    have hadd : (functions.add f.name f.body).toList = functions.toList ++ [f.entry] :=
      Registry.toList_put_of_absent habsent
    rw [List.foldl_cons, ih, hadd, List.append_assoc]
    · rfl
    · rwa [hadd, List.append_assoc]

theorem toList_functions (world : Ambient) :
    (functions world).toList = (builtins world).map Builtin.entry := by
  refine toList_foldl_add .empty ?_
  have hkeys := pairwise_names
  rw [← map_name_builtins world, List.pairwise_map] at hkeys
  exact List.pairwise_map.mpr hkeys

theorem content_of_mem_functions {world : Ambient} {entry : Entry FunctionBody}
    (h : entry ∈ (functions world).toList) : ∃ f ∈ builtins world, entry.content = f.body := by
  rw [toList_functions] at h
  obtain ⟨f, hf, rfl⟩ := List.mem_map.mp h
  exact ⟨f, hf, rfl⟩

end Formulary.Library
