import Formulary.Proofs.Registry.Ledger
import Formulary.Variables

/-!
# What variables remember

Variables are asked for one thing after another: to add, to change and to take away, and what they
hold. Every answer is the one of a plain list of names with their values, in which two spellings of
a name are one, and what is left in the end is that list, with an index that leads from each name to
its place and nowhere else.
-/

namespace Formulary.Variables

/-- Something that is asked of variables. To change a variable that was located is to overwrite it
next. -/
inductive Request
  | add (name : String) (content : Option Value)
  | set (name : String) (value : Value)
  | locate (name : String)
  | overwrite (name : String) (content : Option Value)
  | remove (name : String)
  | clearValues
  | clear
  | find (name : String)
  | get (name : String)
  | size
  | isEmpty
  | all

/-- The answer to a request: nothing, a variable as it is before any change, a value, or what there
is altogether. -/
inductive Reply
  | done
  | variable (found : Option (Entry (Option Value)))
  | value (found : Option Value)
  | size (count : Nat)
  | isEmpty (empty : Bool)
  | all (entries : List (Entry (Option Value)))

def overwrite (vars : Variables) (name : String) (content : Option Value) : Variables :=
  if (vars.find? name).isSome then vars.assign name content else vars

def perform (vars : Variables) : Request → Reply × Variables
  | .add name content => (.done, vars.assign name content)
  | .set name value => (.done, vars.set name value)
  | .locate name => (.variable ((vars.locate name).find? name), vars.locate name)
  | .overwrite name content => (.variable (vars.find? name), vars.overwrite name content)
  | .remove name => (.variable (vars.find? name), vars.erase name)
  | .clearValues => (.done, vars.clearValues)
  | .clear => (.done, .empty)
  | .find name => (.variable (vars.find? name), vars)
  | .get name => (.value (vars.get? name), vars)
  | .size => (.size vars.size, vars)
  | .isEmpty => (.isEmpty vars.isEmpty, vars)
  | .all => (.all vars.toList, vars)

/-- The answer of a plain list to a request, and the list after it. -/
def performOnLedger (ledger : Ledger (Option Value)) : Request → Reply × Ledger (Option Value)
  | .add name content => (.done, ledger.assign name content)
  | .set name value => (.done, ledger.assign name (some value))
  | .locate name =>
    (.variable ((ledger.declare name none).lookup? name), ledger.declare name none)
  | .overwrite name content => (.variable (ledger.lookup? name), ledger.overwrite name content)
  | .remove name => (.variable (ledger.lookup? name), ledger.erase name)
  | .clearValues => (.done, ledger.map fun entry => { entry with content := none })
  | .clear => (.done, [])
  | .find name => (.variable (ledger.lookup? name), ledger)
  | .get name => (.value ((ledger.lookup? name).bind (·.content)), ledger)
  | .size => (.size ledger.length, ledger)
  | .isEmpty => (.isEmpty ledger.isEmpty, ledger)
  | .all => (.all ledger, ledger)

def run {σ : Type} (perform : σ → Request → Reply × σ) (s : σ) : List Request → List Reply × σ
  | [] => ([], s)
  | request :: rest =>
    let (reply, next) := perform s request
    let (replies, last) := run perform next rest
    (reply :: replies, last)

/-! One request -/

theorem toList_overwrite (vars : Variables) (name : String) (content : Option Value) :
    (vars.overwrite name content).toList = Ledger.overwrite name content vars.toList := by
  cases h : vars.find? name with
  | none =>
    rw [overwrite, h, Ledger.overwrite_of_absent (Registry.find?_eq_none_iff.mp h)]
    rfl
  | some entry =>
    have hentry : Ledger.lookup? name vars.toList = some entry := (vars.find?_eq name).symm.trans h
    rw [overwrite, h, Ledger.overwrite_eq_assign vars.distinct_toList hentry,
      ← Registry.toList_assign]
    rfl

/-- Variables and their list answer a request alike and are still each other's list after it. -/
theorem perform_eq (vars : Variables) (request : Request) :
    (perform vars request).1 = (performOnLedger vars.toList request).1 ∧
      (perform vars request).2.toList = (performOnLedger vars.toList request).2 := by
  have hfound (name : String) : vars.find? name = Ledger.lookup? name vars.toList :=
    vars.find?_eq name
  cases request with
  | add name content => exact ⟨rfl, vars.toList_assign name content⟩
  | set name value => exact ⟨rfl, vars.toList_assign name (some value)⟩
  | locate name =>
    have hlist : (vars.locate name).toList = Ledger.declare name none vars.toList :=
      vars.toList_declare name none
    exact ⟨by rw [perform, performOnLedger, ← hlist, Registry.find?_eq], hlist⟩
  | overwrite name content => exact ⟨congrArg _ (hfound name), toList_overwrite vars name content⟩
  | remove name => exact ⟨congrArg _ (hfound name), vars.toList_erase name⟩
  | clearValues => exact ⟨rfl, vars.toList_map _⟩
  | clear => exact ⟨rfl, rfl⟩
  | find name => exact ⟨congrArg _ (hfound name), rfl⟩
  | get name => exact ⟨by rw [perform, get?, hfound name]; rfl, rfl⟩
  | size => exact ⟨rfl, rfl⟩
  | isEmpty => exact ⟨congrArg _ vars.isEmpty_eq, rfl⟩
  | all => exact ⟨rfl, rfl⟩

/-! Any number of requests -/

/-- Variables answer any requests as a plain list does. -/
theorem run_eq (vars : Variables) (requests : List Request) :
    ((run perform vars requests).1, (run perform vars requests).2.toList) =
      run performOnLedger vars.toList requests := by
  induction requests generalizing vars with
  | nil => rfl
  | cons request rest ih =>
    obtain ⟨hreply, hlist⟩ := perform_eq vars request
    have hrest := ih (perform vars request).2
    rw [hlist] at hrest
    simp only [run, hreply, ← hrest]

/-- Whatever variables are asked for, in any order, the answers are those of the plain list and the
list is what is left. The index then leads from the small letters of every name to its place in the
list and has nothing else, so no two names have the same small letters. A name that is added again
keeps its place and its spelling, and a name that is removed leaves the others in their order. -/
theorem run_agrees_with_ledger (vars : Variables) (requests : List Request) :
    let replies := (run perform vars requests).1
    let after := (run perform vars requests).2
    (replies, after.toList) = run performOnLedger vars.toList requests ∧
      (∀ key, after.index[key]? = Ledger.position? key after.toList) ∧
      Ledger.Distinct after.toList ∧
      (∀ name content, (after.assign name content).toList.map (·.name) =
        after.toList.map (·.name) ++ if after.lacks name then [name] else []) ∧
      ∀ name, (after.erase name).toList =
        after.toList.filter fun entry => entry.key ≠ Text.lowercase name := by
  intro replies after
  refine ⟨run_eq vars requests, after.index_eq, after.distinct_toList, ?again, after.toList_erase⟩
  case again =>
    intro name content
    rw [Registry.toList_assign, Ledger.names_assign]
    rfl

end Formulary.Variables
