import Formulary.Template.Tag
import Formulary.Variables

/-!
# Names in templates

A name is a path of segments with dots between them. The first segment is looked up in the values
that the sections around are shown for, from the innermost outward, then among the variables. The
others are fields. A single dot is the innermost value.
-/

namespace Formulary.Template

def segments : List Char → List Char × List (List Char)
  | [] => ([], [])
  | c :: rest =>
    let (first, others) := segments rest
    if c = '.' then ([], first :: others) else (c :: first, others)

def root (name : String) : String := String.ofList (segments name.toList).1

/-- The name of a variable that a tag depends on. -/
def Tag.root? (tag : Tag) : Option String :=
  let name := match tag with
    | .leaf (.raw name) | .leaf (.escaped name) => some (root name)
    | .opening o => some (root o.name)
    | _ => none
  name.filter (!·.isEmpty)

/-- What names are looked up in: the values of the sections around, the innermost first, and the
variables, of which some take the place of others. -/
structure Scope where
  values : List Value
  overrides : Option Variables
  defaults : Variables

namespace Scope

def enter (scope : Scope) (value : Value) : Scope :=
  { scope with values := value :: scope.values }

def ofVariable? (scope : Scope) (name : String) : Option Value :=
  (scope.overrides.bind (·.get? name)).or (scope.defaults.get? name)

/-- The value of a first segment. -/
def root? (scope : Scope) (name : String) : Option Value :=
  (scope.values.findSome? (·.field? name)).or (scope.ofVariable? name)

/-- The value of a name. -/
def resolve (scope : Scope) (name : String) : Option Value :=
  if name = "." then scope.values.head?
  else
    let fields := (segments name.toList).2.map String.ofList
    fields.foldl (fun v field => v.bind (·.field? field)) (scope.root? (root name))

/-- The scope with a value around, if there is one. -/
def inside (scope : Scope) : Option Value → Scope
  | some v => scope.enter v
  | none => scope

/-- The times that the body of a section is shown, each with the value that it is shown for if that
is not the scope as it is. An array shows it for each of its items and an object for itself; other
values that count as true show it as it is. -/
def runs (scope : Scope) (opening : Opening) : List (Option Value) :=
  let value := scope.resolve opening.name
  let holds := value.any Value.isTruthy
  if opening.inverted then if holds then [] else [none]
  else
    match value with
    | some (.array items) => items.map some
    | some (.object fields) => if holds then [some (.object fields)] else []
    | _ => if holds then [none] else []

end Scope

end Formulary.Template
