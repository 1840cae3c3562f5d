import Concord.Declaration.Basic
import Concord.Merge.Error

namespace Concord

/-- The placeholders of one name. -/
abbrev Placeholders := PerOutput (Option DeclId)

/-- The names of one space with their placeholders. The names keep the order in which they were
first entered. -/
abbrev NameSpace := List (QualifiedName × Placeholders)

namespace NameSpace

/-- The placeholders of a name; a name that was not entered has none. -/
def get (names : NameSpace) (name : QualifiedName) : Placeholders :=
  (names.lookup name).getD (.replicate none)

/-- Replaces the placeholders of a name. A new name is entered last. -/
def put (names : NameSpace) (name : QualifiedName) (placeholders : Placeholders) : NameSpace :=
  match names with
  | [] => [(name, placeholders)]
  | (other, old) :: rest =>
    if other = name then (name, placeholders) :: rest
    else (other, old) :: NameSpace.put rest name placeholders

end NameSpace

/-- The placeholders of all registered declarations. Modules, packages and classifiers are three
name spaces. -/
structure Registry where
  modules : NameSpace
  packages : NameSpace
  classifiers : NameSpace
deriving DecidableEq

namespace Registry

def empty : Registry := ⟨[], [], []⟩

/-- The name space of a kind. Functions, properties and values have none. -/
def names? (registry : Registry) : Kind → Option NameSpace
  | .module => some registry.modules
  | .package => some registry.packages
  | .classType | .typeAlias => some registry.classifiers
  | .function | .property | .value => none

/-- Replaces the name space of a kind. -/
def setNames (registry : Registry) (kind : Kind) (names : NameSpace) : Registry :=
  match kind with
  | .module => { registry with modules := names }
  | .package => { registry with packages := names }
  | .classType | .typeAlias => { registry with classifiers := names }
  | .function | .property | .value => registry

/-- The placeholder of a declaration in an output. -/
def find? (registry : Registry) (kind : Kind) (name : QualifiedName) (output : Output) :
    Option DeclId := do
  (← registry.names? kind).get name |>.get output

/-- The placeholder of a class or type alias in an output. -/
def classifier? (registry : Registry) (name : QualifiedName) (output : Output) : Option DeclId :=
  registry.find? .classType name output

/-- How many placeholders there are in all name spaces and outputs. -/
def size (registry : Registry) : Nat :=
  ([registry.modules, registry.packages, registry.classifiers].flatMap fun names =>
    names.flatMap fun entry => entry.2.toList.filter (·.isSome)).length

/-- Enters a placeholder. Its name must be free in the output. -/
def register (registry : Registry) (data : Data) (output : Output) (id : DeclId) :
    Except RunError Registry := do
  let duplicate := RunError.duplicateEntry data.qualifiedName data.kind output .placing
  let some names := registry.names? data.kind | throw duplicate
  let placeholders := names.get data.qualifiedName
  if (placeholders.get output).isSome then throw duplicate
  let entered := names.put data.qualifiedName (placeholders.set output (some id))
  return registry.setNames data.kind entered

end Registry

end Concord
