import Concord.Tree.Error

namespace Concord

/-- A store of declarations with its roots and its index of classifiers. Ownership runs from parents
to children through the child lists; the container of a declaration only points back. -/
structure Tree where
  declarations : Array Declaration
  roots : List DeclId
  classifiers : List (QualifiedName × DeclId)
deriving DecidableEq

namespace Tree

/-- The tree without declarations. -/
def empty : Tree := ⟨#[], [], []⟩

instance : Inhabited Tree := ⟨empty⟩

def size (tree : Tree) : Nat :=
  tree.declarations.size

def get? (tree : Tree) (id : DeclId) : Option Declaration :=
  tree.declarations[id.index]?

/-- The declaration with an id, or the error that there is none. -/
def fetch (tree : Tree) (id : DeclId) : Except TreeError Declaration :=
  match tree.get? id with
  | some declaration => .ok declaration
  | none => .error (.unknownDeclaration id)

/-- The owned children of a declaration. An unknown id has none. -/
def children (tree : Tree) (id : DeclId) : List DeclId :=
  match tree.get? id with
  | some declaration => declaration.children
  | none => []

def container? (tree : Tree) (id : DeclId) : Option DeclId :=
  (tree.get? id).bind (·.container)

/-- All declarations with their ids, in the order of allocation. -/
def entries (tree : Tree) : List (DeclId × Declaration) :=
  tree.declarations.toList.mapIdx fun index declaration => (⟨index⟩, declaration)

/-- The first class or type alias allocated under a qualified name. -/
def classifier? (tree : Tree) (name : QualifiedName) : Option DeclId :=
  tree.classifiers.lookup name

/-- The declaration that a reference points at in this tree. Names are looked up; references out of
the tree and type parameters point at nothing. -/
def resolve? (tree : Tree) : ClassifierRef → Option DeclId
  | .resolved id => (tree.get? id).map fun _ => id
  | .symbolic name => tree.classifier? name
  | .external _ | .typeParameter _ => none

/-- The qualified name behind a reference, if it has one. -/
def nameOf? (tree : Tree) : ClassifierRef → Option QualifiedName
  | .resolved id => (tree.get? id).map (·.qualifiedName)
  | .symbolic name | .external name => some name
  | .typeParameter _ => none

/-- The first declaration of a kind under a qualified name. -/
def find? (tree : Tree) (name : String) (kind : Kind) : Option DeclId :=
  (tree.entries.find? fun entry =>
    entry.2.kind == kind && entry.2.qualifiedName.text == name).map (·.1)

/-- The class that directly contains a declaration, if its container is a class. -/
def enclosingClass? (tree : Tree) (id : DeclId) : Option (DeclId × ClassInfo ClassifierRef) := do
  let container ← tree.container? id
  let declaration ← tree.get? container
  let info ← declaration.payload.class?
  return (container, info)

/-- Whether a declaration is a function or property of an interface and is not abstract. -/
def isConcreteInterfaceMember (tree : Tree) (id : DeclId) : Bool :=
  match tree.get? id with
  | none => false
  | some declaration =>
    (declaration.kind == .function || declaration.kind == .property) &&
      match tree.enclosingClass? id with
      | some (_, info) => info.isInterface && declaration.data.modality != .abstract
      | none => false

end Tree

end Concord
