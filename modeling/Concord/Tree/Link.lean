import Concord.Tree.Basic

namespace Concord

namespace Tree

/-- Binds a name to the tree's classifier of that name, or marks it as external. -/
def linkRef (tree : Tree) : ClassifierRef → ClassifierRef
  | .symbolic name =>
    match tree.classifier? name with
    | some id => .resolved id
    | none => .external name
  | reference => reference

/-- Binds every name in the tree. -/
def link (tree : Tree) : Tree :=
  { tree with
    declarations := tree.declarations.map fun declaration =>
      { declaration with data := declaration.data.mapRefs tree.linkRef } }

/-- Turns a reference to a declaration of the tree back into its name. -/
def detachRef (tree : Tree) : ClassifierRef → ClassifierRef
  | .resolved id =>
    match tree.get? id with
    | some declaration => .symbolic declaration.qualifiedName
    | none => .resolved id
  | reference => reference

/-- A copy of a declaration's attributes without links into the tree. -/
def detached? (tree : Tree) (id : DeclId) : Option Data :=
  (tree.get? id).map fun declaration => declaration.data.mapRefs tree.detachRef

/-- A copy of a type without links into the tree. -/
def detachType (tree : Tree) (type : Ty ClassifierRef) : Ty ClassifierRef :=
  type.map tree.detachRef

end Tree

end Concord
