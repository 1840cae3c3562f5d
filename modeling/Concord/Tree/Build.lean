import Concord.Tree.Basic

namespace Concord

namespace Tree

/-- The index of classifiers after a declaration is allocated: the first entry of a name stays. -/
def indexed (tree : Tree) (data : Data) : List (QualifiedName × DeclId) :=
  if data.kind.isClassifier && (tree.classifier? data.qualifiedName).isNone then
    (data.qualifiedName, ⟨tree.size⟩) :: tree.classifiers
  else tree.classifiers

/-- Allocates a declaration without listing it among its container's children. So placeholders can
be allocated first and attached later. -/
def alloc (tree : Tree) (data : Data) (container : Option DeclId) : DeclId × Tree :=
  (⟨tree.size⟩,
    { tree with
      declarations := tree.declarations.push ⟨data, container, []⟩
      classifiers := tree.indexed data })

/-- Allocates a declaration as the last root. -/
def addRoot (tree : Tree) (data : Data) : DeclId × Tree :=
  let (id, tree) := tree.alloc data none
  (id, { tree with roots := tree.roots ++ [id] })

/-- Changes one declaration. An unknown id changes nothing. -/
def modify (tree : Tree) (id : DeclId) (f : Declaration → Declaration) : Tree :=
  { tree with declarations := tree.declarations.modify id.index f }

/-- Replaces the attributes of a declaration. The index of classifiers stays as it is. -/
def setData (tree : Tree) (id : DeclId) (data : Data) : Tree :=
  tree.modify id ({ · with data })

/-- Whether a container of one kind may own a child of another. -/
def checkContainer (child container : Kind) : Except TreeError Unit :=
  if container.mayContain child then .ok () else .error (.invalidContainer child container)

/-- Lists a declaration as the last child of a container. A declaration that belongs elsewhere, or
is listed already, is refused. -/
def attach (tree : Tree) (parent child : DeclId) : Except TreeError Tree := do
  let container ← tree.fetch parent
  let declaration ← tree.fetch child
  checkContainer declaration.kind container.kind
  if declaration.container.any (· != parent) then
    throw (.sharedChild declaration.qualifiedName)
  let attached := tree.modify child ({ · with container := some parent })
  if (attached.children parent).contains child then
    throw (.sharedChild declaration.qualifiedName)
  return attached.modify parent fun container =>
    { container with children := container.children ++ [child] }

/-- Allocates a declaration as the last child of a container. -/
def insert (tree : Tree) (container : DeclId) (data : Data) : Except TreeError (DeclId × Tree) := do
  checkContainer data.kind (← tree.fetch container).kind
  let (id, grown) := tree.alloc data (some container)
  return (id, grown.modify container fun owner => { owner with children := owner.children ++ [id] })

/-- The qualified name of a declaration called `name` in a container. -/
def nameIn (tree : Tree) (container : DeclId) (name : SimpleName) :
    Except TreeError QualifiedName := do
  return (← tree.fetch container).qualifiedName.child name

/-- Declares a name inside a container, whose qualified name it extends. -/
def declare (tree : Tree) (container : DeclId) (name : SimpleName)
    (payload : Payload ClassifierRef) : Except TreeError (DeclId × Tree) := do
  unless name.isSegment do throw (.invalidName name.text)
  let qualifiedName ← tree.nameIn container name
  tree.insert container (Data.ofPayload name qualifiedName payload)

/-- Adds a module as the last root. -/
def addModule (tree : Tree) (name : String) : DeclId × Tree :=
  tree.addRoot (Data.ofPayload ⟨name⟩ ⟨name⟩ (.module ⟨none⟩))

/-- Adds a package to a module. The name of a package is its whole qualified name. -/
def addPackage (tree : Tree) (module : DeclId) (name : String) :
    Except TreeError (DeclId × Tree) :=
  tree.insert module (Data.ofPayload ⟨name⟩ ⟨name⟩ .package)

end Tree

end Concord
