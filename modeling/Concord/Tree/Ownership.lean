import Concord.Tree.Basic

namespace Concord

namespace Tree

/-- All pairs of a declaration and a child that it lists, in the order of allocation. -/
def listings (tree : Tree) : List (DeclId × DeclId) :=
  tree.entries.flatMap fun entry => entry.2.children.map fun child => (entry.1, child)

/-- Checks listings one after the other. `seen` holds the children listed before. -/
def checkListings (tree : Tree) : List (DeclId × DeclId) → List DeclId → Except TreeError Unit
  | [], _ => .ok ()
  | (parent, child) :: rest, seen => do
    let declaration ← tree.fetch child
    if seen.contains child then
      throw (.sharedChild declaration.qualifiedName)
    if declaration.container != some parent then
      throw (.brokenContainerLink declaration.qualifiedName parent declaration.container)
    tree.checkListings rest (child :: seen)

/-- Checks that declarations with a container are among the listed ones. -/
def checkContainers (listed : List DeclId) :
    List (DeclId × Declaration) → Except TreeError Unit
  | [] => .ok ()
  | (id, declaration) :: rest => do
    if let some container := declaration.container then
      unless listed.contains id do
        throw (.brokenContainerLink declaration.qualifiedName container declaration.container)
    checkContainers listed rest

/-- Checks the ownership of all declarations. Every listed child has to exist and to point back at
the declaration that lists it, none is listed twice, and every declaration with a container is
listed. -/
def checkOwnership (tree : Tree) : Except TreeError Unit := do
  tree.checkListings tree.listings []
  checkContainers (tree.listings.map (·.2)) tree.entries

end Tree

end Concord
