import Concord.Merge.Forest
import Concord.Output.Registry
import Concord.Tree.Build

namespace Concord

/-- The trees of the three outputs. -/
abbrev OutputTrees := PerOutput Tree

/-- The declarations that a node has in the three outputs. -/
abbrev Places := PerOutput (Option DeclId)

/-- The registry and the trees with the placeholders entered so far. A placeholder knows its
container, but its container does not list it yet. -/
structure Placement where
  registry : Registry
  trees : OutputTrees

/-- The data of a placeholder. A class has no type parameters, supertypes and constructors yet. -/
def Data.placeholder (data : Data) : Data :=
  match data.payload with
  | .classType info =>
    let bare := { info with typeParameters := [], supertypes := [], constructors := [] }
    { data with payload := .classType bare }
  | _ => data

namespace Placement

/-- No placeholder yet. -/
def empty : Placement :=
  ⟨.empty, .replicate .empty⟩

/-- Allocates a placeholder: a module as a root, anything else in a container. -/
def alloc (placement : Placement) (output : Output) (container : Option DeclId) (data : Data) :
    Except RunError (DeclId × Placement) := do
  let tree := placement.trees.get output
  let (id, grown) ←
    if data.kind = .module then pure (tree.addRoot data.placeholder)
    else match container with
      | some container => pure (tree.alloc data.placeholder (some container))
      | none => throw (.missingContainer data.qualifiedName data.kind output .placing)
  let registry ← placement.registry.register data output id
  return (id, ⟨registry, placement.trees.set output grown⟩)

/-- Allocates the placeholder of a node in one output, if the node has data there, and notes its
place. -/
def allocIn (payloads : PerOutput (Option Data)) (containers : Places)
    (state : Placement × Places) (output : Output) : Except RunError (Placement × Places) := do
  let (placement, places) := state
  match payloads.get output with
  | none => return (placement, places)
  | some data =>
    let (id, placement) ← placement.alloc output (containers.get output) data
    return (placement, places.set output (some id))

mutual
/-- Allocates the placeholders of a node and of everything below it. A node whose kind is not
registered is passed over with everything below it. -/
def visit (placement : Placement) (containers : Places) : MergedNode → Except RunError Placement
  | ⟨payloads, children⟩ =>
    if (MergedNode.kind? ⟨payloads, []⟩).any (·.isRegistered) then do
      let (placement, places) ←
        Output.all.foldlM (allocIn payloads containers) (placement, .replicate none)
      visitAll placement places children
    else return placement
/-- Allocates the placeholders of some nodes and of everything below them, in order. -/
def visitAll (placement : Placement) (containers : Places) :
    List MergedNode → Except RunError Placement
  | [] => return placement
  | node :: nodes => do
    visitAll (← visit placement containers node) containers nodes
end

/-- The placeholders of a merged forest. -/
def ofForest (forest : MergedForest) : Except RunError Placement :=
  visitAll empty (.replicate none) forest.roots

end Placement

end Concord
