import Concord.Merge.Error
import Concord.Merge.Forest
import Concord.Merge.Pairing
import Concord.Tree.Ownership

namespace Concord

/-- A step of a merge. -/
abbrev MergeM := StateT Session (Except RunError)

/-- A comparison as a step of a merge. -/
def MergeM.ofSession {α : Type} (comparison : StateM Session α) : MergeM α :=
  modifyGet fun session => comparison.run session

/-- A merged node and the rejections below it. -/
abbrev Merged := MergedNode × List Rejection

/-- A declaration of one output and everything below it, no deeper than `levels`. -/
def Tree.singleWithin (tree : Tree) (output : Output) :
    (levels : Nat) → DeclId → Except RunError MergedNode
  | 0, id => .error (.model .merging (.unknownDeclaration id))
  | levels + 1, id => do
    let some data := tree.detached? id
      | throw (.model .merging (.unknownDeclaration id))
    let children ← (tree.children id).mapM (tree.singleWithin output levels)
    return .single output data children

/-- A declaration of one output and everything below it. No chain of owned declarations is longer
than the tree is large. -/
def Tree.single (tree : Tree) (output : Output) (id : DeclId) : Except RunError MergedNode :=
  tree.singleWithin output tree.size id

namespace Sides

variable (sides : Sides)

/-- Leaves the shared data of two classes the supertypes and constructors that both have. -/
def intersect (a b : DeclId) (common : Data) : StateM Session Data := do
  match (sides.first.declaration a).payload, (sides.second.declaration b).payload with
  | .classType infoA, .classType infoB =>
    let supertypes ← sharedSupertypes sides sides.shareable infoA.supertypes infoB.supertypes
    let constructors ←
      sharedConstructors sides sides.shareable infoA.constructors infoB.constructors
    match common.payload with
    | .classType info =>
      return { common with
        payload := .classType { info with
          supertypes := keepAt info.supertypes supertypes
          constructors := keepAt info.constructors constructors } }
    | _ => return common
  | _, _ => return common

/-- Merges the parameters of two functions by their places. -/
def mergeParameters : List DeclId → List DeclId → MergeM (List MergedNode)
  | a :: as, b :: bs => do
    let nodes ← match ← MergeM.ofSession (sides.compare a b) with
      | .matched first common second => pure [MergedNode.shared first common second []]
      | .mismatched _ =>
        pure [← sides.first.single .first a, ← sides.second.single .second b]
    return nodes ++ (← mergeParameters as bs)
  | as, [] => as.mapM fun a => sides.first.single .first a
  | [], bs => bs.mapM fun b => sides.second.single .second b

/-- Runs a step in a session of its own, which shares the cache. The limits that it hits count for
the session around it too. -/
def inOwnSession {α : Type} (step : MergeM α) : MergeM α := do
  let outer ← get
  set (Session.new sides.options outer.cache)
  let result ← step
  modify fun inner =>
    { outer with cache := inner.cache, limitHits := outer.limitHits + inner.limitHits }
  return result

/-- Collects merged nodes with their rejections. -/
def collect {α : Type} (merge : α → MergeM Merged) :
    List α → MergeM (List MergedNode × List Rejection)
  | [] => return ([], [])
  | a :: as => do
    let (node, rejections) ← merge a
    let (nodes, others) ← collect merge as
    return (node :: nodes, rejections ++ others)

/-- Merges what a pairing says, no deeper than `levels`. Partners become a shared node whose
children are merged in the same way; a declaration without a partner becomes a node of its own with
everything below it. -/
def mergePaired : (levels : Nat) → Pairing → MergeM Merged
  | _, .firstAlone a => return (← sides.first.single .first a, [])
  | _, .secondAlone b => return (← sides.second.single .second b, [])
  | 0, .partners _ _ first common second => return (.shared first common second [], [])
  | levels + 1, .partners a b first common second => do
    let common ← MergeM.ofSession (sides.intersect a b common)
    match (sides.first.declaration a).kind with
    | .function =>
      let nodes ← sides.mergeParameters (sides.first.children a) (sides.second.children b)
      return (.shared first common second nodes, [])
    | kind =>
      let (plan, failures) ←
        MergeM.ofSession (sides.pairSiblings (sides.first.children a) (sides.second.children b))
      let (nodes, rejections) ←
        if kind == .module && sides.options.parallel then
          collect (fun pairing => sides.inOwnSession (mergePaired levels pairing)) plan
        else collect (mergePaired levels) plan
      return (.shared first common second nodes, failures ++ rejections)

end Sides

/-- The merged forest and the rejections, in the order of the merge. -/
structure MergeResult where
  forest : MergedForest
  rejections : List Rejection

/-- Whether a tree can be merged: its ownership is sound and its roots are modules. -/
def checkMergeable (tree : Tree) (side : Output) : Except RunError Unit := do
  tree.checkOwnership.mapError (.invalidInput side)
  tree.roots.forM fun root => do
    let declaration := tree.declaration root
    unless declaration.kind = .module do
      throw (.invalidInput side (.rootNotModule declaration.name.text declaration.kind))

/-- Merges two trees, starting from a cache. Gives the result and the session at its end. -/
def Sides.merge (sides : Sides) (cache : Cache) : Except RunError (MergeResult × Session) := do
  checkMergeable sides.first .first
  checkMergeable sides.second .second
  let steps : MergeM MergeResult := do
    let (plan, failures) ←
      MergeM.ofSession (sides.pairSiblings sides.first.roots sides.second.roots)
    let (roots, rejections) ← Sides.collect (sides.mergePaired sides.first.size) plan
    return ⟨⟨roots⟩, failures ++ rejections⟩
  steps.run (Session.new sides.options cache)

end Concord
