import Concord.Comparison.Declaration

namespace Concord

/-- What becomes of the declarations of two lists of siblings. -/
inductive Pairing where
  | partners (a b : DeclId) (first common second : Data)
  | firstAlone (a : DeclId)
  | secondAlone (b : DeclId)

namespace Sides

variable (sides : Sides)

/-- Whether two siblings are compared at all. Members of interfaces that are not abstract stay
alone. -/
def isCandidate (a b : DeclId) : Bool :=
  !sides.second.isConcreteInterfaceMember b &&
    (sides.first.declaration a).name == (sides.second.declaration b).name

/-- Looks for the partner of a declaration. Either there is one, and the others are left, or every
comparison failed. It takes the first candidate that matches. -/
def findPartner (a : DeclId) :
    List DeclId → StateM Session (Except (List Mismatch) (Pairing × List DeclId))
  | [] => return .error []
  | b :: bs => do
    if sides.isCandidate a b then
      match ← sides.compare a b with
      | .matched first common second => return .ok (.partners a b first common second, bs)
      | .mismatched mismatch =>
        match ← findPartner a bs with
        | .ok (pairing, left) => return .ok (pairing, b :: left)
        | .error failures => return .error (mismatch :: failures)
    else
      match ← findPartner a bs with
      | .ok (pairing, left) => return .ok (pairing, b :: left)
      | .error failures => return .error failures

/-- The report of a failed comparison. -/
def rejection (a : DeclId) (mismatch : Mismatch) : Rejection :=
  let declaration := sides.first.declaration a
  ⟨declaration.qualifiedName, declaration.kind, mismatch.causes⟩

/-- Pairs two lists of siblings. The declarations of the first side come in their order, then those
of the second side that are left. -/
def pairSiblings : List DeclId → List DeclId → StateM Session (List Pairing × List Rejection)
  | [], bs => return (bs.map .secondAlone, [])
  | a :: as, bs => do
    if sides.first.isConcreteInterfaceMember a then
      let (plan, rejections) ← pairSiblings as bs
      return (.firstAlone a :: plan, rejections)
    match ← sides.findPartner a bs with
    | .ok (pairing, left) =>
      let (plan, rejections) ← pairSiblings as left
      return (pairing :: plan, rejections)
    | .error failures =>
      let (plan, rejections) ← pairSiblings as bs
      return (.firstAlone a :: plan, failures.map (sides.rejection a) ++ rejections)

end Sides

end Concord
