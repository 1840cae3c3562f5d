import Concord.Merge.Trees

namespace Concord

/-- What a merge needs done: comparisons in one monad and steps of the merge in another. The
definitions over services are those of the merge. Done by a session, they are the merge itself. -/
structure Services (n m : Type → Type) where
  /-- Compares two classifiers. -/
  verdict : DeclId → DeclId → n Mismatch
  /-- Runs a comparison and says whether no limit was hit on the way. -/
  watched : n Mismatch → n (Mismatch × Bool)
  /-- A comparison as a step of the merge. -/
  lift : {α : Type} → n α → m α
  /-- A step that may fail and touches nothing. -/
  attempt : {α : Type} → Except RunError α → m α
  /-- Takes note of two declarations that become one. -/
  note : DeclId → DeclId → m Unit
  /-- Merges the children of a shared module. -/
  apart : (Pairing → m Merged) → List Pairing → m (List MergedNode × List Rejection)

namespace Services

section Compare

variable {n m : Type → Type} [Monad n] (services : Services n m) (sides : Sides)

/-- Whether two classifiers can be shared. -/
def shareable (a b : DeclId) : n Bool := do
  return (← services.verdict a b).isEmpty

/-- The rules that two declarations fail. -/
def failuresOf (a b : DeclId) : n Mismatch := do
  let dataA := (sides.first.declaration a).data
  let dataB := (sides.second.declaration b).data
  if dataA.kind != dataB.kind then return .ofCause (.kinds dataA.kind dataB.kind)
  if dataA.visibility.isPrivate || dataB.visibility.isPrivate then return .ofCause .privacy
  if sides.first.isConcreteInterfaceMember a || sides.second.isConcreteInterfaceMember b then
    return .ofCause .concreteInterfaceMember
  match dataA.payload, dataB.payload with
  | .function infoA, .function infoB =>
    functionFailures sides services.shareable a b dataA dataB infoA infoB
  | .property infoA, .property infoB =>
    propertyFailures sides services.shareable dataA dataB infoA infoB
  | .value _, .value _ => valueFailures sides services.shareable a b
  | .module _, _ => return Mismatch.none.require (dataA.name == dataB.name) .names
  | .package, _ =>
    return Mismatch.none.require (dataA.qualifiedName == dataB.qualifiedName) .names
  | _, _ => services.verdict a b

/-- Compares two declarations. -/
def compare (a b : DeclId) : n Comparison := do
  if sides.same && a == b then matchedPayloads sides services.shareable a b
  else
    let (mismatch, withinLimits) ← services.watched (services.failuresOf sides a b)
    let mismatch := mismatch.require withinLimits .recursionLimit
    if mismatch.isEmpty then matchedPayloads sides services.shareable a b
    else return .mismatched mismatch

/-- Looks for the partner of a declaration. -/
def findPartner (a : DeclId) : List DeclId → n (Except (List Mismatch) (Pairing × List DeclId))
  | [] => return .error []
  | b :: bs => do
    if sides.isCandidate a b then
      match ← services.compare sides a b with
      | .matched first common second => return .ok (.partners a b first common second, bs)
      | .mismatched mismatch =>
        match ← findPartner a bs with
        | .ok (pairing, left) => return .ok (pairing, b :: left)
        | .error failures => return .error (mismatch :: failures)
    else
      match ← findPartner a bs with
      | .ok (pairing, left) => return .ok (pairing, b :: left)
      | .error failures => return .error failures

/-- Pairs two lists of siblings. -/
def pairSiblings : List DeclId → List DeclId → n (List Pairing × List Rejection)
  | [], bs => return (bs.map .secondAlone, [])
  | a :: as, bs => do
    if sides.first.isConcreteInterfaceMember a then
      let (plan, rejections) ← pairSiblings as bs
      return (.firstAlone a :: plan, rejections)
    match ← services.findPartner sides a bs with
    | .ok (pairing, left) =>
      let (plan, rejections) ← pairSiblings as left
      return (pairing :: plan, rejections)
    | .error failures =>
      let (plan, rejections) ← pairSiblings as bs
      return (.firstAlone a :: plan, failures.map (sides.rejection a) ++ rejections)

/-- Leaves the shared data of two classes the supertypes and constructors that both have. -/
def intersect (a b : DeclId) (common : Data) : n Data := do
  match (sides.first.declaration a).payload, (sides.second.declaration b).payload with
  | .classType infoA, .classType infoB =>
    let supertypes ← sharedSupertypes sides services.shareable infoA.supertypes infoB.supertypes
    let constructors ←
      sharedConstructors sides services.shareable infoA.constructors infoB.constructors
    match common.payload with
    | .classType info =>
      return { common with
        payload := .classType { info with
          supertypes := keepAt info.supertypes supertypes
          constructors := keepAt info.constructors constructors } }
    | _ => return common
  | _, _ => return common

end Compare

section Merge

variable {n m : Type → Type} [Monad n] [Monad m] (services : Services n m) (sides : Sides)

/-- Merges the parameters of two functions by their places. -/
def mergeParameters : List DeclId → List DeclId → m (List MergedNode)
  | a :: as, b :: bs => do
    let nodes ← match ← services.lift (services.compare sides a b) with
      | .matched first common second => do
        services.note a b
        pure [MergedNode.shared first common second []]
      | .mismatched _ =>
        pure [← services.attempt (sides.first.single .first a),
          ← services.attempt (sides.second.single .second b)]
    return nodes ++ (← mergeParameters as bs)
  | as, [] => services.attempt (as.mapM fun a => sides.first.single .first a)
  | [], bs => services.attempt (bs.mapM fun b => sides.second.single .second b)

/-- Collects merged nodes with their rejections. -/
def collect (merge : Pairing → m Merged) : List Pairing → m (List MergedNode × List Rejection)
  | [] => return ([], [])
  | a :: as => do
    let (node, rejections) ← merge a
    let (nodes, others) ← collect merge as
    return (node :: nodes, rejections ++ others)

/-- Merges the children of a shared declaration of some kind. -/
def mergeChildren (kind : Kind) (merge : Pairing → m Merged) (plan : List Pairing) :
    m (List MergedNode × List Rejection) :=
  if kind == .module then services.apart merge plan else collect merge plan

/-- Merges what a pairing says, no deeper than `levels`. -/
def mergePaired : (levels : Nat) → Pairing → m Merged
  | _, .firstAlone a => return (← services.attempt (sides.first.single .first a), [])
  | _, .secondAlone b => return (← services.attempt (sides.second.single .second b), [])
  | 0, .partners a b first common second => do
    services.note a b
    return (.shared first common second [], [])
  | levels + 1, .partners a b first common second => do
    services.note a b
    let common ← services.lift (services.intersect sides a b common)
    match (sides.first.declaration a).kind with
    | .function =>
      let nodes ← services.mergeParameters sides (sides.first.children a) (sides.second.children b)
      return (.shared first common second nodes, [])
    | kind =>
      let (plan, failures) ← services.lift
        (services.pairSiblings sides (sides.first.children a) (sides.second.children b))
      let (nodes, rejections) ← services.mergeChildren kind (mergePaired levels) plan
      return (.shared first common second nodes, failures ++ rejections)

/-- Merges two trees. -/
def merge : m MergeResult := do
  services.attempt (checkMergeable sides.first .first)
  services.attempt (checkMergeable sides.second .second)
  let (plan, failures) ←
    services.lift (services.pairSiblings sides sides.first.roots sides.second.roots)
  let (roots, rejections) ← collect (services.mergePaired sides sides.first.size) plan
  return ⟨⟨roots⟩, failures ++ rejections⟩

end Merge

end Services

namespace Sides

variable (sides : Sides)

/-- The services of a session. -/
def services : Services (StateM Session) MergeM where
  verdict := sides.compareClassifiers
  watched step := do
    let before ← get
    let mismatch ← step
    let after ← get
    return (mismatch, after.limitHits == before.limitHits)
  lift := MergeM.ofSession
  attempt := liftM
  note _ _ := return
  apart merge :=
    Sides.collect fun pairing =>
      if sides.options.parallel then sides.inOwnSession (merge pairing) else merge pairing

theorem services_compare (a b : DeclId) : sides.services.compare sides a b = sides.compare a b :=
  rfl

theorem services_findPartner (a : DeclId) (bs : List DeclId) :
    sides.services.findPartner sides a bs = sides.findPartner a bs := by
  induction bs with
  | nil => rfl
  | cons b bs ih =>
    rw [findPartner, ← ih]
    rfl

theorem services_pairSiblings (as bs : List DeclId) :
    sides.services.pairSiblings sides as bs = sides.pairSiblings as bs := by
  induction as generalizing bs with
  | nil => rfl
  | cons a as ih =>
    simp only [pairSiblings, ← ih, ← services_findPartner]
    rfl

theorem services_intersect (a b : DeclId) (common : Data) :
    sides.services.intersect sides a b common = sides.intersect a b common :=
  rfl

private theorem liftM_mapM {α β : Type} (step : α → Except RunError β) (items : List α) :
    (liftM (items.mapM step) : MergeM (List β)) = items.mapM fun item => liftM (step item) := by
  induction items with
  | nil => rfl
  | cons item items ih =>
    rw [List.mapM_cons, List.mapM_cons, ← ih]
    funext session
    cases step item with
    | error error => rfl
    | ok result => cases items.mapM step <;> rfl

theorem services_mergeParameters (as bs : List DeclId) :
    sides.services.mergeParameters sides as bs = sides.mergeParameters as bs := by
  induction as generalizing bs with
  | nil =>
    cases bs with
    | nil => rfl
    | cons b bs =>
      simp only [Services.mergeParameters, mergeParameters, services, liftM_mapM]
  | cons a as ih =>
    cases bs with
    | nil => simp only [Services.mergeParameters, mergeParameters, services, liftM_mapM]
    | cons b bs =>
      simp only [Services.mergeParameters, mergeParameters, services_compare, ih]
      rfl

theorem collect_eq (merge : Pairing → MergeM Merged) (plan : List Pairing) :
    Services.collect merge plan = Sides.collect merge plan := by
  induction plan with
  | nil => rfl
  | cons pairing plan ih => simp only [Services.collect, collect, ih]

theorem services_mergeChildren (kind : Kind) (merge : Pairing → MergeM Merged)
    (plan : List Pairing) : sides.services.mergeChildren kind merge plan =
      if kind == .module && sides.options.parallel then
        Sides.collect (fun pairing => sides.inOwnSession (merge pairing)) plan
      else Sides.collect merge plan := by
  simp only [Services.mergeChildren, services, collect_eq]
  cases kind == .module <;> cases sides.options.parallel <;> rfl

theorem services_mergePaired (levels : Nat) (pairing : Pairing) :
    sides.services.mergePaired sides levels pairing = sides.mergePaired levels pairing := by
  induction levels generalizing pairing with
  | zero => cases pairing <;> rfl
  | succ levels ih =>
    cases pairing with
    | firstAlone a => rfl
    | secondAlone b => rfl
    | partners a b first common second =>
      have hrec : sides.services.mergePaired sides levels = sides.mergePaired levels := funext ih
      have hlift {α : Type} : sides.services.lift (α := α) = MergeM.ofSession := rfl
      have hnote : sides.services.note a b = pure () := rfl
      simp only [Services.mergePaired, mergePaired, hrec, hlift, hnote, services_pairSiblings,
        services_mergeParameters, services_intersect, services_mergeChildren, pure_bind]
      refine bind_congr fun common => ?_
      cases (sides.first.declaration a).kind with
      | module => cases sides.options.parallel <;> rfl
      | _ => rfl

/-- Done by a session, a merge is the merge of the two trees. -/
theorem services_merge (cache : Cache) :
    (sides.services.merge sides).run (Session.new sides.options cache) = sides.merge cache := by
  have hrec : sides.services.mergePaired sides sides.first.size =
      sides.mergePaired sides.first.size := funext (sides.services_mergePaired _)
  simp only [Services.merge, merge, hrec, services_pairSiblings, collect_eq]
  cases checkMergeable sides.first .first with
  | error error => rfl
  | ok _ =>
    cases checkMergeable sides.second .second with
    | error error => rfl
    | ok _ => rfl

end Sides

end Concord
