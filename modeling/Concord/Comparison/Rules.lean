import Concord.Comparison.Mismatch
import Concord.Comparison.Types

namespace Concord

/-- What is known of the class that a type alias stands for. -/
structure AliasedClass where
  classKind : ClassKind
  modality : Modality
  visibility : Visibility
  isInline : Bool
  supertypes : List (Ty ClassifierRef)

/-- A class outside the tree, of which nothing is known, counts as a plain final class. -/
def AliasedClass.external : AliasedClass :=
  ⟨.ordinary, .final, .everyone, false, []⟩

/-- The class that the right-hand side of an alias names. Aliases of aliases and right-hand sides
with arguments have no shared form. -/
def Tree.aliasedClass (tree : Tree) : Ty ClassifierRef → Except Unshareable AliasedClass
  | .flexible _ _ => .error .aliasOfAlias
  | .simple type =>
    if type.abbreviation.isSome then .error .aliasOfAlias
    else if !type.arguments.isEmpty then .error .parameterizedAlias
    else match tree.resolve? type.classifier with
      | none => .ok .external
      | some id =>
        let target := tree.declaration id
        match target.payload.class? with
        | some info => .ok
            ⟨info.classKind, target.data.modality, target.data.visibility, info.isInline,
              info.supertypes⟩
        | none => .error .aliasOfAlias

/-- What an alias stands for. One without a shared form counts as standing for a class outside the
tree. -/
def Tree.aliasedClassOf (tree : Tree) (id : DeclId) : AliasedClass :=
  match (tree.declaration id).payload.alias? with
  | none => .external
  | some info =>
    match tree.aliasedClass info.underlying with
    | .ok target => target
    | .error _ => .external

section

variable {m : Type → Type} [Monad m] (sides : Sides) (ask : DeclId → DeclId → m Bool)

/-- Whether the classes around two nested classes can be shared. A class that is not nested in a
class matches one that is not either. -/
def containersAgree (a b : DeclId) : m Bool :=
  match sides.first.enclosingClass? a, sides.second.enclosingClass? b with
  | none, none => return true
  | some (x, _), some (y, _) => ask x y
  | none, some _ | some _, none => return false

/-- The rules on two classes, added to what failed before. -/
def classFailures (a b : DeclId) (infoA infoB : ClassInfo ClassifierRef) (failed : Mismatch) :
    m Mismatch := do
  let failed := failed.require (infoA.classKind == infoB.classKind) .classKinds
  let parameters ← typeParametersAgree sides ask infoA.typeParameters infoB.typeParameters
  let failed := failed.require parameters .typeParameters
  let containers ← containersAgree sides ask a b
  return failed.require containers .containers

/-- The rules on what two aliases stand for, added to what failed before. -/
def aliasedClassFailures (failed : Mismatch) :
    Except Unshareable AliasedClass → Except Unshareable AliasedClass → Mismatch
  | .ok a, .ok b =>
    let agree :=
      a.classKind == b.classKind && a.modality == b.modality && a.visibility == b.visibility
    (failed.require agree .aliasedClasses).require (!(a.isInline || b.isInline))
      (.unsupported .inlineAliasTarget)
  | .error construct, _ | .ok _, .error construct => failed.push (.unsupported construct)

/-- The rules on two aliases, added to what failed before. -/
def aliasFailures (infoA infoB : AliasInfo ClassifierRef) (failed : Mismatch) : Mismatch :=
  let failed := failed.require (infoA.typeParameters.isEmpty && infoB.typeParameters.isEmpty)
    (.unsupported .parameterizedAlias)
  aliasedClassFailures failed (sides.first.aliasedClass infoA.underlying)
    (sides.second.aliasedClass infoB.underlying)

/-- The rules on two classifiers. Different kinds and private declarations are not looked into. All
rules of a kind are checked, in a fixed order, and every one that fails adds its cause. Where a rule
needs to know whether two other classifiers can be shared, it asks. -/
def classifierFailures (a b : DeclId) : m Mismatch := do
  let declA := (sides.first.declaration a).data
  let declB := (sides.second.declaration b).data
  if declA.kind != declB.kind then return .ofCause (.kinds declA.kind declB.kind)
  if declA.visibility.isPrivate || declB.visibility.isPrivate then return .ofCause .privacy
  let failed := Mismatch.none.require (declA.qualifiedName == declB.qualifiedName) .names
  match declA.payload, declB.payload with
  | .classType infoA, .classType infoB => classFailures sides ask a b infoA infoB failed
  | .typeAlias infoA, .typeAlias infoB => return aliasFailures sides infoA infoB failed
  | _, _ => return failed

end

end Concord
