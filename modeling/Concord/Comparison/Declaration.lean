import Concord.Comparison.Intersection
import Concord.Comparison.Session

namespace Concord

/-- The outcome of a comparison. -/
inductive Comparison where
  | matched (first common second : Data)
  | mismatched (mismatch : Mismatch)
deriving DecidableEq

/-- Whether two accessors that may be absent agree. Whether they are external does not count. -/
def accessorsAgree : Option Accessor → Option Accessor → Bool
  | none, none => true
  | some a, some b =>
    a.modality == b.modality && a.visibility == b.visibility && a.isInline == b.isInline
  | none, some _ | some _, none => false

section

variable {m : Type → Type} [Monad m] (sides : Sides) (ask : DeclId → DeclId → m Bool)

/-- The rules on two values. Their names do not count. -/
def valueFailures (a b : DeclId) : m Mismatch := do
  let declA := (sides.first.declaration a).data
  let declB := (sides.second.declaration b).data
  match declA.payload, declB.payload with
  | .value infoA, .value infoB =>
    let types ← typesAgree sides ask infoA.type infoB.type
    return (Mismatch.none.require types .types).require (infoA.isVararg == infoB.isVararg) .varargs
  | _, _ => return .ofCause (.kinds declA.kind declB.kind)

/-- The rules on the parameters of two functions, from a place on. -/
def parameterFailures : (place : Nat) → List DeclId → List DeclId → Mismatch → m Mismatch
  | place, a :: as, b :: bs, failed => do
    let mismatch ← valueFailures sides ask a b
    parameterFailures (place + 1) as bs (failed.require mismatch.isEmpty (.parameter place))
  | _, _, _, failed => return failed

/-- The rules on two functions. -/
def functionFailures (a b : DeclId) (dataA dataB : Data)
    (infoA infoB : FunctionInfo ClassifierRef) : m Mismatch := do
  let failed := Mismatch.none.require
    (!sides.options.isExcluded dataA.name && !sides.options.isExcluded dataB.name) .excluded
  let failed := failed.require (dataA.qualifiedName == dataB.qualifiedName) .names
  let failed := failed.require (dataA.visibility == dataB.visibility) .visibilities
  let failed := failed.require (infoA.isSuspend == infoB.isSuspend) .suspends
  let returnTypes ← typesAgree sides ask infoA.returnType infoB.returnType
  let failed := failed.require returnTypes .returnTypes
  let receivers ← optionalTypesAgree sides ask infoA.receiver infoB.receiver
  let failed := failed.require receivers .receivers
  let parameters ← typeParametersAgree sides ask infoA.typeParameters infoB.typeParameters
  let failed := failed.require parameters .typeParameters
  let valuesA := sides.first.children a
  let valuesB := sides.second.children b
  if valuesA.length == valuesB.length then parameterFailures sides ask 0 valuesA valuesB failed
  else return failed.push .parameterCounts

/-- The rules on two properties. -/
def propertyFailures (dataA dataB : Data) (infoA infoB : PropertyInfo ClassifierRef) :
    m Mismatch := do
  let failed := Mismatch.none.require (dataA.qualifiedName == dataB.qualifiedName) .names
  let failed := failed.require (dataA.visibility == dataB.visibility) .visibilities
  let types ← typesAgree sides ask infoA.type infoB.type
  let failed := failed.require types .types
  let parameters ← typeParametersAgree sides ask infoA.typeParameters infoB.typeParameters
  let failed := failed.require parameters .typeParameters
  let failed := failed.require (!infoA.isConst && !infoB.isConst) .constProperty
  let failed := failed.require (!infoA.isLateinit && !infoB.isLateinit) .lateinitProperty
  let failed := failed.require (infoA.isVar == infoB.isVar) .vars
  let failed := failed.require (accessorsAgree infoA.getter infoB.getter) (.accessors .getter)
  let failed := failed.require (accessorsAgree infoA.setter infoB.setter) (.accessors .setter)
  let receivers ← optionalTypesAgree sides ask infoA.receiver infoB.receiver
  return failed.require receivers .receivers

/-- What the class of two matched aliases is like: the class that the first stands for, with the
supertypes that both have in common. -/
def sharedOfAliases (a b : DeclId) (first : Data) : m Data := do
  let targetA := sides.first.aliasedClassOf a
  let targetB := sides.second.aliasedClassOf b
  let places ← sharedSupertypes sides ask targetA.supertypes targetB.supertypes
  let supertypes := (keepAt targetA.supertypes places).map sides.first.detachType
  let info := { ClassInfo.ofKind targetA.classKind with supertypes }
  return { Data.ofPayload first.name first.qualifiedName (.classType info) with
    visibility := first.visibility
    modality := targetA.modality }

/-- The three payloads of two declarations that match. None has links into its tree. The shared one
is the first side's with every type in its alias spelling; two aliases share a class of the alias's
name, shaped like the classes that they stand for. -/
def matchedPayloads (a b : DeclId) : m Comparison := do
  let first := (sides.first.declaration a).data.mapRefs sides.first.detachRef
  let second := (sides.second.declaration b).data.mapRefs sides.second.detachRef
  let common ← match first.payload, second.payload with
    | .typeAlias _, .typeAlias _ => sharedOfAliases sides ask a b first
    | _, _ => pure first
  return .matched first { common with payload := common.payload.mapTypes Ty.collapse } second

end

namespace Sides

variable (sides : Sides)

/-- The rules that two declarations fail. Different kinds, private declarations and members of
interfaces that are not abstract are not looked into. -/
def failuresOf (a b : DeclId) : StateM Session Mismatch := do
  let dataA := (sides.first.declaration a).data
  let dataB := (sides.second.declaration b).data
  if dataA.kind != dataB.kind then return .ofCause (.kinds dataA.kind dataB.kind)
  if dataA.visibility.isPrivate || dataB.visibility.isPrivate then return .ofCause .privacy
  if sides.first.isConcreteInterfaceMember a || sides.second.isConcreteInterfaceMember b then
    return .ofCause .concreteInterfaceMember
  match dataA.payload, dataB.payload with
  | .function infoA, .function infoB =>
    functionFailures sides sides.shareable a b dataA dataB infoA infoB
  | .property infoA, .property infoB =>
    propertyFailures sides sides.shareable dataA dataB infoA infoB
  | .value _, .value _ => valueFailures sides sides.shareable a b
  | .module _, _ => return Mismatch.none.require (dataA.name == dataB.name) .names
  | .package, _ =>
    return Mismatch.none.require (dataA.qualifiedName == dataB.qualifiedName) .names
  | _, _ => sides.compareClassifiers a b

/-- Compares two declarations. A declaration of one tree compared with itself always matches. A
comparison that hit a limit never does. -/
def compare (a b : DeclId) : StateM Session Comparison := do
  if sides.same && a == b then matchedPayloads sides sides.shareable a b
  else
    let before ← get
    let mismatch ← sides.failuresOf a b
    let after ← get
    let mismatch := mismatch.require (after.limitHits == before.limitHits) .recursionLimit
    if mismatch.isEmpty then matchedPayloads sides sides.shareable a b
    else return .mismatched mismatch

end Sides

end Concord
