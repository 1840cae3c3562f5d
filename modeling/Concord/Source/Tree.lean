import Concord.Source.Basic
import Concord.Tree.Build
import Concord.Tree.Link

namespace Concord

namespace Source

/-- Binds a spelling: a classifier becomes a name to be looked up. -/
def bind (owner : SimpleName) : Spelling → Except TreeError ClassifierRef
  | ⟨some name, none⟩ => .ok (.symbolic name)
  | ⟨none, some name⟩ => .ok (.typeParameter name)
  | ⟨none, none⟩ => .error (.malformedType owner.text .namesNothing)
  | ⟨some _, some _⟩ => .error (.malformedType owner.text .namesTwice)

/-- Binds every spelling of a type. -/
def bindType (owner : SimpleName) (type : Ty Spelling) : Except TreeError (Ty ClassifierRef) :=
  type.mapM (bind owner)

/-- Binds every spelling of a payload. Types are taken in the order of the written fields, which
decides which of two malformed types is reported. -/
def bindPayload (owner : SimpleName) :
    Payload → Except TreeError (Concord.Payload ClassifierRef)
  | .module info => return .module info
  | .package => return .package
  | .classType info => return .classType (← info.mapTypesM (bindType owner))
  | .function info => do
    let returnType ← bindType owner info.returnType
    let receiver ← optionalTypeM (bindType owner) info.receiver
    let typeParameters ← info.typeParameters.mapM (·.mapTypesM (bindType owner))
    return .function { info with returnType, receiver, typeParameters }
  | .property info => do
    let type ← bindType owner info.type
    let receiver ← optionalTypeM (bindType owner) info.receiver
    let typeParameters ← info.typeParameters.mapM (·.mapTypesM (bindType owner))
    return .property { info with type, receiver, typeParameters }
  | .typeAlias info => do
    let underlying ← bindType owner info.underlying
    let expanded ← match info.expanded with
      | some expanded => bindType owner expanded
      | none => pure underlying
    let typeParameters ← info.typeParameters.mapM (·.mapTypesM (bindType owner))
    return .typeAlias { typeParameters, underlying, expanded }
  | .value info => return .value (← info.mapTypesM (bindType owner))

/-- The declaration data of a source under a qualified name. -/
def data (source : Source) (qualifiedName : QualifiedName) : Except TreeError Data :=
  match source with
  | mk name visibility modality expectation payload _ => do
    return ⟨name, qualifiedName, visibility, modality, expectation, ← bindPayload name payload⟩

end Source

namespace Tree

/-- The qualified name of a written member: a package has its own, every other member extends the
one of its container. -/
def memberName (tree : Tree) (container : DeclId) (member : Source) :
    Except TreeError QualifiedName :=
  match member.kind with
  | .package => return ⟨member.name.text⟩
  | _ => do
    let owner ← tree.fetch container
    unless member.name.isSegment do throw (.invalidName member.name.text)
    return owner.qualifiedName.child member.name

mutual
/-- Declares a member in a container, and then its own members. -/
def addMember (tree : Tree) (container : DeclId) : Source → Except TreeError Tree
  | .mk name visibility modality expectation payload members => do
    let member := Source.mk name visibility modality expectation payload members
    let qualifiedName ← tree.memberName container member
    let data ← member.data qualifiedName
    let (id, grown) ← tree.insert container data
    addMembers grown id members
/-- Declares members in a container, one after the other. -/
def addMembers (tree : Tree) (container : DeclId) : List Source → Except TreeError Tree
  | [] => return tree
  | member :: members => do
    let grown ← addMember tree container member
    addMembers grown container members
end

/-- Declares a module with its members. Nothing else may be a root; the types of a root of another
kind are still checked first. -/
def addSource (tree : Tree) : Source → Except TreeError Tree
  | .mk name visibility modality expectation payload members => do
    let source := Source.mk name visibility modality expectation payload members
    unless payload.kind = .module do
      let found ← Source.bindPayload name payload
      throw (.rootNotModule name.text found.kind)
    let data ← source.data ⟨name.text⟩
    let (root, grown) := tree.addRoot data
    addMembers grown root members

/-- The linked tree of a list of modules. -/
def ofSources (sources : List Source) : Except TreeError Tree := do
  return (← sources.foldlM addSource empty).link

/-- How a reference is spelled. One that leads nowhere is spelled as nothing. -/
def spell (tree : Tree) : ClassifierRef → Spelling
  | .typeParameter name => ⟨none, some name⟩
  | reference => ⟨tree.nameOf? reference, none⟩

/-- A type as it is spelled. -/
def typeSource (tree : Tree) (type : Ty ClassifierRef) : Ty Spelling :=
  type.map tree.spell

/-- An alias as it is spelled. The expanded type is left out when it equals the underlying one. -/
def aliasSource (tree : Tree) (info : AliasInfo ClassifierRef) : Source.AliasInfo where
  underlying := tree.typeSource info.underlying
  expanded :=
    if info.expanded = info.underlying then none else some (tree.typeSource info.expanded)
  typeParameters := info.typeParameters.map (·.mapTypes tree.typeSource)

/-- A payload as it is spelled. -/
def payloadSource (tree : Tree) : Payload ClassifierRef → Source.Payload
  | .module info => .module info
  | .package => .package
  | .classType info => .classType (info.mapTypes tree.typeSource)
  | .function info => .function (info.mapTypes tree.typeSource)
  | .property info => .property (info.mapTypes tree.typeSource)
  | .typeAlias info => .typeAlias (tree.aliasSource info)
  | .value info => .value (info.mapTypes tree.typeSource)

/-- The source of a declaration whose members nest no deeper than `depth` levels. -/
def sourceWithin (tree : Tree) : (depth : Nat) → DeclId → Option Source
  | 0, _ => none
  | depth + 1, id => do
    let ⟨data, _, children⟩ ← tree.get? id
    return .mk data.name data.visibility data.modality data.expectation
      (tree.payloadSource data.payload) (children.filterMap (tree.sourceWithin depth))

/-- The source of a declaration. No chain of owned declarations is longer than the tree is large. -/
def source? (tree : Tree) (id : DeclId) : Option Source :=
  tree.sourceWithin tree.size id

/-- One source per root. -/
def toSources (tree : Tree) : List Source :=
  tree.roots.filterMap tree.source?

end Tree

end Concord
