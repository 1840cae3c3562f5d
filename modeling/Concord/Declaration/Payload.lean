import Concord.Declaration.Attributes
import Concord.Type.Equality
import Concord.Type.Traversal

namespace Concord

/-- A module may have a name that stays the same between versions. -/
structure ModuleInfo where
  stableName : Option SimpleName
deriving DecidableEq, Inhabited

/-- A parameter of a constructor. -/
structure ConstructorParameter (ρ : Type) where
  name : SimpleName
  type : Ty ρ
  isVararg : Bool
  hasDefault : Bool
deriving DecidableEq

/-- A constructor belongs to the payload of its class and is no declaration of its own. -/
structure Constructor (ρ : Type) where
  isPrimary : Bool
  visibility : Visibility
  parameters : List (ConstructorParameter ρ)
deriving DecidableEq

structure ClassInfo (ρ : Type) where
  classKind : ClassKind
  isInline : Bool
  isData : Bool
  isInner : Bool
  isCompanion : Bool
  isExternal : Bool
  typeParameters : List (TypeParameter ρ)
  supertypes : List (Ty ρ)
  constructors : List (Constructor ρ)
deriving DecidableEq

/-- The parameters of a function are children of the function, in declaration order. -/
structure FunctionInfo (ρ : Type) where
  returnType : Ty ρ
  receiver : Option (Ty ρ)
  typeParameters : List (TypeParameter ρ)
  isSuspend : Bool
  isExternal : Bool
  isInline : Bool
  isOperator : Bool
deriving DecidableEq

/-- The getter or setter of a property. -/
structure Accessor where
  modality : Modality
  visibility : Visibility
  isInline : Bool
  isExternal : Bool
deriving DecidableEq, Inhabited

structure PropertyInfo (ρ : Type) where
  type : Ty ρ
  receiver : Option (Ty ρ)
  typeParameters : List (TypeParameter ρ)
  isVar : Bool
  isConst : Bool
  isLateinit : Bool
  isExternal : Bool
  getter : Option Accessor
  setter : Option Accessor
deriving DecidableEq

/-- The underlying type is the right-hand side as written, the expanded type has no aliases left. -/
structure AliasInfo (ρ : Type) where
  typeParameters : List (TypeParameter ρ)
  underlying : Ty ρ
  expanded : Ty ρ
deriving DecidableEq

/-- A parameter of a function. -/
structure ValueInfo (ρ : Type) where
  type : Ty ρ
  isVararg : Bool
  hasDefault : Bool
deriving DecidableEq

/-- What a declaration carries beyond its common attributes. -/
inductive Payload (ρ : Type) where
  | module (info : ModuleInfo)
  | package
  | classType (info : ClassInfo ρ)
  | function (info : FunctionInfo ρ)
  | property (info : PropertyInfo ρ)
  | typeAlias (info : AliasInfo ρ)
  | value (info : ValueInfo ρ)
deriving DecidableEq

namespace ClassInfo

variable {ρ : Type}

/-- A class of a kind, without parameters, supertypes and constructors. -/
def ofKind (classKind : ClassKind) : ClassInfo ρ :=
  ⟨classKind, false, false, false, false, false, [], [], []⟩

def isInterface (info : ClassInfo ρ) : Bool :=
  info.classKind == .interface

/-- The first constructor marked primary. -/
def primaryConstructor? (info : ClassInfo ρ) : Option (Constructor ρ) :=
  info.constructors.find? (·.isPrimary)

end ClassInfo

namespace Payload

variable {ρ : Type}

def kind : Payload ρ → Kind
  | module _ => .module
  | package => .package
  | classType _ => .classType
  | function _ => .function
  | property _ => .property
  | typeAlias _ => .typeAlias
  | value _ => .value

def class? : Payload ρ → Option (ClassInfo ρ)
  | classType info => some info
  | _ => none

def alias? : Payload ρ → Option (AliasInfo ρ)
  | typeAlias info => some info
  | _ => none

end Payload

section MapTypesM

variable {m : Type → Type} [Monad m] {ρ σ : Type} (f : Ty ρ → m (Ty σ))

/-- Maps the bounds of a type parameter. -/
def TypeParameter.mapTypesM (parameter : TypeParameter ρ) : m (TypeParameter σ) := do
  return { parameter with upperBounds := ← parameter.upperBounds.mapM f }

/-- Maps the parameter types of a constructor. -/
def Constructor.mapTypesM (constructor : Constructor ρ) : m (Constructor σ) := do
  let parameters ← constructor.parameters.mapM fun parameter => do
    return { parameter with type := ← f parameter.type }
  return { constructor with parameters }

/-- Maps a type that may be absent. -/
def optionalTypeM : Option (Ty ρ) → m (Option (Ty σ))
  | none => return none
  | some type => do return some (← f type)

/-- Maps every type of a class in the order of a walk. -/
def ClassInfo.mapTypesM (info : ClassInfo ρ) : m (ClassInfo σ) := do
  let typeParameters ← info.typeParameters.mapM (·.mapTypesM f)
  let supertypes ← info.supertypes.mapM f
  let constructors ← info.constructors.mapM (·.mapTypesM f)
  return { info with typeParameters, supertypes, constructors }

/-- Maps every type of a function in the order of a walk. -/
def FunctionInfo.mapTypesM (info : FunctionInfo ρ) : m (FunctionInfo σ) := do
  let typeParameters ← info.typeParameters.mapM (·.mapTypesM f)
  let receiver ← optionalTypeM f info.receiver
  let returnType ← f info.returnType
  return { info with typeParameters, receiver, returnType }

/-- Maps every type of a property in the order of a walk. -/
def PropertyInfo.mapTypesM (info : PropertyInfo ρ) : m (PropertyInfo σ) := do
  let typeParameters ← info.typeParameters.mapM (·.mapTypesM f)
  let receiver ← optionalTypeM f info.receiver
  let type ← f info.type
  return { info with typeParameters, receiver, type }

/-- Maps every type of an alias in the order of a walk. -/
def AliasInfo.mapTypesM (info : AliasInfo ρ) : m (AliasInfo σ) := do
  let typeParameters ← info.typeParameters.mapM (·.mapTypesM f)
  let underlying ← f info.underlying
  let expanded ← f info.expanded
  return { typeParameters, underlying, expanded }

/-- Maps the type of a value. -/
def ValueInfo.mapTypesM (info : ValueInfo ρ) : m (ValueInfo σ) := do
  return { info with type := ← f info.type }

/-- Maps every type of a payload in the order of a walk. The bounds of type parameters come first.
Then a class has its supertypes and constructor parameters, a callable its receiver and result, an
alias its underlying and its expanded type. -/
def Payload.mapTypesM : Payload ρ → m (Payload σ)
  | .module info => return .module info
  | .package => return .package
  | .classType info => return .classType (← info.mapTypesM f)
  | .function info => return .function (← info.mapTypesM f)
  | .property info => return .property (← info.mapTypesM f)
  | .typeAlias info => return .typeAlias (← info.mapTypesM f)
  | .value info => return .value (← info.mapTypesM f)

end MapTypesM

section MapTypes

variable {ρ σ : Type} (f : Ty ρ → Ty σ)

/-- Maps the bounds of a type parameter. -/
def TypeParameter.mapTypes (parameter : TypeParameter ρ) : TypeParameter σ :=
  (parameter.mapTypesM (m := Id) (pure ∘ f)).run

/-- Maps every type of a class. -/
def ClassInfo.mapTypes (info : ClassInfo ρ) : ClassInfo σ :=
  (info.mapTypesM (m := Id) (pure ∘ f)).run

/-- Maps every type of a function. -/
def FunctionInfo.mapTypes (info : FunctionInfo ρ) : FunctionInfo σ :=
  (info.mapTypesM (m := Id) (pure ∘ f)).run

/-- Maps every type of a property. -/
def PropertyInfo.mapTypes (info : PropertyInfo ρ) : PropertyInfo σ :=
  (info.mapTypesM (m := Id) (pure ∘ f)).run

/-- Maps the type of a value. -/
def ValueInfo.mapTypes (info : ValueInfo ρ) : ValueInfo σ :=
  (info.mapTypesM (m := Id) (pure ∘ f)).run

/-- Maps every type of a payload. -/
def Payload.mapTypes (payload : Payload ρ) : Payload σ :=
  (payload.mapTypesM (m := Id) (pure ∘ f)).run

end MapTypes

namespace Payload

variable {ρ σ : Type}

/-- Maps every reference of a payload in the order of a walk. -/
def mapRefsM {m : Type → Type} [Monad m] (f : ρ → m σ) (payload : Payload ρ) : m (Payload σ) :=
  payload.mapTypesM (Ty.mapM f)

/-- Maps every reference of a payload. -/
def mapRefs (f : ρ → σ) (payload : Payload ρ) : Payload σ :=
  payload.mapTypes (Ty.map f)

end Payload

end Concord
