import Concord.Declaration.Basic
import Concord.Proofs.Type.Traversal

namespace Concord

variable {ρ σ τ : Type} {ε : Type}

section Map

variable (f : Ty ρ → Ty σ)

theorem TypeParameter.mapTypes_eq (parameter : TypeParameter ρ) :
    parameter.mapTypes f = { parameter with upperBounds := parameter.upperBounds.map f } := by
  simp [TypeParameter.mapTypes, TypeParameter.mapTypesM, Function.comp_def]

/-- Maps the parameter types of a constructor. -/
def Constructor.mapTypes (constructor : Constructor ρ) : Constructor σ :=
  { constructor with
    parameters := constructor.parameters.map fun parameter =>
      { parameter with type := f parameter.type } }

theorem ClassInfo.mapTypes_eq (info : ClassInfo ρ) :
    info.mapTypes f = { info with
      typeParameters := info.typeParameters.map (·.mapTypes f)
      supertypes := info.supertypes.map f
      constructors := info.constructors.map (·.mapTypes f) } := by
  simp [ClassInfo.mapTypes, ClassInfo.mapTypesM, TypeParameter.mapTypes, Constructor.mapTypesM,
    Constructor.mapTypes, Function.comp_def]

theorem FunctionInfo.mapTypes_eq (info : FunctionInfo ρ) :
    info.mapTypes f = { info with
      typeParameters := info.typeParameters.map (·.mapTypes f)
      receiver := info.receiver.map f
      returnType := f info.returnType } := by
  cases hreceiver : info.receiver <;>
    simp [FunctionInfo.mapTypes, FunctionInfo.mapTypesM, TypeParameter.mapTypes, optionalTypeM,
      hreceiver]

theorem PropertyInfo.mapTypes_eq (info : PropertyInfo ρ) :
    info.mapTypes f = { info with
      typeParameters := info.typeParameters.map (·.mapTypes f)
      receiver := info.receiver.map f
      type := f info.type } := by
  cases hreceiver : info.receiver <;>
    simp [PropertyInfo.mapTypes, PropertyInfo.mapTypesM, TypeParameter.mapTypes, optionalTypeM,
      hreceiver]

theorem ValueInfo.mapTypes_eq (info : ValueInfo ρ) :
    info.mapTypes f = { info with type := f info.type } :=
  rfl

/-- Maps every type of an alias. -/
def AliasInfo.mapTypes (info : AliasInfo ρ) : AliasInfo σ where
  typeParameters := info.typeParameters.map (·.mapTypes f)
  underlying := f info.underlying
  expanded := f info.expanded

theorem Payload.mapTypes_classType (info : ClassInfo ρ) :
    (Payload.classType info).mapTypes f = .classType (info.mapTypes f) :=
  rfl

theorem Payload.mapTypes_function (info : FunctionInfo ρ) :
    (Payload.function info).mapTypes f = .function (info.mapTypes f) :=
  rfl

theorem Payload.mapTypes_property (info : PropertyInfo ρ) :
    (Payload.property info).mapTypes f = .property (info.mapTypes f) :=
  rfl

theorem Payload.mapTypes_typeAlias (info : AliasInfo ρ) :
    (Payload.typeAlias info).mapTypes f = .typeAlias (info.mapTypes f) := by
  simp [Payload.mapTypes, Payload.mapTypesM, AliasInfo.mapTypesM, AliasInfo.mapTypes,
    TypeParameter.mapTypes]

theorem Payload.mapTypes_value (info : ValueInfo ρ) :
    (Payload.value info).mapTypes f = .value (info.mapTypes f) :=
  rfl

@[simp] theorem Payload.kind_mapTypes (payload : Payload ρ) :
    (payload.mapTypes f).kind = payload.kind := by
  cases payload with
  | typeAlias info => rw [Payload.mapTypes_typeAlias]; rfl
  | _ => rfl

end Map

/-- A payload of a kind. -/
def Payload.OfKind (payload : Payload ρ) : Kind → Prop
  | .module => ∃ info, payload = .module info
  | .package => payload = .package
  | .classType => ∃ info, payload = .classType info
  | .function => ∃ info, payload = .function info
  | .property => ∃ info, payload = .property info
  | .typeAlias => ∃ info, payload = .typeAlias info
  | .value => ∃ info, payload = .value info

/-- Of a kind are the payloads that one constructor makes. -/
theorem Payload.ofKind {payload : Payload ρ} {kind : Kind} (hkind : payload.kind = kind) :
    payload.OfKind kind := by
  subst hkind
  cases payload with
  | package => exact rfl
  | _ => exact ⟨_, rfl⟩

section Comp

variable (f : Ty ρ → Ty σ) (g : Ty σ → Ty τ)

theorem TypeParameter.mapTypes_mapTypes (parameter : TypeParameter ρ) :
    (parameter.mapTypes f).mapTypes g = parameter.mapTypes (g ∘ f) := by
  simp [TypeParameter.mapTypes_eq]

theorem ClassInfo.mapTypes_mapTypes (info : ClassInfo ρ) :
    (info.mapTypes f).mapTypes g = info.mapTypes (g ∘ f) := by
  simp [ClassInfo.mapTypes_eq, TypeParameter.mapTypes_mapTypes, Constructor.mapTypes,
    Function.comp_def]

theorem FunctionInfo.mapTypes_mapTypes (info : FunctionInfo ρ) :
    (info.mapTypes f).mapTypes g = info.mapTypes (g ∘ f) := by
  simp [FunctionInfo.mapTypes_eq, TypeParameter.mapTypes_mapTypes]

theorem PropertyInfo.mapTypes_mapTypes (info : PropertyInfo ρ) :
    (info.mapTypes f).mapTypes g = info.mapTypes (g ∘ f) := by
  simp [PropertyInfo.mapTypes_eq, TypeParameter.mapTypes_mapTypes]

theorem AliasInfo.mapTypes_mapTypes (info : AliasInfo ρ) :
    (info.mapTypes f).mapTypes g = info.mapTypes (g ∘ f) := by
  simp [AliasInfo.mapTypes, TypeParameter.mapTypes_mapTypes]

/-- Mapping types twice is mapping them once. -/
theorem Payload.mapTypes_mapTypes (payload : Payload ρ) :
    (payload.mapTypes f).mapTypes g = payload.mapTypes (g ∘ f) := by
  cases payload with
  | module info => rfl
  | package => rfl
  | classType info =>
    simp only [Payload.mapTypes_classType, ClassInfo.mapTypes_mapTypes]
  | function info =>
    simp only [Payload.mapTypes_function, FunctionInfo.mapTypes_mapTypes]
  | property info =>
    simp only [Payload.mapTypes_property, PropertyInfo.mapTypes_mapTypes]
  | typeAlias info =>
    simp only [Payload.mapTypes_typeAlias, AliasInfo.mapTypes_mapTypes]
  | value info => rfl

end Comp

section Id

theorem TypeParameter.mapTypes_id (parameter : TypeParameter ρ) :
    parameter.mapTypes id = parameter := by
  simp [TypeParameter.mapTypes_eq]

theorem ClassInfo.mapTypes_id (info : ClassInfo ρ) : info.mapTypes id = info := by
  simp [ClassInfo.mapTypes_eq, Constructor.mapTypes, TypeParameter.mapTypes_id]

theorem FunctionInfo.mapTypes_id (info : FunctionInfo ρ) : info.mapTypes id = info := by
  simp [FunctionInfo.mapTypes_eq, TypeParameter.mapTypes_id]

theorem PropertyInfo.mapTypes_id (info : PropertyInfo ρ) : info.mapTypes id = info := by
  simp [PropertyInfo.mapTypes_eq, TypeParameter.mapTypes_id]

theorem Payload.mapTypes_id (payload : Payload ρ) : payload.mapTypes id = payload := by
  cases payload with
  | classType info => rw [Payload.mapTypes_classType, ClassInfo.mapTypes_id]
  | function info => rw [Payload.mapTypes_function, FunctionInfo.mapTypes_id]
  | property info => rw [Payload.mapTypes_property, PropertyInfo.mapTypes_id]
  | typeAlias info => simp [Payload.mapTypes_typeAlias, AliasInfo.mapTypes, TypeParameter.mapTypes_id]
  | _ => rfl

end Id

section Fail

variable {f : Ty ρ → Except ε (Ty σ)} {g : Ty σ → Ty τ} {h : Ty ρ → Ty τ}
  (hf : ∀ type bound, f type = .ok bound → g bound = h type)
include hf

theorem TypeParameter.mapTypes_of_mapTypesM {parameter : TypeParameter ρ}
    {bound : TypeParameter σ} (hrun : parameter.mapTypesM f = .ok bound) :
    bound.mapTypes g = parameter.mapTypes h := by
  obtain ⟨bounds, hbounds, heq⟩ := Except.bind_eq_ok.mp hrun
  cases heq
  simp only [TypeParameter.mapTypes_eq, Except.map_of_mapM hbounds hf]

theorem Constructor.mapTypes_of_mapTypesM {constructor : Constructor ρ} {bound : Constructor σ}
    (hrun : constructor.mapTypesM f = .ok bound) : bound.mapTypes g = constructor.mapTypes h := by
  obtain ⟨parameters, hparameters, heq⟩ := Except.bind_eq_ok.mp hrun
  cases heq
  have hsame := Except.map_of_mapM
    (g := fun parameter => { parameter with type := g parameter.type })
    (h := fun parameter => { parameter with type := h parameter.type }) hparameters
    fun parameter result hresult => by
      obtain ⟨type, htype, heq⟩ := Except.bind_eq_ok.mp hresult
      cases heq
      simp only [hf _ _ htype]
  simp only [Constructor.mapTypes, hsame]

theorem optionalType_of_optionalTypeM {type : Option (Ty ρ)} {bound : Option (Ty σ)}
    (hrun : optionalTypeM f type = .ok bound) : bound.map g = type.map h := by
  cases type with
  | none =>
    cases hrun
    rfl
  | some type =>
    obtain ⟨inner, hinner, heq⟩ := Except.bind_eq_ok.mp hrun
    cases heq
    rw [Option.map_some, Option.map_some, hf _ _ hinner]

theorem ClassInfo.mapTypes_of_mapTypesM {info : ClassInfo ρ} {bound : ClassInfo σ}
    (hrun : info.mapTypesM f = .ok bound) : bound.mapTypes g = info.mapTypes h := by
  obtain ⟨typeParameters, htypeParameters, hrun⟩ := Except.bind_eq_ok.mp hrun
  obtain ⟨supertypes, hsupertypes, hrun⟩ := Except.bind_eq_ok.mp hrun
  obtain ⟨constructors, hconstructors, heq⟩ := Except.bind_eq_ok.mp hrun
  cases heq
  simp only [ClassInfo.mapTypes_eq, Except.map_of_mapM hsupertypes hf,
    Except.map_of_mapM htypeParameters fun _ _ => TypeParameter.mapTypes_of_mapTypesM hf,
    Except.map_of_mapM hconstructors fun _ _ => Constructor.mapTypes_of_mapTypesM hf]

theorem FunctionInfo.mapTypes_of_mapTypesM {info : FunctionInfo ρ} {bound : FunctionInfo σ}
    (hrun : info.mapTypesM f = .ok bound) : bound.mapTypes g = info.mapTypes h := by
  obtain ⟨typeParameters, htypeParameters, hrun⟩ := Except.bind_eq_ok.mp hrun
  obtain ⟨receiver, hreceiver, hrun⟩ := Except.bind_eq_ok.mp hrun
  obtain ⟨returnType, hreturnType, heq⟩ := Except.bind_eq_ok.mp hrun
  cases heq
  simp only [FunctionInfo.mapTypes_eq, hf _ _ hreturnType,
    Except.map_of_mapM htypeParameters fun _ _ => TypeParameter.mapTypes_of_mapTypesM hf,
    optionalType_of_optionalTypeM hf hreceiver]

theorem PropertyInfo.mapTypes_of_mapTypesM {info : PropertyInfo ρ} {bound : PropertyInfo σ}
    (hrun : info.mapTypesM f = .ok bound) : bound.mapTypes g = info.mapTypes h := by
  obtain ⟨typeParameters, htypeParameters, hrun⟩ := Except.bind_eq_ok.mp hrun
  obtain ⟨receiver, hreceiver, hrun⟩ := Except.bind_eq_ok.mp hrun
  obtain ⟨type, htype, heq⟩ := Except.bind_eq_ok.mp hrun
  cases heq
  simp only [PropertyInfo.mapTypes_eq, hf _ _ htype,
    Except.map_of_mapM htypeParameters fun _ _ => TypeParameter.mapTypes_of_mapTypesM hf,
    optionalType_of_optionalTypeM hf hreceiver]

theorem AliasInfo.mapTypes_of_mapTypesM {info : AliasInfo ρ} {bound : AliasInfo σ}
    (hrun : info.mapTypesM f = .ok bound) : bound.mapTypes g = info.mapTypes h := by
  obtain ⟨typeParameters, htypeParameters, hrun⟩ := Except.bind_eq_ok.mp hrun
  obtain ⟨underlying, hunderlying, hrun⟩ := Except.bind_eq_ok.mp hrun
  obtain ⟨expanded, hexpanded, heq⟩ := Except.bind_eq_ok.mp hrun
  cases heq
  simp only [AliasInfo.mapTypes, hf _ _ hunderlying, hf _ _ hexpanded,
    Except.map_of_mapM htypeParameters fun _ _ => TypeParameter.mapTypes_of_mapTypesM hf]

theorem ValueInfo.mapTypes_of_mapTypesM {info : ValueInfo ρ} {bound : ValueInfo σ}
    (hrun : info.mapTypesM f = .ok bound) : bound.mapTypes g = info.mapTypes h := by
  obtain ⟨type, htype, heq⟩ := Except.bind_eq_ok.mp hrun
  cases heq
  simp only [ValueInfo.mapTypes_eq, hf _ _ htype]

/-- Where a walk over a payload succeeds, it is a map. -/
theorem Payload.mapTypes_of_mapTypesM {payload : Payload ρ} {bound : Payload σ}
    (hrun : payload.mapTypesM f = .ok bound) : bound.mapTypes g = payload.mapTypes h := by
  cases payload with
  | module info =>
    cases hrun
    rfl
  | package =>
    cases hrun
    rfl
  | classType info =>
    obtain ⟨inner, hinner, heq⟩ := Except.bind_eq_ok.mp hrun
    cases heq
    simp only [Payload.mapTypes_classType, ClassInfo.mapTypes_of_mapTypesM hf hinner]
  | function info =>
    obtain ⟨inner, hinner, heq⟩ := Except.bind_eq_ok.mp hrun
    cases heq
    simp only [Payload.mapTypes_function, FunctionInfo.mapTypes_of_mapTypesM hf hinner]
  | property info =>
    obtain ⟨inner, hinner, heq⟩ := Except.bind_eq_ok.mp hrun
    cases heq
    simp only [Payload.mapTypes_property, PropertyInfo.mapTypes_of_mapTypesM hf hinner]
  | typeAlias info =>
    obtain ⟨inner, hinner, heq⟩ := Except.bind_eq_ok.mp hrun
    cases heq
    simp only [Payload.mapTypes_typeAlias, AliasInfo.mapTypes_of_mapTypesM hf hinner]
  | value info =>
    obtain ⟨inner, hinner, heq⟩ := Except.bind_eq_ok.mp hrun
    cases heq
    simp only [Payload.mapTypes_value, ValueInfo.mapTypes_of_mapTypesM hf hinner]

end Fail

namespace Payload

@[simp] theorem kind_mapRefs (f : ρ → σ) (payload : Payload ρ) :
    (payload.mapRefs f).kind = payload.kind :=
  payload.kind_mapTypes _

theorem mapRefs_id (payload : Payload ρ) : payload.mapRefs id = payload := by
  rw [mapRefs, show (Ty.map id : Ty ρ → Ty ρ) = id from funext Ty.map_id, mapTypes_id]

/-- Mapping references twice is mapping them once. -/
theorem mapRefs_mapRefs (f : ρ → σ) (g : σ → τ) (payload : Payload ρ) :
    (payload.mapRefs f).mapRefs g = payload.mapRefs (g ∘ f) := by
  rw [mapRefs, mapRefs, mapTypes_mapTypes, mapRefs,
    show Ty.map g ∘ Ty.map f = Ty.map (g ∘ f) from funext (Ty.map_map f g)]

/-- The types of a payload are put in their alias spelling whatever they name. -/
theorem mapTypes_collapse_mapRefs (f : ρ → σ) (payload : Payload ρ) :
    (payload.mapRefs f).mapTypes Ty.collapse = (payload.mapTypes Ty.collapse).mapRefs f := by
  rw [mapRefs, mapRefs, mapTypes_mapTypes, mapTypes_mapTypes]
  congr 1
  exact funext (Ty.collapse_map f)

/-- Where a walk over the references of a payload succeeds, it is a map. -/
theorem mapRefs_of_mapRefsM {f : ρ → Except ε σ} {g : σ → τ} {h : ρ → τ}
    (hf : ∀ reference bound, f reference = .ok bound → g bound = h reference)
    {payload : Payload ρ} {bound : Payload σ} (hrun : payload.mapRefsM f = .ok bound) :
    bound.mapRefs g = payload.mapRefs h :=
  mapTypes_of_mapTypesM (fun type result => Ty.map_of_mapM hf type result) hrun

end Payload

@[simp] theorem Data.kind_mapRefs (f : ClassifierRef → ClassifierRef) (data : Data) :
    (data.mapRefs f).kind = data.kind :=
  data.payload.kind_mapRefs f

end Concord
