import Concord.Proofs.Declaration.Payload
import Concord.Proofs.Type.References

namespace Concord

variable {ρ σ τ ε : Type}

def Constructor.types (constructor : Constructor ρ) : List (Ty ρ) :=
  constructor.parameters.map (·.type)

def ClassInfo.types (info : ClassInfo ρ) : List (Ty ρ) :=
  info.typeParameters.flatMap (·.upperBounds) ++
    (info.supertypes ++ info.constructors.flatMap (·.types))

def FunctionInfo.types (info : FunctionInfo ρ) : List (Ty ρ) :=
  info.typeParameters.flatMap (·.upperBounds) ++ (info.receiver.toList ++ [info.returnType])

def PropertyInfo.types (info : PropertyInfo ρ) : List (Ty ρ) :=
  info.typeParameters.flatMap (·.upperBounds) ++ (info.receiver.toList ++ [info.type])

def AliasInfo.types (info : AliasInfo ρ) : List (Ty ρ) :=
  info.typeParameters.flatMap (·.upperBounds) ++ [info.underlying, info.expanded]

namespace Payload

/-- The types of a payload in the order of a walk. -/
def types : Payload ρ → List (Ty ρ)
  | module _ | package => []
  | classType info => info.types
  | function info => info.types
  | property info => info.types
  | typeAlias info => info.types
  | value info => [info.type]

/-- The references of a payload in the order of a walk. -/
def refs (payload : Payload ρ) : List ρ :=
  payload.types.flatMap Ty.refs

end Payload

section Walk

variable (f : Ty ρ → Except ε (Ty σ))

private theorem succeeds_flatMap {α : Type} {items : List α} {types : α → List (Ty ρ)} :
    (∀ type ∈ items.flatMap types, (f type).Succeeds) ↔
      ∀ item ∈ items, ∀ type ∈ types item, (f type).Succeeds := by
  simp only [List.mem_flatMap]
  exact ⟨fun hall item hitem type htype => hall type ⟨item, hitem, htype⟩,
    fun hall type ⟨item, hitem, htype⟩ => hall item hitem type htype⟩

private theorem succeeds_typeParameters (parameters : List (TypeParameter ρ)) :
    (parameters.mapM (TypeParameter.mapTypesM f)).Succeeds ↔
      ∀ type ∈ parameters.flatMap (·.upperBounds), (f type).Succeeds := by
  rw [Except.succeeds_mapM, succeeds_flatMap]
  exact forall₂_congr fun _ _ => Except.succeeds_map.trans Except.succeeds_mapM

private theorem succeeds_constructors (constructors : List (Constructor ρ)) :
    (constructors.mapM (Constructor.mapTypesM f)).Succeeds ↔
      ∀ type ∈ constructors.flatMap (·.types), (f type).Succeeds := by
  rw [Except.succeeds_mapM, succeeds_flatMap]
  refine forall₂_congr fun constructor _ => Except.succeeds_map.trans ?_
  rw [Except.succeeds_mapM, Constructor.types, List.forall_mem_map]
  exact forall₂_congr fun _ _ => Except.succeeds_map

private theorem succeeds_optionalTypeM (type : Option (Ty ρ)) :
    (optionalTypeM f type).Succeeds ↔ ∀ inner ∈ type.toList, (f inner).Succeeds := by
  cases type with
  | none => exact iff_of_true Except.succeeds_pure nofun
  | some type =>
    rw [Option.toList_some, List.forall_mem_singleton]
    exact Except.succeeds_map

/-- A walk over a payload succeeds when it does so at every type. -/
theorem Payload.succeeds_mapTypesM (payload : Payload ρ) :
    (payload.mapTypesM f).Succeeds ↔ ∀ type ∈ payload.types, (f type).Succeeds := by
  cases payload with
  | module info => exact iff_of_true Except.succeeds_pure nofun
  | package => exact iff_of_true Except.succeeds_pure nofun
  | classType info =>
    refine Except.succeeds_map.trans ?_
    rw [types, ClassInfo.types, List.forall_mem_append, List.forall_mem_append,
      ← succeeds_typeParameters, ← succeeds_constructors, ← Except.succeeds_mapM]
    exact Except.succeeds_bind fun _ => Except.succeeds_bind fun _ => Except.succeeds_map
  | function info =>
    refine Except.succeeds_map.trans ?_
    rw [types, FunctionInfo.types, List.forall_mem_append, List.forall_mem_append,
      ← succeeds_typeParameters, ← succeeds_optionalTypeM, List.forall_mem_singleton]
    exact Except.succeeds_bind fun _ => Except.succeeds_bind fun _ => Except.succeeds_map
  | property info =>
    refine Except.succeeds_map.trans ?_
    rw [types, PropertyInfo.types, List.forall_mem_append, List.forall_mem_append,
      ← succeeds_typeParameters, ← succeeds_optionalTypeM, List.forall_mem_singleton]
    exact Except.succeeds_bind fun _ => Except.succeeds_bind fun _ => Except.succeeds_map
  | typeAlias info =>
    refine Except.succeeds_map.trans ?_
    rw [types, AliasInfo.types, List.forall_mem_append, List.forall_mem_cons,
      List.forall_mem_singleton, ← succeeds_typeParameters]
    exact Except.succeeds_bind fun _ => Except.succeeds_bind fun _ => Except.succeeds_map
  | value info =>
    refine Except.succeeds_map.trans ?_
    rw [types, List.forall_mem_singleton]
    exact Except.succeeds_map

section Errs

variable {f} {Q : ε → Prop}

private theorem errs_typeParameters {parameters : List (TypeParameter ρ)}
    (htypes : ∀ type ∈ parameters.flatMap (·.upperBounds), (f type).Errs Q) :
    (parameters.mapM (TypeParameter.mapTypesM f)).Errs Q :=
  Except.errs_mapM fun parameter hparameter => Except.errs_map (Except.errs_mapM fun type htype =>
    htypes type (List.mem_flatMap.mpr ⟨parameter, hparameter, htype⟩))

private theorem errs_constructors {constructors : List (Constructor ρ)}
    (htypes : ∀ type ∈ constructors.flatMap (·.types), (f type).Errs Q) :
    (constructors.mapM (Constructor.mapTypesM f)).Errs Q :=
  Except.errs_mapM fun constructor hconstructor => Except.errs_map
    (Except.errs_mapM fun parameter hparameter => Except.errs_map (htypes parameter.type
      (List.mem_flatMap.mpr ⟨constructor, hconstructor, List.mem_map_of_mem hparameter⟩)))

private theorem errs_optionalTypeM {type : Option (Ty ρ)}
    (htypes : ∀ inner ∈ type.toList, (f inner).Errs Q) : (optionalTypeM f type).Errs Q := by
  cases type with
  | none => exact Except.errs_pure
  | some type => exact Except.errs_map (htypes type (List.mem_singleton_self type))

/-- A walk over a payload fails as it does at a type. -/
theorem Payload.errs_mapTypesM {payload : Payload ρ}
    (htypes : ∀ type ∈ payload.types, (f type).Errs Q) : (payload.mapTypesM f).Errs Q := by
  cases payload with
  | module info => exact Except.errs_pure
  | package => exact Except.errs_pure
  | classType info =>
    rw [types, ClassInfo.types, List.forall_mem_append, List.forall_mem_append] at htypes
    obtain ⟨hbounds, hsupertypes, hconstructors⟩ := htypes
    exact Except.errs_map (Except.errs_bind (errs_typeParameters hbounds) fun _ =>
      Except.errs_bind (Except.errs_mapM hsupertypes) fun _ =>
        Except.errs_map (errs_constructors hconstructors))
  | function info =>
    rw [types, FunctionInfo.types, List.forall_mem_append, List.forall_mem_append,
      List.forall_mem_singleton] at htypes
    obtain ⟨hbounds, hreceiver, hreturn⟩ := htypes
    exact Except.errs_map (Except.errs_bind (errs_typeParameters hbounds) fun _ =>
      Except.errs_bind (errs_optionalTypeM hreceiver) fun _ => Except.errs_map hreturn)
  | property info =>
    rw [types, PropertyInfo.types, List.forall_mem_append, List.forall_mem_append,
      List.forall_mem_singleton] at htypes
    obtain ⟨hbounds, hreceiver, htype⟩ := htypes
    exact Except.errs_map (Except.errs_bind (errs_typeParameters hbounds) fun _ =>
      Except.errs_bind (errs_optionalTypeM hreceiver) fun _ => Except.errs_map htype)
  | typeAlias info =>
    rw [types, AliasInfo.types, List.forall_mem_append, List.forall_mem_cons,
      List.forall_mem_singleton] at htypes
    obtain ⟨hbounds, hunderlying, hexpanded⟩ := htypes
    exact Except.errs_map (Except.errs_bind (errs_typeParameters hbounds) fun _ =>
      Except.errs_bind hunderlying fun _ => Except.errs_map hexpanded)
  | value info => exact Except.errs_map (Except.errs_map (htypes _ (List.mem_singleton_self _)))

end Errs

end Walk

/-- A walk over the references of a payload fails as it does at one of them. -/
theorem Payload.mapRefsM_error {f : ρ → Except ε σ} {payload : Payload ρ} {error : ε}
    (herror : payload.mapRefsM f = .error error) :
    ∃ reference ∈ payload.refs, f reference = .error error := by
  refine errs_mapTypesM (Q := fun error => ∃ reference ∈ payload.refs, f reference = .error error)
    (fun type htype => Ty.errs_mapM f type fun reference href error hfails => ?_) error herror
  exact ⟨reference, List.mem_flatMap.mpr ⟨type, htype, href⟩, hfails⟩

/-- A walk over the references of a payload succeeds when it does so at each of them. -/
theorem Payload.succeeds_mapRefsM (f : ρ → Except ε σ) (payload : Payload ρ) :
    (payload.mapRefsM f).Succeeds ↔ ∀ reference ∈ payload.refs, (f reference).Succeeds := by
  rw [mapRefsM, succeeds_mapTypesM, refs]
  simp only [Ty.succeeds_mapM, List.mem_flatMap]
  exact ⟨fun hall reference ⟨type, htype, href⟩ => hall type htype reference href,
    fun hall type htype reference href => hall reference ⟨type, htype, href⟩⟩

section Map

variable (f : Ty ρ → Ty σ)

private theorem flatMap_typeParameters (parameters : List (TypeParameter ρ)) :
    (parameters.map (·.mapTypes f)).flatMap (·.upperBounds) =
      (parameters.flatMap (·.upperBounds)).map f := by
  simp [List.flatMap_map, List.map_flatMap, TypeParameter.mapTypes_eq]

private theorem flatMap_constructors (constructors : List (Constructor ρ)) :
    (constructors.map (·.mapTypes f)).flatMap (·.types) =
      (constructors.flatMap (·.types)).map f := by
  simp [List.flatMap_map, List.map_flatMap, Constructor.mapTypes, Constructor.types,
    Function.comp_def]

/-- Mapping the types of a payload maps each of them. -/
theorem Payload.types_mapTypes (payload : Payload ρ) :
    (payload.mapTypes f).types = payload.types.map f := by
  cases payload with
  | module info => rfl
  | package => rfl
  | classType info =>
    simp only [mapTypes_classType, types, ClassInfo.types, ClassInfo.mapTypes_eq,
      flatMap_typeParameters, flatMap_constructors, List.map_append]
  | function info =>
    simp only [mapTypes_function, types, FunctionInfo.types, FunctionInfo.mapTypes_eq,
      flatMap_typeParameters, List.map_append, List.map_cons, List.map_nil, Option.toList_map]
  | property info =>
    simp only [mapTypes_property, types, PropertyInfo.types, PropertyInfo.mapTypes_eq,
      flatMap_typeParameters, List.map_append, List.map_cons, List.map_nil, Option.toList_map]
  | typeAlias info =>
    simp only [mapTypes_typeAlias, types, AliasInfo.types, AliasInfo.mapTypes,
      flatMap_typeParameters, List.map_append, List.map_cons, List.map_nil]
  | value info => rfl

end Map

namespace Payload

/-- Mapping the references of a payload maps each of them. -/
theorem refs_mapRefs (f : ρ → σ) (payload : Payload ρ) :
    (payload.mapRefs f).refs = payload.refs.map f := by
  rw [refs, mapRefs, types_mapTypes, List.flatMap_map, refs, List.map_flatMap]
  simp only [Ty.refs_map]

/-- Maps that agree on the references of a payload map it alike. -/
theorem mapRefs_congr {f g : ρ → σ} {payload : Payload ρ}
    (hsame : ∀ reference ∈ payload.refs, f reference = g reference) :
    payload.mapRefs f = payload.mapRefs g := by
  classical
  -- A walk that stops where the maps differ goes through, and is a map either way.
  let agree (reference : ρ) : Except Unit ρ :=
    if f reference = g reference then .ok reference else .error ()
  have hagree {reference found : ρ} (hfound : agree reference = .ok found) :
      f reference = g reference ∧ found = reference := by
    by_cases heq : f reference = g reference
    · rw [show agree reference = .ok reference from if_pos heq] at hfound
      exact ⟨heq, (Except.ok.inj hfound).symm⟩
    · rw [show agree reference = .error () from if_neg heq] at hfound
      cases hfound
  obtain ⟨walked, hwalked⟩ := (succeeds_mapRefsM agree payload).mpr fun reference href =>
    ⟨reference, if_pos (hsame reference href)⟩
  rw [← mapRefs_of_mapRefsM (g := f) (fun reference found hfound => by rw [(hagree hfound).2])
    hwalked]
  refine mapRefs_of_mapRefsM (fun reference found hfound => ?_) hwalked
  obtain ⟨heq, rfl⟩ := hagree hfound
  exact heq

/-- Collapsing the types of a payload names nothing new. -/
theorem refs_collapse (payload : Payload ρ) :
    (payload.mapTypes Ty.collapse).refs ⊆ payload.refs := by
  intro reference href
  rw [refs, types_mapTypes, List.flatMap_map] at href
  obtain ⟨type, htype, href⟩ := List.mem_flatMap.mp href
  exact List.mem_flatMap.mpr ⟨type, htype, type.refs_collapse href⟩

end Payload

end Concord
