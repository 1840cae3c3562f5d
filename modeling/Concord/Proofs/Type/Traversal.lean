import Concord.Proofs.Steps
import Concord.Type.Traversal

namespace Concord

variable {ρ σ τ : Type} {ε : Type}

section Map

variable (f : ρ → σ)

/-- Maps every reference of an argument list. -/
def mapArguments (arguments : List (TypeArgument ρ)) : List (TypeArgument σ) :=
  (mapArgumentsM (m := Id) f arguments).run

/-- Maps every reference of an abbreviation, if there is one. -/
def mapAbbreviation (spelling : Option (SimpleType ρ)) : Option (SimpleType σ) :=
  (mapAbbreviationM (m := Id) f spelling).run

theorem Ty.map_simple (type : SimpleType ρ) : (Ty.simple type).map f = .simple (type.map f) :=
  rfl

theorem Ty.map_flexible (lower upper : SimpleType ρ) :
    (Ty.flexible lower upper).map f = .flexible (lower.map f) (upper.map f) :=
  rfl

theorem SimpleType.map_mk (classifier : ρ) (arguments : List (TypeArgument ρ))
    (nullable definitelyNotNull : Bool) (abbreviation : Option (SimpleType ρ)) :
    SimpleType.map f ⟨classifier, arguments, nullable, definitelyNotNull, abbreviation⟩ =
      ⟨f classifier, mapArguments f arguments, nullable, definitelyNotNull,
        mapAbbreviation f abbreviation⟩ :=
  rfl

theorem mapArguments_nil : mapArguments f [] = [] :=
  rfl

theorem mapArguments_star (rest : List (TypeArgument ρ)) :
    mapArguments f (.star :: rest) = .star :: mapArguments f rest :=
  rfl

theorem mapArguments_projection (variance : Variance) (type : Ty ρ)
    (rest : List (TypeArgument ρ)) :
    mapArguments f (.projection variance type :: rest) =
      .projection variance (type.map f) :: mapArguments f rest :=
  rfl

theorem mapAbbreviation_none : mapAbbreviation f none = none :=
  rfl

theorem mapAbbreviation_some (spelling : SimpleType ρ) :
    mapAbbreviation f (some spelling) = some (spelling.map f) :=
  rfl

end Map

section Comp

variable (f : ρ → σ) (g : σ → τ)

mutual
/-- Mapping references twice is mapping them once. -/
theorem Ty.map_map : ∀ type : Ty ρ, (type.map f).map g = type.map (g ∘ f)
  | .simple type => by rw [Ty.map_simple, Ty.map_simple, Ty.map_simple, SimpleType.map_map]
  | .flexible lower upper => by
    rw [Ty.map_flexible, Ty.map_flexible, Ty.map_flexible, SimpleType.map_map lower,
      SimpleType.map_map upper]
theorem SimpleType.map_map : ∀ type : SimpleType ρ, (type.map f).map g = type.map (g ∘ f)
  | ⟨classifier, arguments, nullable, definitelyNotNull, abbreviation⟩ => by
    rw [SimpleType.map_mk, SimpleType.map_mk, SimpleType.map_mk, mapArguments_map,
      mapAbbreviation_map, Function.comp_apply]
theorem mapArguments_map : ∀ arguments : List (TypeArgument ρ),
    mapArguments g (mapArguments f arguments) = mapArguments (g ∘ f) arguments
  | [] => rfl
  | .star :: rest => by
    rw [mapArguments_star, mapArguments_star, mapArguments_star, mapArguments_map rest]
  | .projection variance type :: rest => by
    rw [mapArguments_projection, mapArguments_projection, mapArguments_projection,
      mapArguments_map rest, Ty.map_map type]
theorem mapAbbreviation_map : ∀ spelling : Option (SimpleType ρ),
    mapAbbreviation g (mapAbbreviation f spelling) = mapAbbreviation (g ∘ f) spelling
  | none => rfl
  | some spelling => by
    rw [mapAbbreviation_some, mapAbbreviation_some, mapAbbreviation_some,
      SimpleType.map_map spelling]
end

end Comp

mutual
/-- Mapping by the identity changes nothing. -/
theorem Ty.map_id : ∀ type : Ty ρ, type.map id = type
  | .simple type => by rw [Ty.map_simple, SimpleType.map_id type]
  | .flexible lower upper => by
    rw [Ty.map_flexible, SimpleType.map_id lower, SimpleType.map_id upper]
theorem SimpleType.map_id : ∀ type : SimpleType ρ, type.map id = type
  | ⟨classifier, arguments, nullable, definitelyNotNull, abbreviation⟩ => by
    rw [SimpleType.map_mk, mapArguments_id arguments, mapAbbreviation_id abbreviation, id]
theorem mapArguments_id : ∀ arguments : List (TypeArgument ρ), mapArguments id arguments = arguments
  | [] => rfl
  | .star :: rest => by rw [mapArguments_star, mapArguments_id rest]
  | .projection variance type :: rest => by
    rw [mapArguments_projection, Ty.map_id type, mapArguments_id rest]
theorem mapAbbreviation_id : ∀ spelling : Option (SimpleType ρ),
    mapAbbreviation id spelling = spelling
  | none => rfl
  | some spelling => by rw [mapAbbreviation_some, SimpleType.map_id spelling]
end

section Collapse

variable (f : ρ → σ)

mutual
/-- Types are put in their alias spelling whatever they name. -/
theorem Ty.collapse_map : ∀ type : Ty ρ, (type.map f).collapse = type.collapse.map f
  | .simple type => by
    rw [Ty.map_simple, Ty.collapse, Ty.collapse, Ty.map_simple, SimpleType.collapse_map type]
  | .flexible lower upper => by
    rw [Ty.map_flexible, Ty.collapse, Ty.collapse, Ty.map_flexible, SimpleType.collapse_map lower,
      SimpleType.collapse_map upper]
theorem SimpleType.collapse_map : ∀ type : SimpleType ρ, (type.map f).collapse = type.collapse.map f
  | ⟨classifier, arguments, nullable, definitelyNotNull, none⟩ => by
    rw [SimpleType.map_mk, mapAbbreviation_none, SimpleType.collapse, SimpleType.collapse,
      SimpleType.map_mk, mapAbbreviation_none, collapseArguments_map arguments]
  | ⟨classifier, arguments, nullable, definitelyNotNull, some spelling⟩ => by
    rw [SimpleType.map_mk, mapAbbreviation_some, SimpleType.collapse, SimpleType.collapse,
      SimpleType.collapse_map spelling]
    cases spelling.collapse
    rfl
theorem collapseArguments_map : ∀ arguments : List (TypeArgument ρ),
    collapseArguments (mapArguments f arguments) = mapArguments f (collapseArguments arguments)
  | [] => rfl
  | .star :: rest => by
    rw [mapArguments_star, collapseArguments, collapseArguments, mapArguments_star,
      collapseArguments_map rest]
  | .projection variance type :: rest => by
    rw [mapArguments_projection, collapseArguments, collapseArguments, mapArguments_projection,
      Ty.collapse_map type, collapseArguments_map rest]
end

end Collapse

section Fail

variable {f : ρ → Except ε σ} {g : σ → τ} {h : ρ → τ}

mutual
/-- Where a walk succeeds, it is a map. -/
theorem Ty.map_of_mapM
    (hf : ∀ reference bound, f reference = .ok bound → g bound = h reference) :
    ∀ (type : Ty ρ) (bound : Ty σ), type.mapM f = .ok bound →
    bound.map g = type.map h
  | .simple type, bound, hrun => by
    rw [Ty.mapM] at hrun
    obtain ⟨inner, hinner, hbound⟩ := Except.bind_eq_ok.mp hrun
    cases hbound
    rw [Ty.map_simple, Ty.map_simple, SimpleType.map_of_mapM hf type inner hinner]
  | .flexible lower upper, bound, hrun => by
    rw [Ty.mapM] at hrun
    obtain ⟨low, hlow, hrun⟩ := Except.bind_eq_ok.mp hrun
    obtain ⟨up, hup, hbound⟩ := Except.bind_eq_ok.mp hrun
    cases hbound
    rw [Ty.map_flexible, Ty.map_flexible, SimpleType.map_of_mapM hf lower low hlow,
      SimpleType.map_of_mapM hf upper up hup]
theorem SimpleType.map_of_mapM
    (hf : ∀ reference bound, f reference = .ok bound → g bound = h reference) :
    ∀ (type : SimpleType ρ) (bound : SimpleType σ),
    type.mapM f = .ok bound → bound.map g = type.map h
  | ⟨classifier, arguments, nullable, definitelyNotNull, abbreviation⟩, bound, hrun => by
    rw [SimpleType.mapM] at hrun
    obtain ⟨reference, hreference, hrun⟩ := Except.bind_eq_ok.mp hrun
    obtain ⟨inner, hinner, hrun⟩ := Except.bind_eq_ok.mp hrun
    obtain ⟨spelling, hspelling, hbound⟩ := Except.bind_eq_ok.mp hrun
    cases hbound
    rw [SimpleType.map_mk, SimpleType.map_mk, hf classifier reference hreference,
      mapArguments_of_mapM hf arguments inner hinner,
      mapAbbreviation_of_mapM hf abbreviation spelling hspelling]
theorem mapArguments_of_mapM
    (hf : ∀ reference bound, f reference = .ok bound → g bound = h reference) :
    ∀ (arguments : List (TypeArgument ρ))
    (bound : List (TypeArgument σ)), mapArgumentsM f arguments = .ok bound →
    mapArguments g bound = mapArguments h arguments
  | [], bound, hrun => by
    cases hrun
    rfl
  | .star :: rest, bound, hrun => by
    rw [mapArgumentsM] at hrun
    obtain ⟨others, hothers, hbound⟩ := Except.bind_eq_ok.mp hrun
    cases hbound
    rw [mapArguments_star, mapArguments_star, mapArguments_of_mapM hf rest others hothers]
  | .projection variance type :: rest, bound, hrun => by
    rw [mapArgumentsM] at hrun
    obtain ⟨inner, hinner, hrun⟩ := Except.bind_eq_ok.mp hrun
    obtain ⟨others, hothers, hbound⟩ := Except.bind_eq_ok.mp hrun
    cases hbound
    rw [mapArguments_projection, mapArguments_projection, Ty.map_of_mapM hf type inner hinner,
      mapArguments_of_mapM hf rest others hothers]
theorem mapAbbreviation_of_mapM
    (hf : ∀ reference bound, f reference = .ok bound → g bound = h reference) :
    ∀ (spelling : Option (SimpleType ρ))
    (bound : Option (SimpleType σ)), mapAbbreviationM f spelling = .ok bound →
    mapAbbreviation g bound = mapAbbreviation h spelling
  | none, bound, hrun => by
    cases hrun
    rfl
  | some spelling, bound, hrun => by
    rw [mapAbbreviationM] at hrun
    obtain ⟨inner, hinner, hbound⟩ := Except.bind_eq_ok.mp hrun
    cases hbound
    rw [mapAbbreviation_some, mapAbbreviation_some, SimpleType.map_of_mapM hf spelling inner hinner]
end

end Fail

end Concord
