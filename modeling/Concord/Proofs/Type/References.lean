import Concord.Proofs.Type.Traversal

namespace Concord

variable {ρ σ ε : Type}

mutual
/-- The references of a type in the order of a walk. -/
def Ty.refs : Ty ρ → List ρ
  | .simple type => type.refs
  | .flexible lower upper => lower.refs ++ upper.refs
/-- The references of a simple type in the order of a walk. -/
def SimpleType.refs : SimpleType ρ → List ρ
  | ⟨classifier, arguments, _, _, abbreviation⟩ =>
    classifier :: (argumentRefs arguments ++ abbreviationRefs abbreviation)
/-- The references of an argument list from left to right. -/
def argumentRefs : List (TypeArgument ρ) → List ρ
  | [] => []
  | .star :: rest => argumentRefs rest
  | .projection _ type :: rest => type.refs ++ argumentRefs rest
/-- The references of an abbreviation, if there is one. -/
def abbreviationRefs : Option (SimpleType ρ) → List ρ
  | none => []
  | some spelling => spelling.refs
end

section Walk

variable (f : ρ → Except ε σ)

mutual
/-- A walk over a type succeeds when it does so at every reference. -/
theorem Ty.succeeds_mapM : ∀ type : Ty ρ,
    (type.mapM f).Succeeds ↔ ∀ reference ∈ type.refs, (f reference).Succeeds
  | .simple type => by
    rw [Ty.mapM, Ty.refs, Except.succeeds_map, SimpleType.succeeds_mapM type]
  | .flexible lower upper => by
    rw [Ty.mapM, Ty.refs, List.forall_mem_append, ← SimpleType.succeeds_mapM lower,
      ← SimpleType.succeeds_mapM upper]
    exact Except.succeeds_bind fun _ => Except.succeeds_map
theorem SimpleType.succeeds_mapM : ∀ type : SimpleType ρ,
    (type.mapM f).Succeeds ↔ ∀ reference ∈ type.refs, (f reference).Succeeds
  | ⟨classifier, arguments, nullable, definitelyNotNull, abbreviation⟩ => by
    rw [SimpleType.mapM, SimpleType.refs, List.forall_mem_cons, List.forall_mem_append,
      ← succeeds_mapArgumentsM arguments, ← succeeds_mapAbbreviationM abbreviation]
    exact Except.succeeds_bind fun _ => Except.succeeds_bind fun _ => Except.succeeds_map
theorem succeeds_mapArgumentsM : ∀ arguments : List (TypeArgument ρ),
    (mapArgumentsM f arguments).Succeeds ↔
      ∀ reference ∈ argumentRefs arguments, (f reference).Succeeds
  | [] => by
    rw [mapArgumentsM, argumentRefs]
    exact iff_of_true Except.succeeds_pure nofun
  | .star :: rest => by
    rw [mapArgumentsM, argumentRefs, Except.succeeds_map, succeeds_mapArgumentsM rest]
  | .projection variance type :: rest => by
    rw [mapArgumentsM, argumentRefs, List.forall_mem_append, ← Ty.succeeds_mapM type,
      ← succeeds_mapArgumentsM rest]
    exact Except.succeeds_bind fun _ => Except.succeeds_map
theorem succeeds_mapAbbreviationM : ∀ spelling : Option (SimpleType ρ),
    (mapAbbreviationM f spelling).Succeeds ↔
      ∀ reference ∈ abbreviationRefs spelling, (f reference).Succeeds
  | none => by
    rw [mapAbbreviationM, abbreviationRefs]
    exact iff_of_true Except.succeeds_pure nofun
  | some spelling => by
    rw [mapAbbreviationM, abbreviationRefs, Except.succeeds_map,
      SimpleType.succeeds_mapM spelling]
end

variable {Q : ε → Prop}

mutual
/-- A walk over a type fails as it does at a reference. -/
theorem Ty.errs_mapM : ∀ type : Ty ρ, (∀ reference ∈ type.refs, (f reference).Errs Q) →
    (type.mapM f).Errs Q
  | .simple type, hrefs => by
    rw [Ty.mapM]
    exact Except.errs_map (SimpleType.errs_mapM type hrefs)
  | .flexible lower upper, hrefs => by
    rw [Ty.mapM]
    rw [Ty.refs, List.forall_mem_append] at hrefs
    exact Except.errs_bind (SimpleType.errs_mapM lower hrefs.1) fun _ =>
      Except.errs_map (SimpleType.errs_mapM upper hrefs.2)
theorem SimpleType.errs_mapM : ∀ type : SimpleType ρ,
    (∀ reference ∈ type.refs, (f reference).Errs Q) → (type.mapM f).Errs Q
  | ⟨classifier, arguments, nullable, definitelyNotNull, abbreviation⟩, hrefs => by
    rw [SimpleType.mapM]
    rw [SimpleType.refs, List.forall_mem_cons, List.forall_mem_append] at hrefs
    exact Except.errs_bind hrefs.1 fun _ => Except.errs_bind (errs_mapArgumentsM arguments hrefs.2.1)
      fun _ => Except.errs_map (errs_mapAbbreviationM abbreviation hrefs.2.2)
theorem errs_mapArgumentsM : ∀ arguments : List (TypeArgument ρ),
    (∀ reference ∈ argumentRefs arguments, (f reference).Errs Q) →
    (mapArgumentsM f arguments).Errs Q
  | [], _ => by
    rw [mapArgumentsM]
    exact Except.errs_pure
  | .star :: rest, hrefs => by
    rw [mapArgumentsM]
    exact Except.errs_map (errs_mapArgumentsM rest hrefs)
  | .projection variance type :: rest, hrefs => by
    rw [mapArgumentsM]
    rw [argumentRefs, List.forall_mem_append] at hrefs
    exact Except.errs_bind (Ty.errs_mapM type hrefs.1) fun _ =>
      Except.errs_map (errs_mapArgumentsM rest hrefs.2)
theorem errs_mapAbbreviationM : ∀ spelling : Option (SimpleType ρ),
    (∀ reference ∈ abbreviationRefs spelling, (f reference).Errs Q) →
    (mapAbbreviationM f spelling).Errs Q
  | none, _ => by
    rw [mapAbbreviationM]
    exact Except.errs_pure
  | some spelling, hrefs => by
    rw [mapAbbreviationM]
    exact Except.errs_map (SimpleType.errs_mapM spelling hrefs)
end

end Walk

section Map

variable (f : ρ → σ)

mutual
/-- Mapping a type maps its references. -/
theorem Ty.refs_map : ∀ type : Ty ρ, (type.map f).refs = type.refs.map f
  | .simple type => by rw [Ty.map_simple, Ty.refs, Ty.refs, SimpleType.refs_map type]
  | .flexible lower upper => by
    rw [Ty.map_flexible, Ty.refs, Ty.refs, SimpleType.refs_map lower, SimpleType.refs_map upper,
      List.map_append]
theorem SimpleType.refs_map : ∀ type : SimpleType ρ, (type.map f).refs = type.refs.map f
  | ⟨classifier, arguments, nullable, definitelyNotNull, abbreviation⟩ => by
    rw [SimpleType.map_mk, SimpleType.refs, SimpleType.refs, argumentRefs_map arguments,
      abbreviationRefs_map abbreviation, List.map_cons, List.map_append]
theorem argumentRefs_map : ∀ arguments : List (TypeArgument ρ),
    argumentRefs (mapArguments f arguments) = (argumentRefs arguments).map f
  | [] => rfl
  | .star :: rest => by rw [mapArguments_star, argumentRefs, argumentRefs, argumentRefs_map rest]
  | .projection variance type :: rest => by
    rw [mapArguments_projection, argumentRefs, argumentRefs, Ty.refs_map type,
      argumentRefs_map rest, List.map_append]
theorem abbreviationRefs_map : ∀ spelling : Option (SimpleType ρ),
    abbreviationRefs (mapAbbreviation f spelling) = (abbreviationRefs spelling).map f
  | none => rfl
  | some spelling => by
    rw [mapAbbreviation_some, abbreviationRefs, abbreviationRefs, SimpleType.refs_map spelling]
end

end Map

mutual
/-- Collapsing a type names nothing new. -/
theorem Ty.refs_collapse : ∀ type : Ty ρ, type.collapse.refs ⊆ type.refs
  | .simple type => by
    rw [Ty.collapse, Ty.refs, Ty.refs]
    exact SimpleType.refs_collapse type
  | .flexible lower upper => by
    rw [Ty.collapse, Ty.refs, Ty.refs]
    exact List.append_subset.mpr
      ⟨List.subset_append_of_subset_left _ (SimpleType.refs_collapse lower),
        List.subset_append_of_subset_right _ (SimpleType.refs_collapse upper)⟩
theorem SimpleType.refs_collapse : ∀ type : SimpleType ρ, type.collapse.refs ⊆ type.refs
  | ⟨classifier, arguments, nullable, definitelyNotNull, none⟩ => by
    simp only [SimpleType.collapse, SimpleType.refs, abbreviationRefs, List.append_nil]
    exact List.cons_subset_cons classifier (argumentRefs_collapse arguments)
  | ⟨classifier, arguments, nullable, definitelyNotNull, some spelling⟩ => by
    have hspelling : ({ spelling.collapse with nullable, definitelyNotNull } :
        SimpleType ρ).refs = spelling.collapse.refs := by
      cases spelling.collapse
      rfl
    rw [SimpleType.collapse, hspelling, SimpleType.refs, abbreviationRefs]
    exact List.subset_cons_of_subset _
      (List.subset_append_of_subset_right _ (SimpleType.refs_collapse spelling))
theorem argumentRefs_collapse : ∀ arguments : List (TypeArgument ρ),
    argumentRefs (collapseArguments arguments) ⊆ argumentRefs arguments
  | [] => List.Subset.refl _
  | .star :: rest => by
    rw [collapseArguments, argumentRefs, argumentRefs]
    exact argumentRefs_collapse rest
  | .projection variance type :: rest => by
    rw [collapseArguments, argumentRefs, argumentRefs]
    exact List.append_subset.mpr
      ⟨List.subset_append_of_subset_left _ (Ty.refs_collapse type),
        List.subset_append_of_subset_right _ (argumentRefs_collapse rest)⟩
end

end Concord
