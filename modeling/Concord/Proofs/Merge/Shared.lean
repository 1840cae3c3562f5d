import Concord.Proofs.Merge.Plan
import Concord.Proofs.Source.References

namespace Concord

/-- The kind of what two declarations of a kind share. -/
def Kind.common : Kind → Kind
  | typeAlias => classType
  | kind => kind

namespace Kind

@[simp] theorem isRegistered_common (kind : Kind) : kind.common.isRegistered = kind.isRegistered := by
  cases kind <;> rfl

@[simp] theorem isClassifier_common (kind : Kind) : kind.common.isClassifier = kind.isClassifier := by
  cases kind <;> rfl

theorem mayContain_common {owner kind : Kind} (hmay : owner.mayContain kind = true) :
    owner.common.mayContain kind.common = true := by
  have hkind : owner.mayContain kind.common = true := by
    cases kind <;> exact hmay
  have howner : owner.common = owner := by
    cases owner with
    | typeAlias => cases kind <;> cases hmay
    | _ => rfl
  rwa [howner]

end Kind

theorem Payload.refs_subset {ρ : Type} {payload other : Payload ρ}
    (htypes : payload.types ⊆ other.types) : payload.refs ⊆ other.refs := by
  intro reference href
  obtain ⟨type, htype, href⟩ := List.mem_flatMap.mp href
  exact List.mem_flatMap.mpr ⟨type, htypes htype, href⟩

theorem keepAt_subset {α : Type} (items : List α) (places : List Nat) :
    keepAt items places ⊆ items := by
  intro item hitem
  obtain ⟨⟨item, place⟩, hmem, rfl⟩ := List.mem_map.mp hitem
  exact (List.mem_zipIdx' (List.mem_filter.mp hmem).1).2 ▸ List.getElem_mem _

theorem keepAt_map {α β : Type} {f : α → β} (items : List α) (places : List Nat) :
    keepAt (items.map f) places = (keepAt items places).map f := by
  rw [keepAt, keepAt, List.zipIdx_map, List.filter_map, List.map_map, List.map_map]
  rfl

/-- A class with only some of its supertypes and constructors. -/
def ClassInfo.keep {ρ : Type} (info : ClassInfo ρ) (supertypes constructors : List Nat) :
    ClassInfo ρ :=
  { info with
    supertypes := keepAt info.supertypes supertypes
    constructors := keepAt info.constructors constructors }

theorem ClassInfo.mapTypes_keep {ρ σ : Type} (f : Ty ρ → Ty σ) (info : ClassInfo ρ)
    (supertypes constructors : List Nat) :
    (info.mapTypes f).keep supertypes constructors =
      (info.keep supertypes constructors).mapTypes f := by
  simp only [ClassInfo.mapTypes_eq, ClassInfo.keep, keepAt_map]

theorem ClassInfo.types_keep_subset {ρ : Type} (info : ClassInfo ρ)
    (supertypes constructors : List Nat) :
    (info.keep supertypes constructors).types ⊆ info.types := by
  refine List.append_subset.mpr ⟨List.subset_append_left _ _, ?_⟩
  refine List.subset_append_of_subset_right _ (List.append_subset.mpr
    ⟨List.subset_append_of_subset_left _ (keepAt_subset _ _),
      List.subset_append_of_subset_right _ ?_⟩)
  intro type htype
  obtain ⟨constructor, hconstructor, htype⟩ := List.mem_flatMap.mp htype
  exact List.mem_flatMap.mpr ⟨constructor, keepAt_subset _ _ hconstructor, htype⟩

namespace Tree

/-- What a declaration lends to what it shares: its own payload, or the class that its alias stands
for. Types may come in their alias spelling, and supertypes and constructors may be left out. -/
inductive Lends (tree : Tree) (id : DeclId) : Payload ClassifierRef → Prop
  | own : Lends tree id (tree.declaration id).payload
  | aliased (halias : (tree.declaration id).kind = .typeAlias) (places : List Nat) :
    Lends tree id (.classType { ClassInfo.ofKind (tree.aliasedClassOf id).classKind with
      supertypes := keepAt (tree.aliasedClassOf id).supertypes places })
  | collapsed {payload : Payload ClassifierRef} (hlends : Lends tree id payload) :
    Lends tree id (payload.mapTypes Ty.collapse)
  | kept {info : ClassInfo ClassifierRef} (hlends : Lends tree id (.classType info))
    (supertypes constructors : List Nat) :
    Lends tree id (.classType (info.keep supertypes constructors))

variable {tree : Tree} {id : DeclId} {bound : ClassifierRef}

private theorem mentions_declaration (hbound : bound ∈ (tree.declaration id).payload.refs) :
    tree.Mentions (tree.detachRef bound) := by
  cases hget : tree.get? id with
  | none =>
    rw [Tree.declaration, hget] at hbound
    cases hbound
  | some declaration =>
    rw [Tree.declaration_of_get? hget] at hbound
    exact ⟨id, declaration, hget, bound, hbound, rfl⟩

/-- The supertypes of what an alias stands for are types of a class of the tree. -/
theorem declared_of_aliasedClass {type : Ty ClassifierRef}
    (htype : type ∈ (tree.aliasedClassOf id).supertypes) :
    ∃ target, type ∈ (tree.declaration target).payload.types := by
  have hnone : type ∉ AliasedClass.external.supertypes := List.not_mem_nil
  rw [Tree.aliasedClassOf] at htype
  split at htype
  · exact absurd htype hnone
  · next info halias =>
    split at htype
    · next target htarget =>
      cases hunderlying : info.underlying with
      | flexible lower upper =>
        rw [hunderlying] at htarget
        cases htarget
      | simple underlying =>
        simp only [hunderlying, Tree.aliasedClass] at htarget
        split at htarget
        · cases htarget
        split at htarget
        · cases htarget
        split at htarget
        · cases htarget
          exact absurd htype hnone
        · next target' _ =>
          split at htarget
          · next info' hclass =>
            cases htarget
            refine ⟨target', ?_⟩
            cases hpayload : (tree.declaration target').payload with
            | classType info'' =>
              rw [hpayload] at hclass
              cases hclass
              exact List.mem_append_right _ (List.mem_append_left _ htype)
            | _ =>
              rw [hpayload] at hclass
              cases hclass
          · cases htarget
    · exact absurd htype hnone

/-- What a declaration lends names nothing that the tree does not name. -/
theorem Lends.mentions {payload : Payload ClassifierRef} (hlends : tree.Lends id payload)
    (hbound : bound ∈ payload.refs) : tree.Mentions (tree.detachRef bound) := by
  induction hlends with
  | own => exact mentions_declaration hbound
  | aliased halias places =>
    obtain ⟨type, htype, hbound⟩ := List.mem_flatMap.mp hbound
    have htypes : type ∈ keepAt (tree.aliasedClassOf id).supertypes places ++ [] := htype
    rw [List.append_nil] at htypes
    obtain ⟨target, htarget⟩ := declared_of_aliasedClass (keepAt_subset _ _ htypes)
    exact mentions_declaration (List.mem_flatMap.mpr ⟨type, htarget, hbound⟩)
  | collapsed _ ih => exact ih (Payload.refs_collapse _ hbound)
  | @kept info _ supertypes constructors ih =>
    have htypes : (Payload.classType (info.keep supertypes constructors)).types ⊆
        (Payload.classType info).types := info.types_keep_subset supertypes constructors
    exact ih (Payload.refs_subset htypes hbound)

end Tree

/-- What the shared data of a declaration of the first side is like. -/
structure Data.SharedOf (common : Data) (tree : Tree) (id : DeclId) : Prop where
  name : common.qualifiedName = (tree.declaration id).qualifiedName
  kind : common.kind = (tree.declaration id).kind.common
  called : common.name = (tree.declaration id).name
  lent : ∃ payload, tree.Lends id payload ∧ common.payload = payload.mapRefs tree.detachRef

namespace Data.SharedOf

variable {tree : Tree} {id : DeclId} {common : Data}

/-- Shared data names nothing that the tree does not name. -/
theorem refs (hshared : common.SharedOf tree id) :
    ∀ reference ∈ common.payload.refs, tree.Mentions reference := by
  intro reference href
  obtain ⟨payload, hlends, hpayload⟩ := hshared.lent
  rw [hpayload, Payload.refs_mapRefs] at href
  obtain ⟨bound, hbound, rfl⟩ := List.mem_map.mp href
  exact hlends.mentions hbound

/-- Of shared data some supertypes and constructors may be left out. -/
theorem keep (hshared : common.SharedOf tree id) {info : ClassInfo ClassifierRef}
    (hpayload : common.payload = .classType info) (supertypes constructors : List Nat) :
    Data.SharedOf { common with
      payload := .classType { info with
        supertypes := keepAt info.supertypes supertypes
        constructors := keepAt info.constructors constructors } } tree id := by
  refine ⟨hshared.name, ?_, hshared.called, ?_⟩
  · rw [← hshared.kind, Data.kind, Data.kind, hpayload]
    rfl
  · obtain ⟨payload, hlends, hlent⟩ := hshared.lent
    rw [hpayload] at hlent
    cases payload with
    | classType lent =>
      refine ⟨_, hlends.kept supertypes constructors, ?_⟩
      obtain rfl := Payload.classType.inj hlent
      exact congrArg Payload.classType (ClassInfo.mapTypes_keep _ lent supertypes constructors)
    | typeAlias lent =>
      rw [Payload.mapRefs, Payload.mapTypes_typeAlias] at hlent
      cases hlent
    | _ => cases hlent

end Data.SharedOf

namespace Sides

variable {sides : Sides} {a b : DeclId} {before : Session}

/-- What a declaration other than an alias declares is shared data once its types are in their alias
spelling. -/
theorem sharedOf_collapse {tree : Tree} {id : DeclId}
    (hkind : (tree.declaration id).kind ≠ .typeAlias) :
    let first := (tree.declaration id).data.mapRefs tree.detachRef
    Data.SharedOf { first with payload := first.payload.mapTypes Ty.collapse } tree id := by
  refine ⟨rfl, ?_, rfl, _, .collapsed .own, Payload.mapTypes_collapse_mapRefs _ _⟩
  have hcommon : (tree.declaration id).kind.common = (tree.declaration id).kind := by
    cases hcase : (tree.declaration id).kind with
    | typeAlias => exact absurd hcase hkind
    | _ => rfl
  rw [hcommon]
  exact (Payload.kind_mapTypes _ _).trans (Data.kind_mapRefs _ _)

/-- The class that two aliases share is shared data, whichever supertypes are kept. -/
theorem sharedOf_aliases {tree : Tree} {id : DeclId} (hkind : (tree.declaration id).kind = .typeAlias)
    (places : List Nat) :
    let first := (tree.declaration id).data.mapRefs tree.detachRef
    let target := tree.aliasedClassOf id
    let supertypes := (keepAt target.supertypes places).map tree.detachType
    let payload := Payload.classType { ClassInfo.ofKind target.classKind with supertypes }
    Data.SharedOf { Data.ofPayload first.name first.qualifiedName payload with
      visibility := first.visibility
      modality := target.modality
      payload := payload.mapTypes Ty.collapse } tree id := by
  intro first target supertypes payload
  have hdetached : payload = (Payload.classType { ClassInfo.ofKind target.classKind with
      supertypes := keepAt target.supertypes places }).mapRefs tree.detachRef := by
    simp only [payload, Payload.mapRefs, Payload.mapTypes_classType, ClassInfo.mapTypes_eq]
    rfl
  refine ⟨rfl, ?_, rfl, _, .collapsed (.aliased hkind places), ?_⟩
  · rw [hkind]
    exact Payload.kind_mapTypes Ty.collapse payload
  · exact (congrArg (Payload.mapTypes Ty.collapse) hdetached).trans
      (Payload.mapTypes_collapse_mapRefs _ _)

end Sides

end Concord
