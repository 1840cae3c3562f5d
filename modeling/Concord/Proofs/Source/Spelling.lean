import Concord.Proofs.Source.References

namespace Concord

namespace Source

/-- A spelled payload as it is written. The expanded type of an alias is left out when it equals the
underlying one. -/
def write : Concord.Payload Spelling → Payload
  | .module info => .module info
  | .package => .package
  | .classType info => .classType info
  | .function info => .function info
  | .property info => .property info
  | .typeAlias info => .typeAlias
    ⟨info.underlying, if info.expanded = info.underlying then none else some info.expanded,
      info.typeParameters⟩
  | .value info => .value info

end Source

namespace Tree

/-- A payload that can be read off its spelling. -/
def Legible (tree : Tree) (payload : Payload ClassifierRef) : Prop :=
  ∃ read : Spelling → ClassifierRef, payload.mapRefs (read ∘ tree.spell) = payload

variable {tree : Tree}

/-- A legible payload is written as it is spelled. -/
theorem payloadSource_of_legible {payload : Payload ClassifierRef}
    (hlegible : tree.Legible payload) :
    tree.payloadSource payload = Source.write (payload.mapRefs tree.spell) := by
  obtain ⟨read, hread⟩ := hlegible
  cases payload with
  | typeAlias info =>
    rw [Payload.mapRefs, Payload.mapTypes_typeAlias, Payload.typeAlias.injEq] at hread
    have hunderlying : info.underlying.map (read ∘ tree.spell) = info.underlying :=
      congrArg AliasInfo.underlying hread
    have hexpanded : info.expanded.map (read ∘ tree.spell) = info.expanded :=
      congrArg AliasInfo.expanded hread
    have hspelled : info.expanded = info.underlying ↔
        info.expanded.map tree.spell = info.underlying.map tree.spell := by
      refine ⟨fun heq => by rw [heq], fun heq => ?_⟩
      calc
        info.expanded = (info.expanded.map tree.spell).map read := by rw [Ty.map_map, hexpanded]
        _ = (info.underlying.map tree.spell).map read := by rw [heq]
        _ = info.underlying := by rw [Ty.map_map, hunderlying]
    rw [payloadSource, aliasSource, Payload.mapRefs, Payload.mapTypes_typeAlias, Source.write]
    simp only [AliasInfo.mapTypes, hspelled]
    rfl
  | _ => rfl

/-- The source of a declaration of the tree. -/
theorem sourceWithin_of_get? {id : DeclId} {declaration : Declaration}
    (hget : tree.get? id = some declaration) (depth : Nat) :
    tree.sourceWithin (depth + 1) id = some (.mk declaration.data.name declaration.data.visibility
      declaration.data.modality declaration.data.expectation
      (tree.payloadSource declaration.data.payload)
      (declaration.children.filterMap (tree.sourceWithin depth))) := by
  rw [sourceWithin, hget]
  rfl

variable (tree) in
theorem spell_resolved (id : DeclId) :
    tree.spell (.resolved id) = ⟨(tree.get? id).map (·.qualifiedName), none⟩ :=
  rfl

variable (tree) in
theorem nameOf?_detachRef (reference : ClassifierRef) :
    tree.nameOf? (tree.detachRef reference) = tree.nameOf? reference := by
  cases reference with
  | resolved id =>
    rw [detachRef]
    cases hget : tree.get? id with
    | none => rfl
    | some declaration => rw [nameOf?, nameOf?, hget, Option.map_some]
  | _ => rfl

variable (tree) in
/-- Detaching a reference does not change its spelling. -/
theorem spell_detachRef (reference : ClassifierRef) :
    tree.spell (tree.detachRef reference) = tree.spell reference := by
  have hname := nameOf?_detachRef tree reference
  cases reference with
  | resolved id =>
    have hspell : tree.spell (tree.detachRef (.resolved id)) =
        ⟨tree.nameOf? (tree.detachRef (.resolved id)), none⟩ := by
      rw [detachRef]
      cases tree.get? id with
      | none => rfl
      | some declaration => rfl
    rw [hspell, hname, spell]
    intro parameter hparameter
    cases hparameter
  | _ => rfl

/-- A reference that is found again by how it is spelled. -/
def Spells (tree : Tree) (reference : ClassifierRef) : Prop :=
  tree.linkRef (Source.bound (tree.spell reference)) = reference

/-- The index of a tree finds every classifier by its name, so no two have the same. -/
def FindsAll (tree : Tree) : Prop :=
  ∀ id declaration, tree.get? id = some declaration → declaration.kind.isClassifier = true →
    tree.classifier? declaration.qualifiedName = some id

section Index

-- The index leads to what bears the name.
variable (hnamed : ∀ name id, tree.classifier? name = some id → ∃ declaration,
    tree.get? id = some declaration ∧ declaration.kind.isClassifier = true ∧
      declaration.qualifiedName = name)
include hnamed

/-- Looking a name up does not change its spelling. -/
theorem spell_linkRef (name : QualifiedName) :
    tree.spell (tree.linkRef (.symbolic name)) = ⟨some name, none⟩ := by
  rw [linkRef]
  cases hindex : tree.classifier? name with
  | none => rfl
  | some id =>
    obtain ⟨declaration, hget, -, rfl⟩ := hnamed name id hindex
    rw [spell_resolved, hget, Option.map_some]

/-- A reference that points into no tree is spelled as anywhere else once it is looked up. -/
theorem spell_linkRef_of_unresolved (input : Tree) {reference : ClassifierRef}
    (hunresolved : ∀ id, reference ≠ .resolved id) :
    tree.spell (tree.linkRef reference) = input.spell reference := by
  cases reference with
  | resolved id => exact absurd rfl (hunresolved id)
  | symbolic name => exact spell_linkRef hnamed name
  | external name => rfl
  | typeParameter name => rfl

/-- What leads where its name says is found again, if names are borne once. -/
theorem Leads.spells {reference : ClassifierRef} (hleads : tree.Leads reference)
    (hfinds : tree.FindsAll) : tree.Spells reference := by
  cases reference with
  | resolved id =>
    obtain ⟨declaration, hget, hclassifier⟩ := hleads
    rw [Spells, spell_resolved, hget, Option.map_some, Source.bound, linkRef,
      hfinds id declaration hget hclassifier]
  | symbolic name => exact hleads.elim
  | external name =>
    show tree.linkRef (.symbolic name) = .external name
    rw [linkRef]
    cases hindex : tree.classifier? name with
    | none => rfl
    | some id =>
      obtain ⟨declaration, hget, hclassifier, hname⟩ := hnamed name id hindex
      exact absurd hname (hleads id declaration hget hclassifier)
  | typeParameter name => rfl

end Index

theorem legible_of_spells {payload : Payload ClassifierRef}
    (hspells : ∀ reference ∈ payload.refs, tree.Spells reference) : tree.Legible payload := by
  refine ⟨tree.linkRef ∘ Source.bound, ?_⟩
  have hsame := Payload.mapRefs_congr (g := id) hspells
  rwa [Payload.mapRefs_id] at hsame

/-- The references of a tree that is read from sources are found again by how they are spelled. -/
theorem ofSources_spells {sources : List Source} (hread : ofSources sources = .ok tree)
    {id : DeclId} {declaration : Declaration} (hget : tree.get? id = some declaration)
    {reference : ClassifierRef} (href : reference ∈ declaration.payload.refs) :
    tree.Spells reference := by
  obtain ⟨name, rfl⟩ | ⟨name, rfl⟩ := refs_of_ofSources hread hget href
  · rw [Spells, spell_linkRef (regular_of_ofSources hread).named]
    rfl
  · rfl

/-- The payloads of a tree that is read from sources are legible. -/
theorem ofSources_legible {sources : List Source} (hread : ofSources sources = .ok tree)
    {id : DeclId} {declaration : Declaration} (hget : tree.get? id = some declaration) :
    tree.Legible declaration.payload :=
  legible_of_spells fun _ => ofSources_spells hread hget

end Tree

end Concord
