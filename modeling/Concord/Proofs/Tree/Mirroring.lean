import Concord.Proofs.Declaration.Payload
import Concord.Proofs.Tree.Lookup

namespace Concord

/-- A reference to a declaration that stands at another place. -/
def ClassifierRef.moved (place : DeclId → DeclId) : ClassifierRef → ClassifierRef
  | resolved id => resolved (place id)
  | reference => reference

/-- The data without its role in an output. -/
def Data.unmarked (data : Data) : Data :=
  { data with expectation := .plain }

namespace Data

/-- Data that is the same but for its role in an output. -/
theorem unmarked_eq_iff {data other : Data} :
    data.unmarked = other.unmarked ↔ data = { other with expectation := data.expectation } := by
  constructor
  · obtain ⟨name, qualifiedName, visibility, modality, expectation, payload⟩ := data
    obtain ⟨name', qualifiedName', visibility', modality', expectation', payload'⟩ := other
    intro hsame
    simp only [unmarked, mk.injEq] at hsame ⊢
    exact ⟨hsame.1, hsame.2.1, hsame.2.2.1, hsame.2.2.2.1, trivial, hsame.2.2.2.2.2⟩
  · intro hsame
    rw [hsame]
    rfl

@[simp] theorem kind_unmarked (data : Data) : data.unmarked.kind = data.kind := rfl

theorem kind_eq_of_unmarked {data other : Data} (hsame : data.unmarked = other.unmarked) :
    data.kind = other.kind := by
  rw [← kind_unmarked, hsame, kind_unmarked]

theorem unmarked_mapRefs (f : ClassifierRef → ClassifierRef) (data : Data) :
    (data.mapRefs f).unmarked = data.unmarked.mapRefs f := rfl

end Data

namespace Tree

/-- A tree mirrors another if it holds its declarations at other places, but for the expectations.
What is owned may come in another order, except for parameters. -/
structure Mirrors (copy tree : Tree) (place : DeclId → DeclId) : Prop where
  injective : Function.Injective place
  data : ∀ id, (copy.get? (place id)).map (·.data.unmarked) =
    (tree.get? id).map (·.data.unmarked.mapRefs (.moved place))
  container : ∀ id, copy.container? (place id) = (tree.container? id).map place
  parameters : ∀ id, (tree.declaration id).kind = .function →
    copy.children (place id) = (tree.children id).map place
  classifier : ∀ name, copy.classifier? name = (tree.classifier? name).map place
  /-- An id that nothing bears means the same in both trees. -/
  unknown : ∀ id, tree.get? id = none → place id = id

namespace Mirrors

variable {copy tree : Tree} {place : DeclId → DeclId} (hmirrors : copy.Mirrors tree place)
include hmirrors

theorem get?_eq_some {id : DeclId} {declaration : Declaration}
    (hget : tree.get? id = some declaration) : ∃ found, copy.get? (place id) = some found ∧
      found.data.unmarked = (declaration.data.mapRefs (.moved place)).unmarked := by
  have hdata := hmirrors.data id
  rw [hget, Option.map_some] at hdata
  exact Option.map_eq_some_iff.mp hdata

theorem get?_eq_none {id : DeclId} (hget : tree.get? id = none) : copy.get? (place id) = none := by
  have hdata := hmirrors.data id
  rw [hget, Option.map_none] at hdata
  exact Option.map_eq_none_iff.mp hdata

/-- A declaration is mirrored but for its expectation. -/
theorem declaration_unmarked (id : DeclId) : (copy.declaration (place id)).data.unmarked =
    ((tree.declaration id).data.mapRefs (.moved place)).unmarked := by
  cases hget : tree.get? id with
  | none =>
    rw [Tree.declaration, Tree.declaration, hget, hmirrors.get?_eq_none hget]
    rfl
  | some declaration =>
    obtain ⟨found, hfound, hdata⟩ := hmirrors.get?_eq_some hget
    rwa [declaration_of_get? hget, declaration_of_get? hfound]

/-- A declaration is mirrored, with an expectation of its own. -/
theorem exists_data_eq (id : DeclId) : ∃ expectation, (copy.declaration (place id)).data =
    { (tree.declaration id).data.mapRefs (.moved place) with expectation } :=
  ⟨_, Data.unmarked_eq_iff.mp (hmirrors.declaration_unmarked id)⟩

theorem attributes_eq (id : DeclId) :
    (copy.declaration (place id)).data.name = (tree.declaration id).data.name ∧
      (copy.declaration (place id)).data.qualifiedName = (tree.declaration id).data.qualifiedName ∧
      (copy.declaration (place id)).data.visibility = (tree.declaration id).data.visibility ∧
      (copy.declaration (place id)).data.modality = (tree.declaration id).data.modality := by
  obtain ⟨expectation, hdata⟩ := hmirrors.exists_data_eq id
  rw [hdata]
  exact ⟨rfl, rfl, rfl, rfl⟩

theorem payload_eq (id : DeclId) : (copy.declaration (place id)).payload =
    (tree.declaration id).payload.mapRefs (.moved place) :=
  congrArg Data.payload (hmirrors.declaration_unmarked id)

theorem kind_eq (id : DeclId) : (copy.declaration (place id)).kind = (tree.declaration id).kind := by
  have hkind := congrArg Data.kind (hmirrors.declaration_unmarked id)
  rwa [Data.kind_unmarked, Data.kind_unmarked, Data.kind_mapRefs] at hkind

theorem nameOf?_moved (reference : ClassifierRef) :
    copy.nameOf? (reference.moved place) = tree.nameOf? reference := by
  cases reference with
  | resolved id =>
    show (copy.get? (place id)).map (·.data.unmarked.qualifiedName) = _
    have hname := congrArg (Option.map Data.qualifiedName) (hmirrors.data id)
    rwa [Option.map_map, Option.map_map] at hname
  | symbolic name => rfl
  | external name => rfl
  | typeParameter name => rfl

theorem resolve?_moved (reference : ClassifierRef) :
    copy.resolve? (reference.moved place) = (tree.resolve? reference).map place := by
  cases reference with
  | resolved id =>
    cases hget : tree.get? id with
    | none => simp only [ClassifierRef.moved, resolve?, hget, hmirrors.get?_eq_none hget, Option.map_none]
    | some declaration =>
      obtain ⟨found, hfound, -⟩ := hmirrors.get?_eq_some hget
      simp only [ClassifierRef.moved, resolve?, hget, hfound, Option.map_some]
  | symbolic name => exact hmirrors.classifier name
  | external name => rfl
  | typeParameter name => rfl

theorem detachRef_moved (reference : ClassifierRef) :
    copy.detachRef (reference.moved place) = tree.detachRef reference := by
  cases reference with
  | resolved id =>
    cases hget : tree.get? id with
    | none =>
      rw [ClassifierRef.moved, hmirrors.unknown id hget, detachRef, detachRef, hget,
        ← hmirrors.unknown id hget, hmirrors.get?_eq_none hget]
    | some declaration =>
      obtain ⟨found, hfound, -⟩ := hmirrors.get?_eq_some hget
      obtain ⟨-, hname, -⟩ := hmirrors.attributes_eq id
      rw [declaration_of_get? hget, declaration_of_get? hfound] at hname
      simp only [ClassifierRef.moved, detachRef, hget, hfound, Declaration.qualifiedName, hname]
  | symbolic name => rfl
  | external name => rfl
  | typeParameter name => rfl

/-- Detached, a declaration is the same but for its expectation. -/
theorem mapRefs_detachRef (id : DeclId) :
    ((copy.declaration (place id)).data.mapRefs copy.detachRef).unmarked =
      ((tree.declaration id).data.mapRefs tree.detachRef).unmarked := by
  have hcomp : copy.detachRef ∘ ClassifierRef.moved place = tree.detachRef :=
    funext hmirrors.detachRef_moved
  rw [Data.unmarked_mapRefs, hmirrors.declaration_unmarked, Data.unmarked_mapRefs,
    Data.unmarked_mapRefs, Data.mapRefs, Data.mapRefs, Payload.mapRefs_mapRefs, hcomp]
  rfl

theorem detached?_unmarked (id : DeclId) :
    (copy.detached? (place id)).map Data.unmarked = (tree.detached? id).map Data.unmarked := by
  cases hget : tree.get? id with
  | none =>
    simp only [detached?, hget, hmirrors.get?_eq_none hget, Option.map_none]
  | some declaration =>
    obtain ⟨found, hfound, -⟩ := hmirrors.get?_eq_some hget
    rw [detached?_of_known ⟨_, hget⟩, detached?_of_known ⟨_, hfound⟩, Option.map_some,
      Option.map_some, hmirrors.mapRefs_detachRef]

theorem detachType_moved (type : Ty ClassifierRef) :
    copy.detachType (type.map (.moved place)) = tree.detachType type := by
  rw [detachType, Ty.map_map, detachType]
  congr 1
  exact funext hmirrors.detachRef_moved

theorem class?_eq (id : DeclId) : (copy.declaration (place id)).payload.class? =
    (tree.declaration id).payload.class?.map (·.mapTypes (Ty.map (.moved place))) := by
  rw [hmirrors.payload_eq, Payload.mapRefs]
  cases (tree.declaration id).payload with
  | typeAlias info => rw [Payload.mapTypes_typeAlias]; rfl
  | _ => rfl

theorem enclosingClass?_eq (id : DeclId) : copy.enclosingClass? (place id) =
    (tree.enclosingClass? id).map (Prod.map place (·.mapTypes (Ty.map (.moved place)))) := by
  have hclass {tree : Tree} (id : DeclId) : tree.enclosingClass? id =
      (tree.container? id).bind fun container =>
        (tree.declaration container).payload.class?.map (container, ·) := by
    rw [enclosingClass?]
    cases tree.container? id with
    | none => rfl
    | some container =>
      rw [Option.bind_eq_bind, Option.bind_some, Option.bind_some, Tree.declaration]
      cases tree.get? container with
      | none => rfl
      | some declaration =>
        rw [Option.bind_eq_bind, Option.bind_some, Option.getD_some]
        cases declaration.payload.class? <;> rfl
  rw [hclass, hclass, hmirrors.container, Option.bind_map]
  cases tree.container? id with
  | none => rfl
  | some container =>
    rw [Option.bind_some, Option.bind_some, Function.comp_apply, hmirrors.class?_eq, Option.map_map,
      Option.map_map]
    rfl

theorem isConcreteInterfaceMember_eq (id : DeclId) :
    copy.isConcreteInterfaceMember (place id) = tree.isConcreteInterfaceMember id := by
  rw [isConcreteInterfaceMember, isConcreteInterfaceMember, hmirrors.enclosingClass?_eq]
  cases hget : tree.get? id with
  | none => rw [hmirrors.get?_eq_none hget]
  | some declaration =>
    obtain ⟨found, hfound, -⟩ := hmirrors.get?_eq_some hget
    have hkind := hmirrors.kind_eq id
    obtain ⟨-, -, -, hmodality⟩ := hmirrors.attributes_eq id
    rw [declaration_of_get? hget, declaration_of_get? hfound] at hkind hmodality
    simp only [hfound, hkind, hmodality]
    cases tree.enclosingClass? id with
    | none => rfl
    | some around =>
      simp only [Option.map_some, Prod.map, ClassInfo.isInterface, ClassInfo.mapTypes_eq]

end Mirrors

end Tree

end Concord
