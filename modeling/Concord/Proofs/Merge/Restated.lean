import Concord.Proofs.Comparison.Reflexive
import Concord.Proofs.Comparison.Spelling
import Concord.Proofs.Merge.Remembered

namespace Concord

/-- What a declaration has to share: its own payload, or the class that its alias stands for. -/
def Tree.lentPayload (tree : Tree) (id : DeclId) : Payload ClassifierRef :=
  match (tree.declaration id).payload with
  | .typeAlias _ => .classType { ClassInfo.ofKind (tree.aliasedClassOf id).classKind with
      supertypes := (tree.aliasedClassOf id).supertypes }
  | payload => payload

namespace Tree

variable {tree : Tree} {id : DeclId}

theorem lentPayload_of_alias (halias : (tree.declaration id).kind = .typeAlias) :
    tree.lentPayload id = .classType { ClassInfo.ofKind (tree.aliasedClassOf id).classKind with
      supertypes := (tree.aliasedClassOf id).supertypes } := by
  obtain ⟨info, hpayload⟩ : ∃ info, (tree.declaration id).payload = .typeAlias info :=
    Payload.ofKind halias
  rw [lentPayload, hpayload]

theorem lentPayload_of_other (hother : (tree.declaration id).kind ≠ .typeAlias) :
    tree.lentPayload id = (tree.declaration id).payload := by
  cases hpayload : (tree.declaration id).payload with
  | typeAlias info => exact absurd (congrArg Payload.kind hpayload) hother
  | _ => simp only [lentPayload, hpayload]

/-- No alias is lent: the class that it stands for is. -/
theorem lentPayload_kind : (tree.lentPayload id).kind ≠ .typeAlias := by
  by_cases halias : (tree.declaration id).kind = .typeAlias
  · rw [lentPayload_of_alias halias]
    exact Kind.noConfusion
  · rwa [lentPayload_of_other halias]

/-- The types that a declaration has to share are declared in its tree. -/
theorem declared_of_lent {type : Ty ClassifierRef} (htype : type ∈ (tree.lentPayload id).types) :
    ∃ target, type ∈ (tree.declaration target).payload.types := by
  by_cases halias : (tree.declaration id).kind = .typeAlias
  · rw [lentPayload_of_alias halias] at htype
    have hsupertype : type ∈ (tree.aliasedClassOf id).supertypes ++ [] := htype
    rw [List.append_nil] at hsupertype
    exact declared_of_aliasedClass hsupertype
  · rw [lentPayload_of_other halias] at htype
    exact ⟨id, htype⟩

/-- In a linked tree, what a declaration has to share is linked. -/
theorem Linked.lent (hlinked : tree.Linked) : ∀ type ∈ (tree.lentPayload id).types, type.Linked := by
  intro type htype
  obtain ⟨target, htarget⟩ := declared_of_lent htype
  exact hlinked target type htarget

end Tree

namespace Sides

variable {sides : Sides} {R : DeclId → DeclId → Prop} {first second : Tree}
  {options : CompiledOptions} {a b : DeclId} {payload : Payload ClassifierRef}

/-- Only what a declaration has to share is lent. -/
theorem Extracts.types_subset (hextracts : sides.Extracts R a b payload) :
    payload.types ⊆ (sides.first.lentPayload a).types := by
  cases hextracts with
  | whole _ halias => rw [Tree.lentPayload_of_other halias]; exact List.Subset.refl _
  | @ofClasses infoA infoB hfirst hsecond supertypes constructors _ _ =>
    have hother : (sides.first.declaration a).kind ≠ .typeAlias := by
      rw [show (sides.first.declaration a).kind = .classType from congrArg Payload.kind hfirst]
      decide
    rw [Tree.lentPayload_of_other hother, hfirst]
    exact infoA.types_keep_subset supertypes constructors
  | ofAliases halias _ supertypes _ =>
    rw [Tree.lentPayload_of_alias halias]
    intro type htype
    have hkept : type ∈ keepAt (sides.first.aliasedClassOf a).supertypes supertypes ++ [] := htype
    rw [List.append_nil] at hkept
    have hsupertype : type ∈ (sides.first.aliasedClassOf a).supertypes ++ [] :=
      List.mem_append_left _ (keepAt_subset _ _ hkept)
    exact hsupertype

variable (first second) in
/-- Two types that agree under some options, where akin classifiers can be shared. -/
def AkinTypes (a b : Ty ClassifierRef) : Prop :=
  ∃ options, (ofTrees first second options).TypesAgree (Akin first second) a b

section Restates

variable {S : Ty ClassifierRef → Ty ClassifierRef → Prop}
  (htypes : ∀ type other, sides.TypesAgree R type other → S type other)
include htypes

/-- Type parameters that agree say the same as one another. -/
theorem restates_parameters {as bs : List (TypeParameter ClassifierRef)}
    (hagree : List.Forall₂ (sides.ParametersAgree R) as bs) :
    List.Forall₂ (TypeParameter.Restates S) as bs :=
  hagree.imp fun _ _ h => ⟨h.variance, h.bounds.imp htypes⟩

private theorem restates_receiver {a b : Option (Ty ClassifierRef)}
    (hagree : Option.Rel (sides.TypesAgree R) a b) : Option.Rel S a b := by
  cases hagree with
  | none => exact .none
  | some hone => exact .some (htypes _ _ hone)

/-- What is lent of two declarations that match says the same as the second one, if types that agree
say the same, and the type parameters of related classes do. -/
theorem Extracts.restates
    (hclasses : ∀ infoA infoB, (sides.first.declaration a).payload = .classType infoA →
      (sides.second.declaration b).payload = .classType infoB → R a b →
      List.Forall₂ (TypeParameter.Restates S) infoA.typeParameters infoB.typeParameters)
    (hmatches : sides.Matches R a b) (hextracts : sides.Extracts R a b payload) :
    payload.Restates S (sides.second.lentPayload b) := by
  have hkinds := hmatches.kinds
  have hkind := hmatches.kind
  simp only [KindMatches] at hkind
  cases hextracts with
  | whole hclass halias =>
    have hother : (sides.second.declaration b).kind ≠ .typeAlias := fun h => halias (hkinds.trans h)
    rw [Tree.lentPayload_of_other hother]
    cases hA : (sides.first.declaration a).payload with
    | module infoA =>
      obtain ⟨infoB, hB⟩ : ∃ infoB, (sides.second.declaration b).payload = .module infoB :=
        Payload.ofKind (hkinds.symm.trans (congrArg Payload.kind hA))
      rw [hB]
      exact .modules infoA infoB
    | package =>
      have hB : (sides.second.declaration b).payload = .package :=
        Payload.ofKind (hkinds.symm.trans (congrArg Payload.kind hA))
      rw [hB]
      exact .packages
    | function infoA =>
      obtain ⟨infoB, hB⟩ : ∃ infoB, (sides.second.declaration b).payload = .function infoB :=
        Payload.ofKind (hkinds.symm.trans (congrArg Payload.kind hA))
      rw [hA, hB] at hkind
      rw [hB]
      exact .functions (restates_parameters htypes hkind.typeParameters)
        (restates_receiver htypes hkind.receivers) (htypes _ _ hkind.returnTypes)
    | property infoA =>
      obtain ⟨infoB, hB⟩ : ∃ infoB, (sides.second.declaration b).payload = .property infoB :=
        Payload.ofKind (hkinds.symm.trans (congrArg Payload.kind hA))
      rw [hA, hB] at hkind
      rw [hB]
      exact .properties (restates_parameters htypes hkind.typeParameters)
        (restates_receiver htypes hkind.receivers) (htypes _ _ hkind.types)
    | value infoA =>
      obtain ⟨infoB, hB⟩ : ∃ infoB, (sides.second.declaration b).payload = .value infoB :=
        Payload.ofKind (hkinds.symm.trans (congrArg Payload.kind hA))
      rw [hA, hB] at hkind
      rw [hB]
      exact .values (htypes _ _ hkind.types) hkind.varargs
    | classType infoA => exact absurd (congrArg Payload.kind hA) hclass
    | typeAlias infoA => exact absurd (congrArg Payload.kind hA) halias
  | @ofClasses infoA infoB hfirst hsecond supertypes constructors hsupertypes hconstructors =>
    have hother : (sides.second.declaration b).kind ≠ .typeAlias := by
      rw [show (sides.second.declaration b).kind = .classType from congrArg Payload.kind hsecond]
      decide
    rw [hfirst, hsecond] at hkind
    rw [Tree.lentPayload_of_other hother, hsecond]
    refine .classes (hclasses infoA infoB hfirst hsecond hkind) (fun type htype => ?_)
      fun constructor hconstructor => ?_
    · obtain ⟨like, hlike, hagree⟩ := hsupertypes type htype
      exact ⟨like, hlike, htypes _ _ hagree⟩
    · obtain ⟨like, hlike, hagree⟩ := hconstructors constructor hconstructor
      exact ⟨like, hlike, hagree.visibility, hagree.parameters.imp fun _ _ h =>
        ⟨h.1, htypes _ _ h.2⟩⟩
  | ofAliases _ hsecond supertypes hsupertypes =>
    rw [Tree.lentPayload_of_alias hsecond]
    refine .classes .nil (fun type htype => ?_) fun _ hnone => absurd hnone List.not_mem_nil
    obtain ⟨like, hlike, hagree⟩ := hsupertypes type htype
    exact ⟨like, hlike, htypes _ _ hagree⟩

end Restates

/-- What is lent of two declarations that match by what is akin says the same as the second one. -/
private theorem Extracts.restates_akin
    (hmatches : (ofTrees first second options).Matches (Akin first second) a b)
    (hextracts : (ofTrees first second options).Extracts (Akin first second) a b payload) :
    payload.Restates (AkinTypes first second) (second.lentPayload b) := by
  refine hextracts.restates (fun _ _ h => ⟨options, h⟩) (fun infoA infoB hA hB hakin => ?_) hmatches
  obtain ⟨options', hmatch⟩ := hakin.classifiersMatch
  exact restates_parameters (fun _ _ h => ⟨options', h⟩) (hmatch.classes hA hB).parameters

variable (sides) in
/-- Two types that agree under some options, where akin classifiers can be shared, or that are one
type of a single tree. -/
def AlikeTypes (a b : Ty ClassifierRef) : Prop :=
  sides.same = true ∧ a = b ∨ AkinTypes sides.first sides.second a b

variable (sides) in
/-- A type of shared data that stands for a type of the second side. It is the alias spelling of a
type of the first side that is like the other one. The two types are spelled alike, as comparisons
read them. Where these read all alias spellings, the shared type is spelled like that of the second
side. -/
structure StandsFor (common other : Ty ClassifierRef) : Prop where
  agrees : ∃ type, common = sides.first.detachType type.collapse ∧ sides.AlikeTypes type other ∧
    sides.first.typeSource type.compared = sides.second.typeSource other.compared ∧
    (type.spelledOnce = true ∧ other.spelledOnce = true →
      sides.first.typeSource common = sides.second.typeSource other.collapse)

section Alike

variable {type other : Ty ClassifierRef} (hconsistent : sides.Consistent) (htype : type.Linked)
  (hother : other.Linked) (halike : sides.AlikeTypes type other)
include hconsistent htype hother halike

/-- Types that are alike are spelled alike, as comparisons read them. -/
theorem AlikeTypes.spelled :
    sides.first.typeSource type.compared = sides.second.typeSource other.compared := by
  obtain ⟨hsame, rfl⟩ | ⟨options, hagree⟩ := halike
  · rw [hconsistent hsame]
  · exact hagree.spelled (ofTrees_consistent _ _ _) (fun _ _ hakin => hakin.names) htype hother

/-- A type in its alias spelling stands for what it is like. -/
theorem AlikeTypes.standsFor :
    sides.StandsFor (sides.first.detachType type.collapse) other := by
  refine ⟨type, rfl, halike, halike.spelled hconsistent htype hother, fun honce => ?_⟩
  have hcollapsed : sides.first.typeSource type.collapse = sides.second.typeSource other.collapse := by
    rw [← Ty.compared_eq_collapse type honce.1, ← Ty.compared_eq_collapse other honce.2]
    exact halike.spelled hconsistent htype hother
  calc sides.first.typeSource (sides.first.detachType type.collapse)
      _ = type.collapse.map (sides.first.spell ∘ sides.first.detachRef) := Ty.map_map _ _ type.collapse
      _ = sides.first.typeSource type.collapse := by
        rw [show sides.first.spell ∘ sides.first.detachRef = sides.first.spell from
          funext (Tree.spell_detachRef sides.first)]
        rfl
      _ = sides.second.typeSource other.collapse := hcollapsed

end Alike

/-- What two declarations share says the same as the second one. -/
theorem SharedFrom.restates (hlinked : first.Linked ∧ second.Linked)
    (hmatches : (ofTrees first second options).Matches (Akin first second) a b) {common : Data}
    (hshared : (ofTrees first second options).SharedFrom (Akin first second) a b common) :
    common.payload.Restates (ofTrees first second options).StandsFor (second.lentPayload b) := by
  obtain ⟨payload, hextracts, hpayload⟩ := hshared
  rw [hpayload, sharedForm, Payload.mapRefs, Payload.mapTypes_mapTypes]
  refine (hextracts.restates_akin hmatches).mapTypes fun type htype other hother hagree => ?_
  exact AlikeTypes.standsFor (ofTrees_consistent _ _ _)
    (hlinked.1.lent type (hextracts.types_subset htype)) (hlinked.2.lent other hother) (.inr hagree)

section OneTree

variable {tree : Tree} {id : DeclId}

variable (options) in
/-- What a declaration shares with itself is all that it has to share. -/
theorem ownShare_payload :
    (tree.ownShare id).payload = (ofTree tree options).sharedForm (tree.lentPayload id) := by
  have hkind : ((tree.declaration id).data.mapRefs tree.detachRef).payload.kind =
      (tree.declaration id).kind := Data.kind_mapRefs _ _
  rw [sharedForm, ← Payload.mapTypes_collapse_mapRefs]
  refine congrArg (Payload.mapTypes Ty.collapse) ?_
  split
  · next info hpayload =>
    rw [hpayload] at hkind
    rw [Tree.lentPayload_of_alias hkind.symm, Payload.mapRefs, Payload.mapTypes_classType,
      ClassInfo.mapTypes_eq]
    rfl
  · next hother =>
    have hplain : (tree.declaration id).kind ≠ .typeAlias := by
      intro halias
      obtain ⟨info, hpayload⟩ := Payload.ofKind (hkind.trans halias)
      exact hother info hpayload
    rw [Tree.lentPayload_of_other hplain]
    rfl

/-- What a declaration shares with itself says the same as it. -/
theorem ownShare_restates (hlinked : tree.Linked) :
    (tree.ownShare id).payload.Restates (ofTree tree options).StandsFor (tree.lentPayload id) := by
  rw [ownShare_payload options, sharedForm, Payload.mapRefs, Payload.mapTypes_mapTypes]
  refine (Payload.restates_self tree.lentPayload_kind).mapTypes fun type htype other _ heq => ?_
  subst heq
  exact AlikeTypes.standsFor (fun _ => rfl) (hlinked.lent type htype) (hlinked.lent type htype)
    (.inl ⟨rfl, rfl⟩)

end OneTree

end Sides

end Concord
