import Concord.Proofs.Comparison.Symmetry
import Concord.Proofs.Merge.Exact
import Concord.Proofs.Merge.Shared
import Concord.Proofs.Tree.Mirroring

namespace Concord

/-- Two trees that mirror two others are compared. -/
structure Sides.Mirrors (again sides : Sides) (p q : DeclId → DeclId) : Prop where
  first : again.first.Mirrors sides.first p
  second : again.second.Mirrors sides.second q
  distinct : again.same = false ∧ sides.same = false
  options : again.options = sides.options

section Lists

variable {α β γ δ : Type} {f : α → γ} {g : β → δ}

theorem allPairsM_map {test : α → β → Id Bool} {test' : γ → δ → Id Bool}
    (htest : ∀ a b, test' (f a) (g b) = test a b) (as : List α) (bs : List β) :
    allPairsM test' (as.map f) (bs.map g) = allPairsM test as bs := by
  induction as generalizing bs with
  | nil => cases bs <;> rfl
  | cons a as ih =>
    cases bs with
    | nil => rfl
    | cons b bs => simp only [List.map_cons, allPairsM, htest, ih]

theorem takePartner?_map {test : β → Id Bool} {test' : δ → Id Bool}
    (htest : ∀ b, test' (g b) = test b) (bs : List β) :
    takePartner? test' (bs.map g) = (takePartner? test bs).run.map (List.map g) := by
  induction bs with
  | nil => rfl
  | cons b bs ih =>
    simp only [List.map_cons, takePartner?, htest, ih]
    cases test b with
    | true => rfl
    | false => cases takePartner? test bs <;> rfl

theorem partneredFrom_map {equal : α → β → Id Bool} {equal' : γ → δ → Id Bool}
    (hequal : ∀ a b, equal' (f a) (g b) = equal a b) (place : Nat) (as : List α) (bs : List β) :
    partneredFrom equal' place (as.map f) (bs.map g) = partneredFrom equal place as bs := by
  induction as generalizing place bs with
  | nil => rfl
  | cons a as ih =>
    simp only [List.map_cons, partneredFrom, takePartner?_map (hequal a)]
    cases takePartner? (equal a) bs with
    | none => exact ih (place + 1) bs
    | some left => exact congrArg (place :: ·) (ih (place + 1) left)

end Lists

section Types

variable {again sides : Sides} {p q : DeclId → DeclId} (hmirrors : again.Mirrors sides p q)
  {ask ask' : DeclId → DeclId → Id Bool} (hask : ∀ x y, ask' (p x) (q y) = ask x y)

@[simp] theorem SimpleType.comparedRef_map {ρ σ : Type} (f : ρ → σ) (type : SimpleType ρ) :
    (type.map f).comparedRef = f type.comparedRef := by
  obtain ⟨classifier, arguments, nullable, notNull, _ | ⟨_, _, _, _, _⟩⟩ := type <;> rfl

@[simp] theorem SimpleType.comparedArguments_map {ρ σ : Type} (f : ρ → σ) (type : SimpleType ρ) :
    (type.map f).comparedArguments = mapArguments f type.comparedArguments := by
  obtain ⟨classifier, arguments, nullable, notNull, _ | ⟨_, _, _, _, _⟩⟩ := type <;> rfl

@[simp] theorem SimpleType.nullable_map {ρ σ : Type} (f : ρ → σ) (type : SimpleType ρ) :
    (type.map f).nullable = type.nullable := by
  cases type
  rfl

@[simp] theorem SimpleType.definitelyNotNull_map {ρ σ : Type} (f : ρ → σ) (type : SimpleType ρ) :
    (type.map f).definitelyNotNull = type.definitelyNotNull := by
  cases type
  rfl

@[simp] theorem length_mapArguments {ρ σ : Type} (f : ρ → σ) (arguments : List (TypeArgument ρ)) :
    (mapArguments f arguments).length = arguments.length := by
  induction arguments with
  | nil => rfl
  | cons argument arguments ih =>
    cases argument with
    | star => rw [mapArguments_star, List.length_cons, List.length_cons, ih]
    | projection variance type =>
      rw [mapArguments_projection, List.length_cons, List.length_cons, ih]

include hmirrors hask

theorem refsAgree_moved (a b : ClassifierRef) :
    refsAgree (m := Id) again ask' (a.moved p) (b.moved q) = refsAgree (m := Id) sides ask a b := by
  have hnameA := hmirrors.first.nameOf?_moved a
  have hnameB := hmirrors.second.nameOf?_moved b
  have hresolveA := hmirrors.first.resolve?_moved a
  have hresolveB := hmirrors.second.resolve?_moved b
  cases a with
  | typeParameter x => cases b <;> rfl
  | resolved _ | symbolic _ | external _ =>
    cases b with
    | typeParameter _ => rfl
    | resolved _ | symbolic _ | external _ =>
      simp only [ClassifierRef.moved] at hnameA hnameB hresolveA hresolveB
      simp only [ClassifierRef.moved, refsAgree, hnameA, hnameB, hmirrors.options, hresolveA,
        hresolveB]
      cases sides.first.resolve? _ <;> cases sides.second.resolve? _ <;>
        simp only [Option.map_some, Option.map_none, hask]

theorem headsAgree_moved (a b : SimpleType ClassifierRef) :
    headsAgree (m := Id) again ask' (a.map (.moved p)) (b.map (.moved q)) =
      headsAgree (m := Id) sides ask a b := by
  simp only [headsAgree, SimpleType.comparedRef_map, SimpleType.comparedArguments_map,
    SimpleType.nullable_map, SimpleType.definitelyNotNull_map, length_mapArguments,
    refsAgree_moved hmirrors hask]

omit hmirrors hask

mutual
theorem typesAgree_moved (hmirrors : again.Mirrors sides p q)
    (hask : ∀ x y, ask' (p x) (q y) = ask x y) : (a b : Ty ClassifierRef) →
    typesAgree (m := Id) again ask' (a.map (.moved p)) (b.map (.moved q)) =
      typesAgree (m := Id) sides ask a b
  | .simple a, .simple b => by
    simp only [Ty.map_simple, typesAgree, hmirrors.distinct.1, hmirrors.distinct.2,
      Bool.false_and, simpleTypesAgree_moved hmirrors hask a b]
  | .simple a, .flexible lower upper => by
    simp only [Ty.map_simple, Ty.map_flexible, typesAgree, hmirrors.distinct.1,
      hmirrors.distinct.2, Bool.false_and]
  | .flexible lower upper, .simple b => by
    simp only [Ty.map_simple, Ty.map_flexible, typesAgree, hmirrors.distinct.1,
      hmirrors.distinct.2, Bool.false_and]
  | .flexible lower upper, .flexible lower' upper' => by
    simp only [Ty.map_flexible, typesAgree, hmirrors.distinct.1, hmirrors.distinct.2,
      Bool.false_and, simpleTypesAgree_moved hmirrors hask lower lower',
      simpleTypesAgree_moved hmirrors hask upper upper']
theorem simpleTypesAgree_moved (hmirrors : again.Mirrors sides p q)
    (hask : ∀ x y, ask' (p x) (q y) = ask x y) : (a b : SimpleType ClassifierRef) →
    simpleTypesAgree (m := Id) again ask' (a.map (.moved p)) (b.map (.moved q)) =
      simpleTypesAgree (m := Id) sides ask a b
  | ⟨classifier, arguments, nullable, notNull, none⟩, b => by
    have hheads := headsAgree_moved hmirrors hask ⟨classifier, arguments, nullable, notNull, none⟩ b
    simp only [SimpleType.map_mk, mapAbbreviation_none] at hheads ⊢
    simp only [simpleTypesAgree, hheads, SimpleType.comparedArguments_map,
      argumentsAgree_moved hmirrors hask arguments b.comparedArguments]
  | ⟨classifier, arguments, nullable, notNull, some ⟨classifier', arguments', nullable', notNull',
      spelling⟩⟩, b => by
    have hheads := headsAgree_moved hmirrors hask ⟨classifier, arguments, nullable, notNull,
      some ⟨classifier', arguments', nullable', notNull', spelling⟩⟩ b
    simp only [SimpleType.map_mk, mapAbbreviation_some] at hheads ⊢
    simp only [simpleTypesAgree, hheads, SimpleType.comparedArguments_map,
      argumentsAgree_moved hmirrors hask arguments' b.comparedArguments]
theorem argumentsAgree_moved (hmirrors : again.Mirrors sides p q)
    (hask : ∀ x y, ask' (p x) (q y) = ask x y) : (as bs : List (TypeArgument ClassifierRef)) →
    argumentsAgree (m := Id) again ask' (mapArguments (.moved p) as) (mapArguments (.moved q) bs) =
      argumentsAgree (m := Id) sides ask as bs
  | [], [] => rfl
  | [], _ :: _ => by simp only [mapArguments_nil, argumentsAgree]
  | .star :: _, [] => by simp only [mapArguments_nil, mapArguments_star, argumentsAgree]
  | .projection _ _ :: _, [] => by
    simp only [mapArguments_nil, mapArguments_projection, argumentsAgree]
  | .star :: as, .star :: bs => by
    simp only [mapArguments_star, argumentsAgree, argumentsAgree_moved hmirrors hask as bs]
  | .projection variance a :: as, .projection variance' b :: bs => by
    simp only [mapArguments_projection, argumentsAgree, typesAgree_moved hmirrors hask a b,
      argumentsAgree_moved hmirrors hask as bs]
  | .star :: as, .projection _ _ :: bs => by
    simp only [mapArguments_star, mapArguments_projection, argumentsAgree]
  | .projection _ _ :: as, .star :: bs => by
    simp only [mapArguments_star, mapArguments_projection, argumentsAgree]
end

include hmirrors hask

theorem optionalTypesAgree_moved (a b : Option (Ty ClassifierRef)) :
    optionalTypesAgree (m := Id) again ask' (a.map (Ty.map (.moved p)))
      (b.map (Ty.map (.moved q))) = optionalTypesAgree (m := Id) sides ask a b := by
  cases a with
  | none => cases b <;> rfl
  | some a =>
    cases b with
    | none => rfl
    | some b => exact typesAgree_moved hmirrors hask a b

theorem typeParametersAgree_moved (as bs : List (TypeParameter ClassifierRef)) :
    typeParametersAgree (m := Id) again ask' (as.map (·.mapTypes (Ty.map (.moved p))))
      (bs.map (·.mapTypes (Ty.map (.moved q)))) = typeParametersAgree (m := Id) sides ask as bs := by
  have hsingle (a b : TypeParameter ClassifierRef) :
      typeParameterAgrees (m := Id) again ask' (a.mapTypes (Ty.map (.moved p)))
        (b.mapTypes (Ty.map (.moved q))) = typeParameterAgrees (m := Id) sides ask a b := by
    simp only [typeParameterAgrees, TypeParameter.mapTypes_eq, List.length_map,
      allPairsM_map (typesAgree_moved hmirrors hask)]
  simp only [typeParametersAgree, List.length_map, allPairsM_map hsingle]

theorem constructorsAgree_moved (a b : Constructor ClassifierRef) :
    constructorsAgree (m := Id) again ask' (a.mapTypes (Ty.map (.moved p)))
      (b.mapTypes (Ty.map (.moved q))) = constructorsAgree (m := Id) sides ask a b := by
  simp only [constructorsAgree, Constructor.mapTypes, List.length_map]
  split
  · refine allPairsM_map (fun p q => ?_) a.parameters b.parameters
    simp only [typesAgree_moved hmirrors hask]
  · rfl

theorem containersAgree_moved (a b : DeclId) :
    containersAgree (m := Id) again ask' (p a) (q b) = containersAgree (m := Id) sides ask a b := by
  simp only [containersAgree, hmirrors.first.enclosingClass?_eq, hmirrors.second.enclosingClass?_eq]
  cases sides.first.enclosingClass? a <;> cases sides.second.enclosingClass? b <;>
    simp only [Option.map_some, Option.map_none, Prod.map, hask]

end Types

section Failures

variable {again sides : Sides} {p q : DeclId → DeclId} (hmirrors : again.Mirrors sides p q)
  {ask ask' : DeclId → DeclId → Id Bool} (hask : ∀ x y, ask' (p x) (q y) = ask x y)

/-- What an alias stands for in a tree that mirrors another. -/
def AliasedClass.moved (place : DeclId → DeclId) (target : AliasedClass) : AliasedClass :=
  { target with supertypes := target.supertypes.map (Ty.map (.moved place)) }

theorem Tree.Mirrors.aliasedClass_moved {copy tree : Tree} {place : DeclId → DeclId}
    (hmirrors : copy.Mirrors tree place) (type : Ty ClassifierRef) :
    copy.aliasedClass (type.map (.moved place)) =
      (tree.aliasedClass type).map (AliasedClass.moved place) := by
  cases type with
  | flexible lower upper => rfl
  | simple type =>
    obtain ⟨classifier, arguments, nullable, notNull, abbreviation⟩ := type
    have hempty : (mapArguments (ClassifierRef.moved place) arguments).isEmpty = arguments.isEmpty := by
      cases arguments with
      | nil => rfl
      | cons argument arguments => cases argument <;> rfl
    have hsome : (mapAbbreviation (ClassifierRef.moved place) abbreviation).isSome =
        abbreviation.isSome := by
      cases abbreviation <;> rfl
    simp only [Ty.map_simple, SimpleType.map_mk, Tree.aliasedClass, hempty, hsome,
      hmirrors.resolve?_moved]
    split
    · rfl
    split
    · rfl
    cases tree.resolve? classifier with
    | none => rfl
    | some id =>
      obtain ⟨expectation, hdata⟩ := hmirrors.exists_data_eq id
      simp only [Option.map_some, hmirrors.class?_eq, hdata]
      cases (tree.declaration id).payload.class? with
      | none => rfl
      | some info =>
        simp only [Option.map_some, ClassInfo.mapTypes_eq]
        rfl

theorem Tree.Mirrors.aliasedClassOf_moved {copy tree : Tree} {place : DeclId → DeclId}
    (hmirrors : copy.Mirrors tree place) (id : DeclId) :
    copy.aliasedClassOf (place id) = (tree.aliasedClassOf id).moved place := by
  rw [Tree.aliasedClassOf, Tree.aliasedClassOf, hmirrors.payload_eq, Payload.mapRefs]
  cases (tree.declaration id).payload with
  | typeAlias info =>
    rw [Payload.mapTypes_typeAlias]
    simp only [Payload.alias?, AliasInfo.mapTypes, hmirrors.aliasedClass_moved]
    cases tree.aliasedClass info.underlying <;> rfl
  | _ => rfl

include hmirrors

theorem aliasFailures_moved (infoA infoB : AliasInfo ClassifierRef) (failed : Mismatch) :
    aliasFailures again (infoA.mapTypes (Ty.map (.moved p))) (infoB.mapTypes (Ty.map (.moved q)))
      failed = aliasFailures sides infoA infoB failed := by
  simp only [aliasFailures, AliasInfo.mapTypes, List.isEmpty_map, hmirrors.first.aliasedClass_moved,
    hmirrors.second.aliasedClass_moved]
  cases sides.first.aliasedClass infoA.underlying <;>
    cases sides.second.aliasedClass infoB.underlying <;> rfl

include hask

theorem classFailures_moved (a b : DeclId) (infoA infoB : ClassInfo ClassifierRef)
    (failed : Mismatch) :
    classFailures (m := Id) again ask' (p a) (q b) (infoA.mapTypes (Ty.map (.moved p)))
      (infoB.mapTypes (Ty.map (.moved q))) failed =
      classFailures (m := Id) sides ask a b infoA infoB failed := by
  simp only [classFailures, ClassInfo.mapTypes_eq, typeParametersAgree_moved hmirrors hask,
    containersAgree_moved hmirrors hask]

/-- Two classifiers fail the same rules at other places. -/
theorem classifierFailures_moved (a b : DeclId) :
    classifierFailures (m := Id) again ask' (p a) (q b) =
      classifierFailures (m := Id) sides ask a b := by
  obtain ⟨expectationA, hdataA⟩ := hmirrors.first.exists_data_eq a
  obtain ⟨expectationB, hdataB⟩ := hmirrors.second.exists_data_eq b
  have hkindA := hmirrors.first.kind_eq a
  have hkindB := hmirrors.second.kind_eq b
  simp only [Declaration.kind] at hkindA hkindB
  simp only [classifierFailures, hkindA, hkindB]
  simp only [hdataA, hdataB, Data.mapRefs, Payload.mapRefs]
  split
  · rfl
  split
  · rfl
  cases (sides.first.declaration a).data.payload with
  | classType infoA =>
    cases (sides.second.declaration b).data.payload with
    | classType infoB => exact classFailures_moved hmirrors hask a b infoA infoB _
    | typeAlias infoB => simp only [Payload.mapTypes_typeAlias, Payload.mapTypes_classType]
    | _ => rfl
  | typeAlias infoA =>
    cases (sides.second.declaration b).data.payload with
    | typeAlias infoB =>
      simp only [Payload.mapTypes_typeAlias]
      exact congrArg pure (aliasFailures_moved hmirrors infoA infoB _)
    | _ =>
      simp only [Payload.mapTypes_typeAlias]
      rfl
  | _ =>
    cases (sides.second.declaration b).data.payload with
    | typeAlias infoB =>
      simp only [Payload.mapTypes_typeAlias]
      rfl
    | _ => rfl

theorem valueFailures_moved (a b : DeclId) :
    valueFailures (m := Id) again ask' (p a) (q b) = valueFailures (m := Id) sides ask a b := by
  obtain ⟨expectationA, hdataA⟩ := hmirrors.first.exists_data_eq a
  obtain ⟨expectationB, hdataB⟩ := hmirrors.second.exists_data_eq b
  have hkindA := hmirrors.first.kind_eq a
  have hkindB := hmirrors.second.kind_eq b
  simp only [Declaration.kind] at hkindA hkindB
  simp only [valueFailures, hkindA, hkindB]
  simp only [hdataA, hdataB, Data.mapRefs, Payload.mapRefs]
  cases (sides.first.declaration a).data.payload with
  | value infoA =>
    cases (sides.second.declaration b).data.payload with
    | value infoB =>
      simp only [Payload.mapTypes_value, ValueInfo.mapTypes_eq, typesAgree_moved hmirrors hask]
    | typeAlias infoB => simp only [Payload.mapTypes_typeAlias, Payload.mapTypes_value]
    | _ => rfl
  | typeAlias infoA => simp only [Payload.mapTypes_typeAlias]
  | _ => rfl

theorem parameterFailures_moved (place : Nat) (as bs : List DeclId) (failed : Mismatch) :
    parameterFailures (m := Id) again ask' place (as.map p) (bs.map q) failed =
      parameterFailures (m := Id) sides ask place as bs failed := by
  induction as generalizing place bs failed with
  | nil => cases bs <;> rfl
  | cons a as ih =>
    cases bs with
    | nil => rfl
    | cons b bs =>
      simp only [List.map_cons, parameterFailures, valueFailures_moved hmirrors hask, ih]

theorem functionFailures_moved {a b : DeclId}
    (hfunctionA : (sides.first.declaration a).kind = .function)
    (hfunctionB : (sides.second.declaration b).kind = .function) {dataA dataB dataA' dataB' : Data}
    (hdataA : dataA'.unmarked = (dataA.mapRefs (.moved p)).unmarked)
    (hdataB : dataB'.unmarked = (dataB.mapRefs (.moved q)).unmarked)
    (infoA infoB : FunctionInfo ClassifierRef) :
    functionFailures (m := Id) again ask' (p a) (q b) dataA' dataB'
      (infoA.mapTypes (Ty.map (.moved p))) (infoB.mapTypes (Ty.map (.moved q))) =
      functionFailures (m := Id) sides ask a b dataA dataB infoA infoB := by
  rw [Data.unmarked_eq_iff.mp hdataA, Data.unmarked_eq_iff.mp hdataB]
  simp only [functionFailures, Data.mapRefs, FunctionInfo.mapTypes_eq, hmirrors.options,
    typesAgree_moved hmirrors hask, optionalTypesAgree_moved hmirrors hask,
    typeParametersAgree_moved hmirrors hask, hmirrors.first.parameters a hfunctionA,
    hmirrors.second.parameters b hfunctionB, List.length_map, parameterFailures_moved hmirrors hask]

theorem propertyFailures_moved {dataA dataB dataA' dataB' : Data}
    (hdataA : dataA'.unmarked = (dataA.mapRefs (.moved p)).unmarked)
    (hdataB : dataB'.unmarked = (dataB.mapRefs (.moved q)).unmarked)
    (infoA infoB : PropertyInfo ClassifierRef) :
    propertyFailures (m := Id) again ask' dataA' dataB' (infoA.mapTypes (Ty.map (.moved p)))
      (infoB.mapTypes (Ty.map (.moved q))) =
      propertyFailures (m := Id) sides ask dataA dataB infoA infoB := by
  rw [Data.unmarked_eq_iff.mp hdataA, Data.unmarked_eq_iff.mp hdataB]
  simp only [propertyFailures, Data.mapRefs, PropertyInfo.mapTypes_eq,
    typesAgree_moved hmirrors hask, optionalTypesAgree_moved hmirrors hask,
    typeParametersAgree_moved hmirrors hask]

end Failures

/-- A comparison without the roles of what it gives. -/
def Comparison.unmarked : Comparison → Comparison
  | matched first common second => matched first.unmarked common.unmarked second.unmarked
  | mismatched mismatch => mismatched mismatch

namespace Sides.Mirrors

variable {again sides : Sides} {p q : DeclId → DeclId} (hmirrors : again.Mirrors sides p q)
include hmirrors

theorem rulesHold_iff {R : DeclId → DeclId → Prop} {a b : DeclId} :
    again.RulesHold R (p a) (q b) ↔ sides.RulesHold (fun x y => R (p x) (q y)) a b := by
  classical
  rw [RulesHold, RulesHold]
  have hsame : classifierFailures (m := Id) again (fun x y => decide (R x y)) (p a) (q b) =
      classifierFailures (m := Id) sides (fun x y => decide (R (p x) (q y))) a b :=
    classifierFailures_moved hmirrors (fun _ _ => rfl) a b
  rw [hsame]

/-- The same classifiers can be shared at other places. -/
theorem shareable_iff (a b : DeclId) : again.Shareable (p a) (q b) ↔ sides.Shareable a b := by
  constructor
  · rintro ⟨R, hclosed, hab⟩
    exact ⟨fun x y => R (p x) (q y), fun x y hxy => hmirrors.rulesHold_iff.mp (hclosed _ _ hxy), hab⟩
  · rintro ⟨R, hclosed, hab⟩
    refine ⟨fun u v => ∃ x y, p x = u ∧ q y = v ∧ R x y, ?_, a, b, rfl, rfl, hab⟩
    rintro _ _ ⟨x, y, rfl, rfl, hxy⟩
    refine hmirrors.rulesHold_iff.mpr ((hclosed x y hxy).mono fun u v huv => ⟨u, v, rfl, rfl, huv⟩)

theorem oracle_verdict (a b : DeclId) :
    again.oracle.verdict (p a) (q b) = sides.oracle.verdict a b := by
  classical
  exact ite_congr (propext (hmirrors.shareable_iff a b)) (fun _ => rfl) fun _ => rfl

theorem oracle_shareable (a b : DeclId) :
    again.oracle.shareable (p a) (q b) = sides.oracle.shareable a b := by
  simp only [Services.shareable, hmirrors.oracle_verdict]

/-- Two declarations fail the same rules at other places. -/
theorem oracle_failuresOf (a b : DeclId) :
    again.oracle.failuresOf again (p a) (q b) = sides.oracle.failuresOf sides a b := by
  have hunmarkedA := hmirrors.first.declaration_unmarked a
  have hunmarkedB := hmirrors.second.declaration_unmarked b
  have hkindA := hmirrors.first.kind_eq a
  have hkindB := hmirrors.second.kind_eq b
  simp only [Declaration.kind] at hkindA hkindB
  simp only [Services.failuresOf, hkindA, hkindB, hmirrors.first.isConcreteInterfaceMember_eq,
    hmirrors.second.isConcreteInterfaceMember_eq]
  have hpayloadA : (again.first.declaration (p a)).data.payload =
      (sides.first.declaration a).data.payload.mapTypes (Ty.map (.moved p)) :=
    hmirrors.first.payload_eq a
  have hpayloadB : (again.second.declaration (q b)).data.payload =
      (sides.second.declaration b).data.payload.mapTypes (Ty.map (.moved q)) :=
    hmirrors.second.payload_eq b
  obtain ⟨hnameA, hqualifiedA, hvisibilityA, -⟩ := hmirrors.first.attributes_eq a
  obtain ⟨hnameB, hqualifiedB, hvisibilityB, -⟩ := hmirrors.second.attributes_eq b
  simp only [hnameA, hnameB, hqualifiedA, hqualifiedB, hvisibilityA, hvisibilityB, hpayloadA,
    hpayloadB, hmirrors.oracle_verdict]
  split
  · rfl
  next hsame =>
  split
  · rfl
  split
  · rfl
  have hkind : (sides.first.declaration a).data.kind = (sides.second.declaration b).data.kind := by
    simpa using hsame
  simp only [Data.kind] at hkind
  cases hdeclaredA : (sides.first.declaration a).data.payload <;>
    cases hdeclaredB : (sides.second.declaration b).data.payload <;>
    rw [hdeclaredA, hdeclaredB] at hkind <;> cases hkind
  · rfl
  · rfl
  · rfl
  · next infoA infoB =>
    exact functionFailures_moved hmirrors hmirrors.oracle_shareable
      (congrArg Payload.kind hdeclaredA) (congrArg Payload.kind hdeclaredB) hunmarkedA hunmarkedB
      infoA infoB
  · next infoA infoB =>
    exact propertyFailures_moved hmirrors hmirrors.oracle_shareable hunmarkedA hunmarkedB infoA infoB
  · simp only [Payload.mapTypes_typeAlias]
  · exact valueFailures_moved hmirrors hmirrors.oracle_shareable a b

private theorem sharedSupertypes_moved (as bs : List (Ty ClassifierRef)) :
    sharedSupertypes (m := Id) again again.oracle.shareable (as.map (Ty.map (.moved p)))
      (bs.map (Ty.map (.moved q))) =
      sharedSupertypes (m := Id) sides sides.oracle.shareable as bs :=
  partneredFrom_map (typesAgree_moved hmirrors hmirrors.oracle_shareable) 0 as bs

/-- What two aliases share is the same at other places. -/
theorem sharedOfAliases_moved (a b : DeclId) {first first' : Data}
    (hfirst : first'.unmarked = first.unmarked) :
    sharedOfAliases (m := Id) again again.oracle.shareable (p a) (q b) first' =
      sharedOfAliases (m := Id) sides sides.oracle.shareable a b first := by
  rw [Data.unmarked_eq_iff.mp hfirst]
  simp only [sharedOfAliases, hmirrors.first.aliasedClassOf_moved,
    hmirrors.second.aliasedClassOf_moved, AliasedClass.moved, hmirrors.sharedSupertypes_moved,
    keepAt_map, List.map_map]
  refine congrArg (bind _) (funext fun places => ?_)
  have hdetached : again.first.detachType ∘ Ty.map (.moved p) = sides.first.detachType :=
    funext hmirrors.first.detachType_moved
  rw [hdetached]

private theorem matchedPayloads_unmarked (a b : DeclId) :
    (matchedPayloads (m := Id) again again.oracle.shareable (p a) (q b)).run.unmarked =
      (matchedPayloads (m := Id) sides sides.oracle.shareable a b).run.unmarked := by
  have hfirst := hmirrors.first.mapRefs_detachRef a
  have hsecond := hmirrors.second.mapRefs_detachRef b
  have hshared := hmirrors.sharedOfAliases_moved a b hfirst
  simp only [matchedPayloads]
  generalize (sides.first.declaration a).data.mapRefs sides.first.detachRef = first at *
  generalize (sides.second.declaration b).data.mapRefs sides.second.detachRef = second at *
  generalize (again.first.declaration (p a)).data.mapRefs again.first.detachRef = first' at *
  generalize (again.second.declaration (q b)).data.mapRefs again.second.detachRef = second' at *
  obtain ⟨expectation, rfl⟩ : ∃ expectation, first' = { first with expectation } :=
    ⟨_, Data.unmarked_eq_iff.mp hfirst⟩
  obtain ⟨expectation', rfl⟩ : ∃ expectation, second' = { second with expectation } :=
    ⟨_, Data.unmarked_eq_iff.mp hsecond⟩
  obtain ⟨_, _, _, _, _, payload⟩ := first
  obtain ⟨_, _, _, _, _, payload'⟩ := second
  cases payload with
  | typeAlias info =>
    cases payload' with
    | typeAlias info' =>
      simp only [hshared]
      rfl
    | _ => rfl
  | _ => rfl

private theorem intersect_unmarked (a b : DeclId) {common common' : Data}
    (hcommon : common'.unmarked = common.unmarked) :
    (again.oracle.intersect again (p a) (q b) common').run.unmarked =
      (sides.oracle.intersect sides a b common).run.unmarked := by
  have hconstructors (as bs : List (Constructor ClassifierRef)) :
      sharedConstructors (m := Id) again again.oracle.shareable
        (as.map (·.mapTypes (Ty.map (.moved p)))) (bs.map (·.mapTypes (Ty.map (.moved q)))) =
        sharedConstructors (m := Id) sides sides.oracle.shareable as bs :=
    partneredFrom_map (constructorsAgree_moved hmirrors hmirrors.oracle_shareable) 0 as bs
  obtain ⟨expectation, rfl⟩ : ∃ expectation, common' = { common with expectation } :=
    ⟨_, Data.unmarked_eq_iff.mp hcommon⟩
  simp only [Services.intersect, hmirrors.first.payload_eq, hmirrors.second.payload_eq,
    Payload.mapRefs]
  cases (sides.first.declaration a).payload with
  | classType infoA =>
    cases (sides.second.declaration b).payload with
    | classType infoB =>
      simp only [Payload.mapTypes_classType, ClassInfo.mapTypes_eq, hmirrors.sharedSupertypes_moved,
        hconstructors]
      obtain ⟨_, _, _, _, _, payload⟩ := common
      cases payload <;> rfl
    | typeAlias infoB => rw [Payload.mapTypes_typeAlias]; rfl
    | _ => rfl
  | typeAlias infoA => rw [Payload.mapTypes_typeAlias]; rfl
  | _ => rfl

/-- What is compared at other places gives the same but for the expectations. -/
theorem oracle_compare (a b : DeclId) : (again.oracle.compare again (p a) (q b)).run.unmarked =
    (sides.oracle.compare sides a b).run.unmarked := by
  have hpayloads := hmirrors.matchedPayloads_unmarked a b
  simp only [Services.compare, hmirrors.distinct.1, hmirrors.distinct.2, Bool.false_and,
    hmirrors.oracle_failuresOf, Bool.false_eq_true, if_false]
  show (if ((sides.oracle.failuresOf sides a b).run.require true .recursionLimit).isEmpty then
      matchedPayloads again again.oracle.shareable (p a) (q b)
    else return .mismatched _ : Id Comparison).run.unmarked =
    (if ((sides.oracle.failuresOf sides a b).run.require true .recursionLimit).isEmpty then
      matchedPayloads sides sides.oracle.shareable a b
    else return .mismatched _ : Id Comparison).run.unmarked
  split
  · exact hpayloads
  · rfl

theorem matched_eq (a b : DeclId) : again.matched (p a) (q b) = sides.matched a b := by
  have hisMatched (comparison : Comparison) :
      comparison.unmarked.isMatched = comparison.isMatched := by
    cases comparison <;> rfl
  rw [matched, matched, ← hisMatched, hmirrors.oracle_compare, hisMatched]

theorem joins_eq (a b : DeclId) : again.joins (p a) (q b) = sides.joins a b := by
  have hmatched := hmirrors.matched_eq a b
  obtain ⟨hnameA, -⟩ := hmirrors.first.attributes_eq a
  obtain ⟨hnameB, -⟩ := hmirrors.second.attributes_eq b
  rw [matched, matched] at hmatched
  simp only [joins, isCandidate, hmatched, Declaration.name, hnameA, hnameB,
    hmirrors.first.isConcreteInterfaceMember_eq, hmirrors.second.isConcreteInterfaceMember_eq]

/-- What two declarations share is the same at other places. -/
theorem shared_unmarked (a b : DeclId) :
    (again.shared (p a) (q b)).unmarked = (sides.shared a b).unmarked := by
  have hcompare := hmirrors.oracle_compare a b
  rw [shared, shared]
  cases hrun : (sides.oracle.compare sides a b).run with
  | mismatched mismatch =>
    rw [hrun] at hcompare
    cases hrun' : (again.oracle.compare again (p a) (q b)).run with
    | mismatched mismatch' => rfl
    | matched first common second =>
      rw [hrun'] at hcompare
      cases hcompare
  | matched first common second =>
    rw [hrun] at hcompare
    cases hrun' : (again.oracle.compare again (p a) (q b)).run with
    | mismatched mismatch' =>
      rw [hrun'] at hcompare
      cases hcompare
    | matched first' common' second' =>
      rw [hrun'] at hcompare
      obtain ⟨-, hcommon, -⟩ := Comparison.matched.inj hcompare
      exact hmirrors.intersect_unmarked a b hcommon

end Sides.Mirrors

end Concord
