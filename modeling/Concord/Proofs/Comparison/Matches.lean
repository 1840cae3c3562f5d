import Concord.Proofs.Comparison.Agreement
import Concord.Proofs.Logic.Learning

namespace Concord

/-- Accessors agree when they are both absent or alike in what counts. -/
theorem accessorsAgree_iff {a b : Option Accessor} : accessorsAgree a b = true ↔
    a.map (fun accessor => (accessor.modality, accessor.visibility, accessor.isInline)) =
      b.map fun accessor => (accessor.modality, accessor.visibility, accessor.isInline) := by
  cases a <;> cases b <;> simp [accessorsAgree, and_assoc]

namespace Sides

variable (sides : Sides) (R : DeclId → DeclId → Prop)

/-- Two values of one type, of which both or none is vararg. -/
structure ValuesAgree (a b : ValueInfo ClassifierRef) : Prop where
  types : sides.TypesAgree R a.type b.type
  varargs : a.isVararg = b.isVararg

/-- Two declarations that are values and say the same. -/
def AreValues (a b : DeclId) : Prop :=
  ∃ infoA infoB, (sides.first.declaration a).payload = .value infoA ∧
    (sides.second.declaration b).payload = .value infoB ∧ sides.ValuesAgree R infoA infoB

/-- Two functions of one name and one signature. -/
structure FunctionsAgree (a b : DeclId) (infoA infoB : FunctionInfo ClassifierRef) : Prop where
  included : sides.options.isExcluded (sides.first.declaration a).name = false ∧
    sides.options.isExcluded (sides.second.declaration b).name = false
  names : (sides.first.declaration a).qualifiedName = (sides.second.declaration b).qualifiedName
  visibilities :
    (sides.first.declaration a).data.visibility = (sides.second.declaration b).data.visibility
  suspends : infoA.isSuspend = infoB.isSuspend
  returnTypes : sides.TypesAgree R infoA.returnType infoB.returnType
  receivers : Option.Rel (sides.TypesAgree R) infoA.receiver infoB.receiver
  typeParameters : List.Forall₂ (sides.ParametersAgree R) infoA.typeParameters infoB.typeParameters
  parameters : List.Forall₂ (sides.AreValues R) (sides.first.children a) (sides.second.children b)

/-- Two properties of one name and one type, neither of them constant or initialized late. -/
structure PropertiesAgree (a b : DeclId) (infoA infoB : PropertyInfo ClassifierRef) : Prop where
  names : (sides.first.declaration a).qualifiedName = (sides.second.declaration b).qualifiedName
  visibilities :
    (sides.first.declaration a).data.visibility = (sides.second.declaration b).data.visibility
  types : sides.TypesAgree R infoA.type infoB.type
  typeParameters : List.Forall₂ (sides.ParametersAgree R) infoA.typeParameters infoB.typeParameters
  consts : infoA.isConst = false ∧ infoB.isConst = false
  lateinits : infoA.isLateinit = false ∧ infoB.isLateinit = false
  vars : infoA.isVar = infoB.isVar
  getters : accessorsAgree infoA.getter infoB.getter = true
  setters : accessorsAgree infoA.setter infoB.setter = true
  receivers : Option.Rel (sides.TypesAgree R) infoA.receiver infoB.receiver

/-- What two declarations of a kind have to say alike. -/
def KindMatches (a b : DeclId) : Prop :=
  let declA := sides.first.declaration a
  let declB := sides.second.declaration b
  match declA.payload, declB.payload with
  | .function infoA, .function infoB => sides.FunctionsAgree R a b infoA infoB
  | .property infoA, .property infoB => sides.PropertiesAgree R a b infoA infoB
  | .value infoA, .value infoB => sides.ValuesAgree R infoA infoB
  | .module _, _ => declA.name = declB.name
  | .package, _ => declA.qualifiedName = declB.qualifiedName
  | _, _ => R a b

/-- Two declarations that match when a relation says which classifiers can be shared. -/
structure Matches (a b : DeclId) : Prop where
  kinds : (sides.first.declaration a).kind = (sides.second.declaration b).kind
  visible : (sides.first.declaration a).data.visibility.isPrivate = false ∧
    (sides.second.declaration b).data.visibility.isPrivate = false
  abstract : sides.first.isConcreteInterfaceMember a = false ∧
    sides.second.isConcreteInterfaceMember b = false
  kind : sides.KindMatches R a b

variable {sides R} {S : DeclId → DeclId → Prop} (himp : ∀ a b, R a b → S a b)
include himp

theorem optionRel_mono {a b : Option (Ty ClassifierRef)}
    (hagree : Option.Rel (sides.TypesAgree R) a b) : Option.Rel (sides.TypesAgree S) a b := by
  cases hagree with
  | none => exact .none
  | some htypes => exact .some (htypes.mono himp)

theorem typeParameters_mono {as bs : List (TypeParameter ClassifierRef)}
    (hagree : List.Forall₂ (sides.ParametersAgree R) as bs) :
    List.Forall₂ (sides.ParametersAgree S) as bs :=
  hagree.imp fun _ _ h => ⟨h.variance, h.bounds.imp fun _ _ => .mono himp⟩

theorem AreValues.mono {a b : DeclId} (hagree : sides.AreValues R a b) :
    sides.AreValues S a b := by
  obtain ⟨infoA, infoB, hA, hB, htypes, hvarargs⟩ := hagree
  exact ⟨infoA, infoB, hA, hB, htypes.mono himp, hvarargs⟩

theorem KindMatches.mono {a b : DeclId} (hkind : sides.KindMatches R a b) : sides.KindMatches S a b := by
  simp only [KindMatches] at hkind ⊢
  split at hkind
  · exact { hkind with
      returnTypes := hkind.returnTypes.mono himp
      receivers := optionRel_mono himp hkind.receivers
      typeParameters := typeParameters_mono himp hkind.typeParameters
      parameters := hkind.parameters.imp fun _ _ h => h.mono himp }
  · exact { hkind with
      types := hkind.types.mono himp
      receivers := optionRel_mono himp hkind.receivers
      typeParameters := typeParameters_mono himp hkind.typeParameters }
  · exact { hkind with types := hkind.types.mono himp }
  · exact hkind
  · exact hkind
  · exact himp a b hkind

theorem Matches.mono {a b : DeclId} (hmatches : sides.Matches R a b) : sides.Matches S a b :=
  { hmatches with kind := hmatches.kind.mono himp }

end Sides

open ProgramLogic (Decides)

section

variable {n : Type → Type} [Monad n] [LawfulMonad n] {logic : ProgramLogic n} (sides : Sides)
  {told : Cache → DeclId → DeclId → Prop}
  (htold : ∀ {known cache : Cache}, known.Grown cache → ∀ x y, told known x y → told cache x y)

section Answers

variable {answer : DeclId → DeclId → n Bool}
  (hanswer : ∀ known x y, logic.Decides known (answer x y) id (told · x y))
include htold hanswer

theorem typesAgree_decides (a b : Ty ClassifierRef) (known : Cache) :
    logic.Decides known (typesAgree sides answer a b) id
      fun cache => sides.TypesAgree (told cache) a b :=
  .check htold hanswer (typesAgree_isQuestions sides a b)
    (fun _ => Iff.rfl) known

theorem optionalTypesAgree_decides (a b : Option (Ty ClassifierRef)) (known : Cache) :
    logic.Decides known (optionalTypesAgree sides answer a b) id
      fun cache => Option.Rel (sides.TypesAgree (told cache)) a b :=
  .check htold hanswer (optionalTypesAgree_isQuestions sides a b)
    (fun _ => optionalTypesAgree_iff) known

theorem typeParametersAgree_decides (as bs : List (TypeParameter ClassifierRef)) (known : Cache) :
    logic.Decides known (typeParametersAgree sides answer as bs) id
      fun cache => List.Forall₂ (sides.ParametersAgree (told cache)) as bs :=
  .check htold hanswer (typeParametersAgree_isQuestions sides as bs)
    (fun _ => typeParametersAgree_iff) known

theorem constructorsAgree_decides (a b : Constructor ClassifierRef) (known : Cache) :
    logic.Decides known (constructorsAgree sides answer a b) id
      fun cache => sides.ConstructorsAgree (told cache) a b :=
  .check htold hanswer (constructorsAgree_isQuestions sides a b)
    (fun _ => constructorsAgree_iff) known

theorem valueFailures_decides (a b : DeclId) (known : Cache) :
    logic.Decides known (valueFailures sides answer a b) Mismatch.isEmpty
      fun cache => sides.AreValues (told cache) a b := by
  simp only [valueFailures]
  split
  · next infoA infoB hA hB =>
    refine .bind (typesAgree_decides sides htold hanswer _ _ known) ?_
    refine fun types cache hgrown htypes => .pure fun cache' hgrown' => ?_
    simp only [Mismatch.isEmpty_require, Bool.and_eq_true, beq_iff_eq]
    constructor
    · rintro ⟨⟨-, hyes⟩, hvarargs⟩
      exact ⟨infoA, infoB, hA, hB, (htypes.1 hyes).mono (htold hgrown'), hvarargs⟩
    · rintro ⟨infoA', infoB', hA', hB', hagree, hvarargs⟩
      obtain rfl := Payload.value.inj (hA.symm.trans hA')
      obtain rfl := Payload.value.inj (hB.symm.trans hB')
      exact ⟨⟨rfl, htypes.2 hagree⟩, hvarargs⟩
  · next hother =>
    refine .pure fun cache _ => ⟨fun hno => absurd hno Bool.false_ne_true, ?_⟩
    rintro ⟨infoA, infoB, hA, hB, -⟩
    exact absurd hB (hother infoA infoB hA)

/-- The parameters of two functions with as many are compared one by one. -/
theorem parameterFailures_decides (place : Nat) (as bs : List DeclId)
    (hlength : as.length = bs.length) (failed : Mismatch) (known : Cache) :
    logic.Decides known (parameterFailures sides answer place as bs failed) Mismatch.isEmpty
      fun cache => failed.isEmpty = true ∧ List.Forall₂ (sides.AreValues (told cache)) as bs := by
  induction as generalizing place bs failed known with
  | nil =>
    cases bs with
    | nil => exact .pure fun _ _ => ⟨fun hempty => ⟨hempty, .nil⟩, fun h => h.1⟩
    | cons b bs => cases hlength
  | cons a as ih =>
    cases bs with
    | nil => cases hlength
    | cons b bs =>
      refine .bind (valueFailures_decides sides htold hanswer a b known) ?_
      intro mismatch cache hgrown hfirst
      refine (ih (place + 1) bs (Nat.succ.inj hlength) _ cache).mono ?_
      intro all cache' hgrown' hrest
      rw [Mismatch.isEmpty_require, Bool.and_eq_true] at hrest
      constructor
      · intro hempty
        obtain ⟨⟨hfailed, hyes⟩, hothers⟩ := hrest.1 hempty
        exact ⟨hfailed, .cons ((hfirst.1 hyes).mono (htold hgrown')) hothers⟩
      · rintro ⟨hfailed, hagree⟩
        obtain ⟨hone, hothers⟩ := List.forall₂_cons.mp hagree
        refine hrest.2 ⟨⟨hfailed, hfirst.2 hone⟩, hothers.imp fun _ _ h => ?_⟩
        exact h.mono (htold hgrown)

theorem functionFailures_decides (a b : DeclId) (infoA infoB : FunctionInfo ClassifierRef)
    (known : Cache) :
    logic.Decides known (functionFailures sides answer a b (sides.first.declaration a).data
      (sides.second.declaration b).data infoA infoB) Mismatch.isEmpty
      fun cache => sides.FunctionsAgree (told cache) a b infoA infoB := by
  refine .bind (typesAgree_decides sides htold hanswer _ _ known) ?_
  intro returnTypes cache₁ hgrown₁ hreturnTypes
  refine .bind (optionalTypesAgree_decides sides htold hanswer _ _ cache₁) ?_
  intro receivers cache₂ hgrown₂ hreceivers
  refine .bind (typeParametersAgree_decides sides htold hanswer _ _ cache₂) ?_
  intro typeParameters cache₃ hgrown₃ htypeParameters
  refine .ite (fun hlength => ?_) fun hlength => .pure fun cache _ => ⟨fun hempty => ?_, fun h => ?_⟩
  · refine (parameterFailures_decides sides htold hanswer 0 _ _ (beq_iff_eq.mp hlength) _
      cache₃).mono fun mismatch cache hgrown hparameters => ?_
    simp only [Mismatch.isEmpty_require, Bool.and_eq_true, Bool.not_eq_true', beq_iff_eq]
      at hparameters
    constructor
    · intro hempty
      obtain ⟨⟨⟨⟨⟨⟨⟨⟨-, hincluded⟩, hnames⟩, hvisibility⟩, hsuspend⟩, hreturn⟩, hreceiver⟩, hparameter⟩,
        hvalues⟩ := hparameters.1 hempty
      refine ⟨hincluded, hnames, hvisibility, hsuspend, ?_, ?_, ?_, hvalues⟩
      · exact (hreturnTypes.1 hreturn).mono (htold (hgrown₂.trans (hgrown₃.trans hgrown)))
      · exact Sides.optionRel_mono (htold (hgrown₃.trans hgrown)) (hreceivers.1 hreceiver)
      · exact Sides.typeParameters_mono (htold hgrown) (htypeParameters.1 hparameter)
    · intro hagree
      refine hparameters.2 ⟨⟨⟨⟨⟨⟨⟨⟨rfl, hagree.included⟩, hagree.names⟩, hagree.visibilities⟩,
        hagree.suspends⟩, hreturnTypes.2 hagree.returnTypes⟩, ?_⟩, ?_⟩, ?_⟩
      · exact hreceivers.2 (Sides.optionRel_mono (htold hgrown₁) hagree.receivers)
      · exact htypeParameters.2
          (Sides.typeParameters_mono (htold (hgrown₁.trans hgrown₂)) hagree.typeParameters)
      · exact hagree.parameters.imp fun _ _ h => h.mono (htold (hgrown₁.trans (hgrown₂.trans hgrown₃)))
  · rw [Mismatch.isEmpty_push] at hempty
    cases hempty
  · exact absurd (beq_iff_eq.mpr h.parameters.length_eq) hlength

theorem propertyFailures_decides (a b : DeclId) (infoA infoB : PropertyInfo ClassifierRef)
    (known : Cache) :
    logic.Decides known (propertyFailures sides answer (sides.first.declaration a).data
      (sides.second.declaration b).data infoA infoB) Mismatch.isEmpty
      fun cache => sides.PropertiesAgree (told cache) a b infoA infoB := by
  refine .bind (typesAgree_decides sides htold hanswer _ _ known) ?_
  intro types cache₁ hgrown₁ htypes
  refine .bind (typeParametersAgree_decides sides htold hanswer _ _ cache₁) ?_
  intro typeParameters cache₂ hgrown₂ htypeParameters
  refine .bind (optionalTypesAgree_decides sides htold hanswer _ _ cache₂) ?_
  intro receivers cache₃ hgrown₃ hreceivers
  refine .pure fun cache hgrown => ?_
  simp only [Mismatch.isEmpty_require, Bool.and_eq_true, Bool.not_eq_true', beq_iff_eq]
  constructor
  · rintro ⟨⟨⟨⟨⟨⟨⟨⟨⟨⟨-, hnames⟩, hvisibility⟩, htype⟩, hparameter⟩, hconst⟩, hlateinit⟩, hvar⟩, hgetter⟩,
      hsetter⟩, hreceiver⟩
    refine ⟨hnames, hvisibility, ?_, ?_, hconst, hlateinit, hvar, hgetter, hsetter, ?_⟩
    · exact (htypes.1 htype).mono (htold (hgrown₂.trans (hgrown₃.trans hgrown)))
    · exact Sides.typeParameters_mono (htold (hgrown₃.trans hgrown)) (htypeParameters.1 hparameter)
    · exact Sides.optionRel_mono (htold hgrown) (hreceivers.1 hreceiver)
  · intro hagree
    refine ⟨⟨⟨⟨⟨⟨⟨⟨⟨⟨rfl, hagree.names⟩, hagree.visibilities⟩, htypes.2 hagree.types⟩, ?_⟩,
      hagree.consts⟩, hagree.lateinits⟩, hagree.vars⟩, hagree.getters⟩, hagree.setters⟩, ?_⟩
    · exact htypeParameters.2 (Sides.typeParameters_mono (htold hgrown₁) hagree.typeParameters)
    · exact hreceivers.2
        (Sides.optionRel_mono (htold (hgrown₁.trans hgrown₂)) hagree.receivers)

end Answers

variable {m : Type → Type} {services : Services n m}
  (hverdict : ∀ known a b,
    logic.Decides known (services.verdict a b) Mismatch.isEmpty (told · a b))
include htold hverdict

omit [LawfulMonad n] in
theorem Services.shareable_decides (known : Cache) (a b : DeclId) :
    logic.Decides known (services.shareable a b) id (told · a b) :=
  .bind (hverdict known a b) fun _ _ _ hdecides => .pure fun _ hgrown' =>
    ⟨fun hyes => htold hgrown' a b (hdecides.1 hyes), hdecides.2⟩

/-- The rules on two declarations decide whether they match. -/
theorem Services.failuresOf_decides (a b : DeclId) (known : Cache) :
    logic.Decides known (services.failuresOf sides a b) Mismatch.isEmpty
      fun cache => sides.Matches (told cache) a b := by
  have hanswer := services.shareable_decides htold hverdict
  simp only [Services.failuresOf]
  refine .ite (fun hkinds => .pure fun _ _ => ⟨nofun, fun h => ?_⟩) fun hkinds =>
    .ite (fun hprivate => .pure fun _ _ => ⟨nofun, fun h => ?_⟩) fun hvisible =>
    .ite (fun hconcrete => .pure fun _ _ => ⟨nofun, fun h => ?_⟩) fun habstract => ?_
  · exact absurd h.kinds (by simpa [Declaration.kind] using hkinds)
  · simp [h.visible] at hprivate
  · simp [h.abstract] at hconcrete
  · have hmatches (told : DeclId → DeclId → Prop) :
        sides.Matches told a b ↔ sides.KindMatches told a b := by
      refine ⟨Sides.Matches.kind, fun hkind => ⟨?_, ?_, ?_, hkind⟩⟩
      · simpa [Declaration.kind] using hkinds
      · simpa using hvisible
      · simpa using habstract
    simp only [hmatches]
    split
    · next infoA infoB hA hB =>
      have hkind (told : DeclId → DeclId → Prop) :
          sides.KindMatches told a b ↔ sides.FunctionsAgree told a b infoA infoB := by
        simp only [Sides.KindMatches, Declaration.payload, hA, hB]
      simp only [hkind]
      exact functionFailures_decides sides htold hanswer a b infoA infoB known
    · next infoA infoB hA hB =>
      have hkind (told : DeclId → DeclId → Prop) :
          sides.KindMatches told a b ↔ sides.PropertiesAgree told a b infoA infoB := by
        simp only [Sides.KindMatches, Declaration.payload, hA, hB]
      simp only [hkind]
      exact propertyFailures_decides sides htold hanswer a b infoA infoB known
    · next infoA infoB hA hB =>
      have hkind (told : DeclId → DeclId → Prop) :
          sides.KindMatches told a b ↔ sides.AreValues told a b := by
        simp only [Sides.KindMatches, Declaration.payload, hA, hB]
        refine ⟨fun hagree => ⟨infoA, infoB, hA, hB, hagree⟩, ?_⟩
        rintro ⟨infoA', infoB', hA', hB', hagree⟩
        obtain rfl := Payload.value.inj (hA.symm.trans hA')
        obtain rfl := Payload.value.inj (hB.symm.trans hB')
        exact hagree
      simp only [hkind]
      exact valueFailures_decides sides htold hanswer a b known
    · next hA =>
      simp only [Sides.KindMatches, Declaration.payload, hA]
      refine .pure fun _ _ => ?_
      simp only [Mismatch.isEmpty_require, Bool.and_eq_true, beq_iff_eq]
      exact ⟨And.right, fun hname => ⟨rfl, hname⟩⟩
    · next hA =>
      simp only [Sides.KindMatches, Declaration.payload, hA]
      refine .pure fun _ _ => ?_
      simp only [Mismatch.isEmpty_require, Bool.and_eq_true, beq_iff_eq]
      exact ⟨And.right, fun hname => ⟨rfl, hname⟩⟩
    · next hfunctions hproperties hvalues hmodules hpackages =>
      have hkind (told : DeclId → DeclId → Prop) : sides.KindMatches told a b ↔ told a b := by
        simp only [Sides.KindMatches, Declaration.payload]
      simp only [hkind]
      exact hverdict known a b

end

end Concord
