import Concord.Proofs.Comparison.Symmetry
import Concord.Proofs.Logic.Services
import Concord.Proofs.Merge.Shared

namespace Concord

open ProgramLogic (Gives Runs RunsWhile)

namespace Sides

variable (sides : Sides)

/-- What the rules on two declarations of a kind come to, where `akin` is known of classifiers. -/
def KindPasses (akin : DeclId → DeclId → Prop) (a b : DeclId) : Prop :=
  let declA := sides.first.declaration a
  let declB := sides.second.declaration b
  match declA.payload, declB.payload with
  | .function infoA, .function infoB =>
    (sides.options.isExcluded declA.name = false ∧ sides.options.isExcluded declB.name = false) ∧
      declA.qualifiedName = declB.qualifiedName ∧ declA.data.visibility = declB.data.visibility ∧
      infoA.isSuspend = infoB.isSuspend
  | .property infoA, .property infoB =>
    declA.qualifiedName = declB.qualifiedName ∧ declA.data.visibility = declB.data.visibility ∧
      (infoA.isConst = false ∧ infoB.isConst = false) ∧
      (infoA.isLateinit = false ∧ infoB.isLateinit = false) ∧ infoA.isVar = infoB.isVar ∧
      accessorsAgree infoA.getter infoB.getter = true ∧
      accessorsAgree infoA.setter infoB.setter = true
  | .value _, .value _ => True
  | .module _, _ => declA.name = declB.name
  | .package, _ => declA.qualifiedName = declB.qualifiedName
  | _, _ => akin a b

/-- What two declarations pass when they match. -/
structure Passes (akin : DeclId → DeclId → Prop) (a b : DeclId) : Prop where
  kinds : (sides.first.declaration a).kind = (sides.second.declaration b).kind
  visible : (sides.first.declaration a).data.visibility.isPrivate = false ∧
    (sides.second.declaration b).data.visibility.isPrivate = false
  abstract : sides.first.isConcreteInterfaceMember a = false ∧
    sides.second.isConcreteInterfaceMember b = false
  kind : sides.KindPasses akin a b

end Sides

namespace Services

variable {n m : Type → Type} [Monad n] [LawfulMonad n] {services : Services n m}
  {sides : Sides} {logic : ProgramLogic n}

section Checks

variable {ask : DeclId → DeclId → n Bool} (hask : ∀ x y, logic.Runs (ask x y))
include hask

private theorem types_runs (a b : Ty ClassifierRef) : logic.Runs (typesAgree sides ask a b) :=
  RunsWhile.check hask (typesAgree_isQuestions sides a b)

private theorem valueFailures_runs (a b : DeclId) : logic.Runs (valueFailures sides ask a b) := by
  simp only [valueFailures]
  split
  · exact .bind (types_runs hask _ _) fun _ _ => .pure trivial
  · exact .pure trivial

/-- What has failed before the parameters are compared still fails afterwards. -/
private theorem parameterFailures_gives (place : Nat) (as bs : List DeclId) (failed : Mismatch) :
    logic.Gives (parameterFailures sides ask place as bs failed) fun mismatch =>
      mismatch.isEmpty = true → failed.isEmpty = true := by
  induction as generalizing place bs failed with
  | nil => exact .pure id
  | cons a as ih =>
    cases bs with
    | nil => exact .pure id
    | cons b bs =>
      refine .bind (valueFailures_runs hask a b) fun mismatch _ => (ih _ _ _).mono fun _ h hempty => ?_
      have hall := h hempty
      rw [Mismatch.isEmpty_require, Bool.and_eq_true] at hall
      exact hall.1

private theorem functionFailures_gives (a b : DeclId) (dataA dataB : Data)
    (infoA infoB : FunctionInfo ClassifierRef) :
    logic.Gives (functionFailures sides ask a b dataA dataB infoA infoB) fun mismatch =>
      mismatch.isEmpty = true → (sides.options.isExcluded dataA.name = false ∧
        sides.options.isExcluded dataB.name = false) ∧
        dataA.qualifiedName = dataB.qualifiedName ∧ dataA.visibility = dataB.visibility ∧
        infoA.isSuspend = infoB.isSuspend := by
  refine .bind (types_runs hask _ _) fun types _ => ?_
  refine .bind (RunsWhile.check hask (optionalTypesAgree_isQuestions sides _ _)) fun receivers _ => ?_
  refine .bind (RunsWhile.check hask (typeParametersAgree_isQuestions sides _ _)) fun parameters _ => ?_
  refine .ite (fun _ => (parameterFailures_gives hask 0 _ _ _).mono fun mismatch h hempty => ?_)
    fun _ => .pure fun hempty => ?_
  · have hall := h hempty
    simp only [Mismatch.isEmpty_require, Bool.and_eq_true, Bool.not_eq_true', beq_iff_eq] at hall
    obtain ⟨⟨⟨⟨⟨⟨⟨-, hexcluded⟩, hnames⟩, hvisibility⟩, hsuspend⟩, -⟩, -⟩, -⟩ := hall
    exact ⟨hexcluded, hnames, hvisibility, hsuspend⟩
  · rw [Mismatch.isEmpty_push] at hempty
    cases hempty

private theorem propertyFailures_gives (dataA dataB : Data)
    (infoA infoB : PropertyInfo ClassifierRef) :
    logic.Gives (propertyFailures sides ask dataA dataB infoA infoB) fun mismatch =>
      mismatch.isEmpty = true → dataA.qualifiedName = dataB.qualifiedName ∧
        dataA.visibility = dataB.visibility ∧ (infoA.isConst = false ∧ infoB.isConst = false) ∧
        (infoA.isLateinit = false ∧ infoB.isLateinit = false) ∧ infoA.isVar = infoB.isVar ∧
        accessorsAgree infoA.getter infoB.getter = true ∧
        accessorsAgree infoA.setter infoB.setter = true := by
  refine .bind (types_runs hask _ _) fun types _ => ?_
  refine .bind (RunsWhile.check hask (typeParametersAgree_isQuestions sides _ _)) fun parameters _ => ?_
  refine .bind (RunsWhile.check hask (optionalTypesAgree_isQuestions sides _ _)) fun receivers _ => ?_
  refine .pure fun hempty => ?_
  simp only [Mismatch.isEmpty_require, Bool.and_eq_true, Bool.not_eq_true', beq_iff_eq] at hempty
  obtain ⟨⟨⟨⟨⟨⟨⟨⟨⟨⟨-, hnames⟩, hvisibility⟩, -⟩, -⟩, hconst⟩, hlateinit⟩, hvar⟩, hgetter⟩, hsetter⟩, -⟩ :=
    hempty
  exact ⟨hnames, hvisibility, hconst, hlateinit, hvar, hgetter, hsetter⟩

/-- The three payloads of a match are what the sides declare and what both share. -/
private theorem matchedPayloads_gives (a b : DeclId) :
    logic.Gives (matchedPayloads sides ask a b) fun outcome => ∃ common, outcome = .matched
        ((sides.first.declaration a).data.mapRefs sides.first.detachRef) common
        ((sides.second.declaration b).data.mapRefs sides.second.detachRef) ∧
      ((sides.first.declaration a).kind = (sides.second.declaration b).kind →
        common.SharedOf sides.first a) := by
  generalize hfirst : (sides.first.declaration a).data.mapRefs sides.first.detachRef = first
  generalize hsecond : (sides.second.declaration b).data.mapRefs sides.second.detachRef = second
  have hkindA : first.kind = (sides.first.declaration a).kind :=
    hfirst ▸ Data.kind_mapRefs _ _
  have hkindB : second.kind = (sides.second.declaration b).kind :=
    hsecond ▸ Data.kind_mapRefs _ _
  have finish {step : n Data} (hstep : logic.Gives step fun common =>
      (sides.first.declaration a).kind = (sides.second.declaration b).kind →
        Data.SharedOf { common with payload := common.payload.mapTypes Ty.collapse }
          sides.first a) :
      logic.Gives (do
        let common ← step
        return Comparison.matched first
          { common with payload := common.payload.mapTypes Ty.collapse } second)
        fun outcome => ∃ common, outcome = .matched first common second ∧
          ((sides.first.declaration a).kind = (sides.second.declaration b).kind →
            common.SharedOf sides.first a) :=
    .bind hstep fun common hcommon => .pure ⟨_, rfl, hcommon⟩
  simp only [matchedPayloads, hfirst, hsecond]
  split
  · next infoA infoB hpayloadA hpayloadB =>
    have halias : (sides.first.declaration a).kind = .typeAlias := by
      rw [← hkindA, Data.kind, hpayloadA]
      rfl
    refine finish (.bind (RunsWhile.partneredFrom (types_runs hask) 0 _ _) fun places _ =>
      .pure fun _ => ?_)
    rw [← hfirst]
    exact Sides.sharedOf_aliases halias places
  · next hother =>
    refine finish (.pure fun hkinds => ?_)
    rw [← hfirst]
    refine Sides.sharedOf_collapse fun halias => ?_
    obtain ⟨infoA, hpayloadA⟩ := Payload.ofKind (hkindA.trans halias)
    obtain ⟨infoB, hpayloadB⟩ := Payload.ofKind (hkindB.trans (hkinds.symm.trans halias))
    exact hother infoA infoB hpayloadA hpayloadB

end Checks

section Verdicts

variable {akin : DeclId → DeclId → Prop}
  (hverdict : ∀ a b, logic.Gives (services.verdict a b) fun verdict =>
    verdict.isEmpty = true → akin a b)
include hverdict

omit [LawfulMonad n] in
theorem shareable_runs (a b : DeclId) : logic.Runs (services.shareable a b) :=
  .bind (hverdict a b) fun _ _ => .pure trivial

/-- Two declarations that fail no rule pass all checks. -/
theorem failuresOf_gives (a b : DeclId) :
    logic.Gives (services.failuresOf sides a b) fun mismatch =>
      mismatch.isEmpty = true → sides.Passes akin a b := by
  have hshareable := shareable_runs hverdict
  refine .ite (fun _ => .pure nofun) fun hkinds => .ite (fun _ => .pure nofun) fun hvisible =>
    .ite (fun _ => .pure nofun) fun habstract => ?_
  have hpasses (hkind : sides.KindPasses akin a b) : sides.Passes akin a b := by
    refine ⟨?_, ?_, ?_, hkind⟩
    · simpa [Declaration.kind] using hkinds
    · simpa using hvisible
    · simpa using habstract
  split
  · next infoA infoB hpayloadA hpayloadB =>
    refine (functionFailures_gives hshareable a b _ _ infoA infoB).mono fun mismatch h hempty => ?_
    refine hpasses ?_
    simp only [Sides.KindPasses, Declaration.payload, hpayloadA, hpayloadB]
    exact h hempty
  · next infoA infoB hpayloadA hpayloadB =>
    refine (propertyFailures_gives hshareable _ _ infoA infoB).mono fun mismatch h hempty => ?_
    refine hpasses ?_
    simp only [Sides.KindPasses, Declaration.payload, hpayloadA, hpayloadB]
    exact h hempty
  · next hpayloadA hpayloadB =>
    refine (valueFailures_runs hshareable a b).mono fun _ _ _ => hpasses ?_
    simp only [Sides.KindPasses, Declaration.payload, hpayloadA, hpayloadB]
  · next hpayloadA =>
    refine .pure fun hempty => hpasses ?_
    simp only [Sides.KindPasses, Declaration.payload, hpayloadA]
    simp only [Mismatch.isEmpty_require, Bool.and_eq_true, beq_iff_eq] at hempty
    exact hempty.2
  · next hpayloadA =>
    refine .pure fun hempty => hpasses ?_
    simp only [Sides.KindPasses, Declaration.payload, hpayloadA]
    simp only [Mismatch.isEmpty_require, Bool.and_eq_true, beq_iff_eq] at hempty
    exact hempty.2
  · refine (hverdict a b).mono fun mismatch h hempty => hpasses ?_
    simp only [Sides.KindPasses, Declaration.payload]
    exact h hempty

/-- Of the data that two declarations share, what is left of supertypes and constructors is
shared. -/
theorem intersect_gives (a b : DeclId) {common : Data} (hshared : common.SharedOf sides.first a) :
    logic.Gives (services.intersect sides a b common) fun left => left.SharedOf sides.first a := by
  have hshareable := shareable_runs hverdict
  simp only [intersect]
  split
  · refine .bind (RunsWhile.partneredFrom (types_runs hshareable) 0 _ _) fun supertypes _ => ?_
    refine .bind (RunsWhile.partneredFrom (fun c d =>
      RunsWhile.check hshareable (constructorsAgree_isQuestions sides c d)) 0 _ _) fun constructors _ => ?_
    split
    · next info hpayload => exact .pure (hshared.keep hpayload supertypes constructors)
    · exact .pure hshared
  · exact .pure hshared

end Verdicts

/-- What is known of two declarations that match and of what they share. -/
structure Match (sides : Sides) (akin : DeclId → DeclId → Prop) (a b : DeclId)
    (first common second : Data) : Prop where
  first : first = (sides.first.declaration a).data.mapRefs sides.first.detachRef
  second : second = (sides.second.declaration b).data.mapRefs sides.second.detachRef
  kinds : (sides.first.declaration a).kind = (sides.second.declaration b).kind
  shared : common.SharedOf sides.first a
  passes : sides.same = false → sides.Passes akin a b

/-- What a comparison ends with: a match, or at least one cause. -/
def Ended (sides : Sides) (akin : DeclId → DeclId → Prop) (a b : DeclId) : Comparison → Prop
  | .matched first common second => Match sides akin a b first common second
  | .mismatched mismatch => mismatch.isEmpty = false

/-- A comparison that ends with a match has found one, and any other has found a cause. -/
theorem compare_ends [Monad m] {outer : ProgramLogic m} {total : Prop}
    (hobeys : services.Obeys logic outer total) (hconsistent : sides.Consistent)
    {akin : DeclId → DeclId → Prop}
    (hverdict : ∀ a b, logic.Gives (services.verdict a b) fun verdict =>
      verdict.isEmpty = true → akin a b) (a b : DeclId) :
    logic.Gives (services.compare sides a b) (Ended sides akin a b) := by
  have hpayloads : logic.Gives (matchedPayloads sides services.shareable a b) _ :=
    matchedPayloads_gives (shareable_runs hverdict) a b
  refine .ite (fun hsame => hpayloads.mono ?_) fun _ => ?_
  · rintro _ ⟨common, rfl, hshared⟩
    obtain ⟨hflag, hids⟩ := Bool.and_eq_true_iff.mp hsame
    have hkinds : (sides.first.declaration a).kind = (sides.second.declaration b).kind := by
      rw [hconsistent hflag, beq_iff_eq.mp hids]
    refine ⟨rfl, rfl, hkinds, hshared hkinds, fun hdistinct => ?_⟩
    rw [hflag] at hdistinct
    cases hdistinct
  · refine .bind (hobeys.watched (failuresOf_gives hverdict a b)) fun outcome hfailed => ?_
    refine .ite (fun hempty => hpayloads.mono ?_) fun hcause => .pure (Bool.eq_false_iff.mpr hcause)
    rintro _ ⟨common, rfl, hshared⟩
    rw [Mismatch.isEmpty_require, Bool.and_eq_true] at hempty
    have hpasses := hfailed hempty.1
    exact ⟨rfl, rfl, hpasses.kinds, hshared hpasses.kinds, fun _ => hpasses⟩

theorem compare_gives [Monad m] {outer : ProgramLogic m} {total : Prop}
    (hobeys : services.Obeys logic outer total) (hconsistent : sides.Consistent)
    {akin : DeclId → DeclId → Prop}
    (hverdict : ∀ a b, logic.Gives (services.verdict a b) fun verdict =>
      verdict.isEmpty = true → akin a b) (a b : DeclId) :
    logic.Gives (services.compare sides a b) fun outcome => ∀ first common second,
      outcome = .matched first common second → Match sides akin a b first common second := by
  refine (compare_ends hobeys hconsistent hverdict a b).mono ?_
  rintro _ hended _ _ _ rfl
  exact hended

end Services

end Concord
