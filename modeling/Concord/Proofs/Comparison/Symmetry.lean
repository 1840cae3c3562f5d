import Concord.Proofs.Comparison.Rules
import Concord.Proofs.Merge.Oracle

namespace Concord

namespace Sides

/-- The same comparison the other way round. -/
def swap (sides : Sides) : Sides :=
  ⟨sides.second, sides.first, sides.same, sides.options⟩

@[simp] theorem swap_first (sides : Sides) : sides.swap.first = sides.second := rfl

@[simp] theorem swap_second (sides : Sides) : sides.swap.second = sides.first := rfl

@[simp] theorem swap_same (sides : Sides) : sides.swap.same = sides.same := rfl

@[simp] theorem swap_options (sides : Sides) : sides.swap.options = sides.options := rfl

@[simp] theorem swap_swap (sides : Sides) : sides.swap.swap = sides := rfl

end Sides

section Types

variable (sides : Sides) (ask : DeclId → DeclId → Id Bool)

private theorem byName_comm (x y : Option QualifiedName) :
    (x.isSome && x == y) = (y.isSome && y == x) := by
  cases x with
  | none => cases y <;> rfl
  | some x =>
    cases y with
    | none => rfl
    | some y => exact BEq.comm

theorem refsAgree_swap (a b : ClassifierRef) :
    refsAgree (m := Id) sides.swap (fun y x => ask x y) b a = refsAgree (m := Id) sides ask a b := by
  cases a with
  | typeParameter x =>
    cases b with
    | typeParameter y => exact BEq.comm
    | resolved _ | symbolic _ | external _ => rfl
  | resolved _ | symbolic _ | external _ =>
    cases b with
    | typeParameter _ => rfl
    | resolved _ | symbolic _ | external _ =>
      simp only [refsAgree, Sides.swap, byName_comm (sides.second.nameOf? _), Bool.or_comm]
      cases sides.first.resolve? _ <;> cases sides.second.resolve? _ <;> rfl

theorem headsAgree_swap (a b : SimpleType ClassifierRef) :
    headsAgree (m := Id) sides.swap (fun y x => ask x y) b a =
      headsAgree (m := Id) sides ask a b := by
  simp only [headsAgree, refsAgree_swap]
  rw [BEq.comm (a := b.comparedArguments.length), BEq.comm (a := b.nullable),
    BEq.comm (a := b.definitelyNotNull)]

mutual
theorem typesAgree_swap : (a b : Ty ClassifierRef) →
    typesAgree (m := Id) sides.swap (fun y x => ask x y) b a = typesAgree (m := Id) sides ask a b
  | .simple a, .simple b => by
    simp only [typesAgree, Sides.swap_same, BEq.comm (a := Ty.simple b), simpleTypesAgree_swap a b]
  | .simple a, .flexible lower upper => by
    simp only [typesAgree, Sides.swap_same, BEq.comm (a := Ty.flexible lower upper)]
  | .flexible lower upper, .simple b => by
    simp only [typesAgree, Sides.swap_same, BEq.comm (a := Ty.simple b)]
  | .flexible lower upper, .flexible lower' upper' => by
    simp only [typesAgree, Sides.swap_same, BEq.comm (a := Ty.flexible lower' upper'),
      simpleTypesAgree_swap lower lower', simpleTypesAgree_swap upper upper']
theorem simpleTypesAgree_swap : (a b : SimpleType ClassifierRef) →
    simpleTypesAgree (m := Id) sides.swap (fun y x => ask x y) b a =
      simpleTypesAgree (m := Id) sides ask a b
  | ⟨classifier, arguments, nullable, notNull, none⟩,
    ⟨classifier', arguments', nullable', notNull', none⟩ => by
    simp only [simpleTypesAgree, headsAgree_swap, SimpleType.comparedArguments,
      argumentsAgree_swap arguments arguments']
  | ⟨classifier, arguments, nullable, notNull, none⟩,
    ⟨classifier', _, nullable', notNull', some ⟨_, arguments', _, _, _⟩⟩ => by
    simp only [simpleTypesAgree, headsAgree_swap, SimpleType.comparedArguments,
      argumentsAgree_swap arguments arguments']
  | ⟨classifier, _, nullable, notNull, some ⟨_, arguments, _, _, _⟩⟩,
    ⟨classifier', arguments', nullable', notNull', none⟩ => by
    simp only [simpleTypesAgree, headsAgree_swap, SimpleType.comparedArguments,
      argumentsAgree_swap arguments arguments']
  | ⟨classifier, _, nullable, notNull, some ⟨_, arguments, _, _, _⟩⟩,
    ⟨classifier', _, nullable', notNull', some ⟨_, arguments', _, _, _⟩⟩ => by
    simp only [simpleTypesAgree, headsAgree_swap, SimpleType.comparedArguments,
      argumentsAgree_swap arguments arguments']
theorem argumentsAgree_swap : (as bs : List (TypeArgument ClassifierRef)) →
    argumentsAgree (m := Id) sides.swap (fun y x => ask x y) bs as =
      argumentsAgree (m := Id) sides ask as bs
  | [], [] => rfl
  | [], _ :: _ => by simp only [argumentsAgree]
  | _ :: _, [] => by simp only [argumentsAgree]
  | .star :: as, .star :: bs => by simp only [argumentsAgree, argumentsAgree_swap as bs]
  | .projection variance a :: as, .projection variance' b :: bs => by
    simp only [argumentsAgree, BEq.comm (a := variance'), typesAgree_swap a b,
      argumentsAgree_swap as bs]
  | .star :: as, .projection _ _ :: bs => by simp only [argumentsAgree]
  | .projection _ _ :: as, .star :: bs => by simp only [argumentsAgree]
end

theorem optionalTypesAgree_swap (a b : Option (Ty ClassifierRef)) :
    optionalTypesAgree (m := Id) sides.swap (fun y x => ask x y) b a =
      optionalTypesAgree (m := Id) sides ask a b := by
  cases a with
  | none => cases b <;> rfl
  | some a =>
    cases b with
    | none => rfl
    | some b => exact typesAgree_swap sides ask a b

theorem allPairsM_swap {α β : Type} {test : α → β → Id Bool} {test' : β → α → Id Bool}
    (htest : ∀ a b, test' b a = test a b) (as : List α) (bs : List β) :
    allPairsM test' bs as = allPairsM test as bs := by
  induction as generalizing bs with
  | nil => cases bs <;> rfl
  | cons a as ih =>
    cases bs with
    | nil => rfl
    | cons b bs => simp only [allPairsM, htest, ih]

theorem typeParametersAgree_swap (as bs : List (TypeParameter ClassifierRef)) :
    typeParametersAgree (m := Id) sides.swap (fun y x => ask x y) bs as =
      typeParametersAgree (m := Id) sides ask as bs := by
  have hsingle (a b : TypeParameter ClassifierRef) :
      typeParameterAgrees (m := Id) sides.swap (fun y x => ask x y) b a =
        typeParameterAgrees (m := Id) sides ask a b := by
    simp only [typeParameterAgrees, BEq.comm (a := b.variance),
      BEq.comm (a := b.upperBounds.length),
      allPairsM_swap (typesAgree_swap sides ask) a.upperBounds b.upperBounds]
  simp only [typeParametersAgree, BEq.comm (a := bs.length), allPairsM_swap hsingle as bs]

theorem constructorsAgree_swap (a b : Constructor ClassifierRef) :
    constructorsAgree (m := Id) sides.swap (fun y x => ask x y) b a =
      constructorsAgree (m := Id) sides ask a b := by
  have htest (p q : ConstructorParameter ClassifierRef) :
      (if q.isVararg == p.isVararg then
        typesAgree (m := Id) sides.swap (fun y x => ask x y) q.type p.type
      else return false : Id Bool) =
        if p.isVararg == q.isVararg then typesAgree (m := Id) sides ask p.type q.type
        else return false := by
    rw [BEq.comm (a := q.isVararg), typesAgree_swap]
  simp only [constructorsAgree, BEq.comm (a := b.visibility), BEq.comm (a := b.parameters.length),
    allPairsM_swap htest a.parameters b.parameters]

theorem containersAgree_swap (a b : DeclId) :
    containersAgree (m := Id) sides.swap (fun y x => ask x y) b a =
      containersAgree (m := Id) sides ask a b := by
  simp only [containersAgree, Sides.swap_first, Sides.swap_second]
  cases sides.first.enclosingClass? a <;> cases sides.second.enclosingClass? b <;> rfl

end Types

section Failures

variable (sides : Sides) (ask : DeclId → DeclId → Id Bool)

theorem aliasFailures_swap (infoA infoB : AliasInfo ClassifierRef) {failed failed' : Mismatch}
    (hfailed : failed'.isEmpty = failed.isEmpty) :
    (aliasFailures sides.swap infoB infoA failed').isEmpty =
      (aliasFailures sides infoA infoB failed).isEmpty := by
  simp only [aliasFailures, Sides.swap_first, Sides.swap_second]
  cases sides.first.aliasedClass infoA.underlying with
  | error construct =>
    cases sides.second.aliasedClass infoB.underlying <;>
      simp only [aliasedClassFailures, Mismatch.isEmpty_push]
  | ok target =>
    cases sides.second.aliasedClass infoB.underlying with
    | error construct => simp only [aliasedClassFailures, Mismatch.isEmpty_push]
    | ok target' =>
      simp only [aliasedClassFailures, Mismatch.isEmpty_require, hfailed,
        BEq.comm (a := target'.classKind), BEq.comm (a := target'.modality),
        BEq.comm (a := target'.visibility), Bool.or_comm target'.isInline,
        Bool.and_comm infoB.typeParameters.isEmpty]

theorem classFailures_swap (a b : DeclId) (infoA infoB : ClassInfo ClassifierRef)
    {failed failed' : Mismatch} (hfailed : failed'.isEmpty = failed.isEmpty) :
    (classFailures (m := Id) sides.swap (fun y x => ask x y) b a infoB infoA failed').run.isEmpty =
      (classFailures (m := Id) sides ask a b infoA infoB failed).run.isEmpty := by
  simp only [classFailures, Id.run_bind, Id.run_pure, Mismatch.isEmpty_require, hfailed,
    typeParametersAgree_swap, containersAgree_swap, BEq.comm (a := infoB.classKind)]

/-- The rules on two classifiers hold the other way round if they hold. -/
theorem classifierFailures_swap (a b : DeclId) :
    (classifierFailures (m := Id) sides.swap (fun y x => ask x y) b a).run.isEmpty =
      (classifierFailures (m := Id) sides ask a b).run.isEmpty := by
  simp only [classifierFailures, Sides.swap_first, Sides.swap_second]
  have hkinds : ((sides.second.declaration b).data.kind != (sides.first.declaration a).data.kind) =
      ((sides.first.declaration a).data.kind != (sides.second.declaration b).data.kind) := bne_comm
  have hnames : (Mismatch.none.require ((sides.second.declaration b).data.qualifiedName ==
        (sides.first.declaration a).data.qualifiedName) .names).isEmpty =
      (Mismatch.none.require ((sides.first.declaration a).data.qualifiedName ==
        (sides.second.declaration b).data.qualifiedName) .names).isEmpty := by
    rw [BEq.comm]
  simp only [hkinds, Bool.or_comm (sides.second.declaration b).data.visibility.isPrivate]
  split
  · rfl
  split
  · rfl
  cases (sides.first.declaration a).data.payload with
  | classType infoA =>
    cases (sides.second.declaration b).data.payload with
    | classType infoB => exact classFailures_swap sides ask a b infoA infoB hnames
    | _ => exact hnames
  | typeAlias infoA =>
    cases (sides.second.declaration b).data.payload with
    | typeAlias infoB => exact aliasFailures_swap sides infoA infoB hnames
    | _ => exact hnames
  | _ => cases (sides.second.declaration b).data.payload <;> exact hnames

end Failures

namespace Sides

variable (sides : Sides)

theorem rulesHold_swap {R : DeclId → DeclId → Prop} {a b : DeclId} :
    sides.swap.RulesHold (fun y x => R x y) b a ↔ sides.RulesHold R a b := by
  classical
  have hsame := classifierFailures_swap sides (fun x y => decide (R x y)) a b
  simp only [RulesHold, hsame]

private theorem Shareable.swap {sides : Sides} {a b : DeclId} (hshare : sides.Shareable a b) :
    sides.swap.Shareable b a := by
  obtain ⟨R, hclosed, hab⟩ := hshare
  exact ⟨fun y x => R x y, fun y x hxy => sides.rulesHold_swap.mpr (hclosed x y hxy), hab⟩

/-- Classifiers can be shared the other way round if they can be shared. -/
theorem shareable_swap (a b : DeclId) : sides.swap.Shareable b a ↔ sides.Shareable a b :=
  ⟨fun hshare => hshare.swap, fun hshare => hshare.swap⟩

end Sides

section Declarations

variable (sides : Sides) (ask : DeclId → DeclId → Id Bool)

theorem valueFailures_swap (a b : DeclId) :
    (valueFailures (m := Id) sides.swap (fun y x => ask x y) b a).run.isEmpty =
      (valueFailures (m := Id) sides ask a b).run.isEmpty := by
  simp only [valueFailures, Sides.swap_first, Sides.swap_second]
  cases (sides.first.declaration a).data.payload with
  | value infoA =>
    cases (sides.second.declaration b).data.payload with
    | value infoB =>
      simp only [Id.run_bind, Id.run_pure, Mismatch.isEmpty_require, typesAgree_swap,
        BEq.comm (a := infoB.isVararg)]
    | _ => rfl
  | _ => cases (sides.second.declaration b).data.payload <;> rfl

theorem parameterFailures_swap (place : Nat) (as bs : List DeclId) {failed failed' : Mismatch}
    (hfailed : failed'.isEmpty = failed.isEmpty) :
    (parameterFailures (m := Id) sides.swap (fun y x => ask x y) place bs as failed').run.isEmpty =
      (parameterFailures (m := Id) sides ask place as bs failed).run.isEmpty := by
  induction as generalizing place bs failed failed' with
  | nil => cases bs <;> exact hfailed
  | cons a as ih =>
    cases bs with
    | nil => exact hfailed
    | cons b bs =>
      simp only [parameterFailures, Id.run_bind]
      refine ih _ _ ?_
      rw [Mismatch.isEmpty_require, Mismatch.isEmpty_require, hfailed, valueFailures_swap]

theorem functionFailures_swap (a b : DeclId) (dataA dataB : Data)
    (infoA infoB : FunctionInfo ClassifierRef) :
    (functionFailures (m := Id) sides.swap (fun y x => ask x y) b a dataB dataA infoB
        infoA).run.isEmpty =
      (functionFailures (m := Id) sides ask a b dataA dataB infoA infoB).run.isEmpty := by
  simp only [functionFailures, Sides.swap_first, Sides.swap_second, Sides.swap_options,
    Id.run_bind, typesAgree_swap, optionalTypesAgree_swap, typeParametersAgree_swap,
    BEq.comm (a := (sides.second.children b).length)]
  split
  · refine parameterFailures_swap sides ask 0 _ _ ?_
    simp only [Mismatch.isEmpty_require, BEq.comm (a := dataB.qualifiedName),
      BEq.comm (a := dataB.visibility), BEq.comm (a := infoB.isSuspend),
      Bool.and_comm (!sides.options.isExcluded dataB.name)]
  · simp only [Id.run_pure, Mismatch.isEmpty_push]

theorem accessorsAgree_comm (a b : Option Accessor) : accessorsAgree b a = accessorsAgree a b := by
  cases a with
  | none => cases b <;> rfl
  | some a =>
    cases b with
    | none => rfl
    | some b =>
      simp only [accessorsAgree, BEq.comm (a := b.modality), BEq.comm (a := b.visibility),
        BEq.comm (a := b.isInline)]

theorem propertyFailures_swap (dataA dataB : Data) (infoA infoB : PropertyInfo ClassifierRef) :
    (propertyFailures (m := Id) sides.swap (fun y x => ask x y) dataB dataA infoB
        infoA).run.isEmpty =
      (propertyFailures (m := Id) sides ask dataA dataB infoA infoB).run.isEmpty := by
  simp only [propertyFailures, Id.run_bind, Id.run_pure, Mismatch.isEmpty_require, typesAgree_swap,
    optionalTypesAgree_swap, typeParametersAgree_swap, accessorsAgree_comm infoB.getter,
    accessorsAgree_comm infoB.setter, BEq.comm (a := dataB.qualifiedName),
    BEq.comm (a := dataB.visibility), BEq.comm (a := infoB.isVar),
    Bool.and_comm (!infoB.isConst), Bool.and_comm (!infoB.isLateinit)]

end Declarations

namespace Sides

variable (sides : Sides)

theorem oracle_verdict_swap (a b : DeclId) :
    sides.swap.oracle.verdict b a = sides.oracle.verdict a b := by
  classical
  exact ite_congr (propext (sides.shareable_swap a b)) (fun _ => rfl) fun _ => rfl

theorem oracle_shareable_swap :
    sides.swap.oracle.shareable = fun y x => sides.oracle.shareable x y := by
  funext y x
  simp only [Services.shareable, oracle_verdict_swap]

/-- Two declarations fail a rule the other way round if they fail one. -/
theorem oracle_failuresOf_swap (a b : DeclId) :
    (sides.swap.oracle.failuresOf sides.swap b a).run.isEmpty =
      (sides.oracle.failuresOf sides a b).run.isEmpty := by
  simp only [Services.failuresOf, swap_first, swap_second, oracle_shareable_swap]
  have hkinds : ((sides.second.declaration b).data.kind != (sides.first.declaration a).data.kind) =
      ((sides.first.declaration a).data.kind != (sides.second.declaration b).data.kind) := bne_comm
  simp only [hkinds, Bool.or_comm (sides.second.declaration b).data.visibility.isPrivate,
    Bool.or_comm (sides.second.isConcreteInterfaceMember b)]
  split
  · rfl
  next hsame =>
  split
  · rfl
  split
  · rfl
  have hkind : (sides.first.declaration a).data.kind = (sides.second.declaration b).data.kind := by
    simpa using hsame
  simp only [Data.kind] at hkind
  cases hpayloadA : (sides.first.declaration a).data.payload <;>
    cases hpayloadB : (sides.second.declaration b).data.payload <;>
    rw [hpayloadA, hpayloadB] at hkind <;> cases hkind
  · exact congrArg (Mismatch.isEmpty <| Mismatch.none.require · .names) BEq.comm
  · exact congrArg (Mismatch.isEmpty <| Mismatch.none.require · .names) BEq.comm
  · exact congrArg Mismatch.isEmpty (sides.oracle_verdict_swap a b)
  · exact functionFailures_swap sides _ a b _ _ _ _
  · exact propertyFailures_swap sides _ _ _ _ _
  · exact congrArg Mismatch.isEmpty (sides.oracle_verdict_swap a b)
  · exact valueFailures_swap sides _ a b

end Sides

/-- Whether a comparison found a match. -/
def Comparison.isMatched : Comparison → Bool
  | matched _ _ _ => true
  | mismatched _ => false

theorem Comparison.Alike.isMatched {comparison other : Comparison}
    (halike : comparison.Alike other) : comparison.isMatched = other.isMatched := by
  cases halike with
  | matched first common second => rfl
  | mismatched mismatch other => rfl

namespace Sides

variable (sides : Sides)

private theorem isMatched_payloads (a b : DeclId) (ask : DeclId → DeclId → Id Bool) :
    (matchedPayloads (m := Id) sides ask a b).run.isMatched = true := by
  simp only [matchedPayloads]
  split <;> rfl

/-- The oracle matches two declarations that are one, or that fail no rule. -/
theorem isMatched_oracle (a b : DeclId) : (sides.oracle.compare sides a b).run.isMatched =
    (sides.same && a == b || (sides.oracle.failuresOf sides a b).run.isEmpty) := by
  simp only [Services.compare]
  split
  · next hsame => rw [isMatched_payloads, hsame, Bool.true_or]
  · next hother =>
    rw [Bool.eq_false_iff.mpr hother, Bool.false_or]
    show (if (((sides.oracle.failuresOf sides a b).run.require true .recursionLimit).isEmpty) then
        matchedPayloads sides sides.oracle.shareable a b
      else return .mismatched _ : Id Comparison).run.isMatched = _
    rw [Mismatch.isEmpty_require, Bool.and_true]
    split
    · next hempty => rw [isMatched_payloads, hempty]
    · next hfailed => rw [Bool.eq_false_iff.mpr hfailed]; rfl

/-- Two declarations match the other way round if they match. -/
theorem isMatched_swap (a b : DeclId) : (sides.swap.oracle.compare sides.swap b a).run.isMatched =
    (sides.oracle.compare sides a b).run.isMatched := by
  rw [isMatched_oracle, isMatched_oracle, oracle_failuresOf_swap, swap_same, BEq.comm]

end Sides

end Concord
