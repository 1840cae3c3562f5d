import Concord.Comparison.Session
import Concord.Proofs.Comparison.Questions

namespace Concord

variable (sides : Sides)

/-- Whether two references agree, neither of which is a type parameter. -/
private def namedRefsAgree {m : Type → Type} [Monad m] (answer : DeclId → DeclId → m Bool)
    (a b : ClassifierRef) : m Bool :=
  if (sides.first.nameOf? a).any sides.options.isBuiltin ||
      (sides.second.nameOf? b).any sides.options.isBuiltin then
    return (sides.first.nameOf? a).isSome && sides.first.nameOf? a == sides.second.nameOf? b
  else match sides.first.resolve? a, sides.second.resolve? b with
    | some x, some y => answer x y
    | some _, none | none, some _ => return false
    | none, none => return (sides.first.nameOf? a).isSome &&
        sides.first.nameOf? a == sides.second.nameOf? b

private theorem namedRefsAgree_isQuestions (a b : ClassifierRef) :
    IsQuestions fun answer => namedRefsAgree sides answer a b := by
  simp only [namedRefsAgree]
  split
  · exact .done _
  · cases sides.first.resolve? a with
    | none =>
      cases sides.second.resolve? b with
      | none => exact .done _
      | some y => exact .done false
    | some x =>
      cases sides.second.resolve? b with
      | none => exact .done false
      | some y => exact .single x y

theorem refsAgree_isQuestions (a b : ClassifierRef) :
    IsQuestions fun answer => refsAgree sides answer a b := by
  cases a with
  | typeParameter x =>
    cases b with
    | typeParameter y => exact .done (x == y)
    | resolved _ | symbolic _ | external _ => exact .done false
  | resolved _ | symbolic _ | external _ =>
    cases b with
    | typeParameter _ => exact .done false
    | resolved _ | symbolic _ | external _ => exact namedRefsAgree_isQuestions sides _ _

theorem headsAgree_isQuestions (a b : SimpleType ClassifierRef) :
    IsQuestions fun answer => headsAgree sides answer a b :=
  .guarded _ (refsAgree_isQuestions sides _ _)

mutual
theorem typesAgree_isQuestions : (a b : Ty ClassifierRef) →
    IsQuestions fun answer => typesAgree sides answer a b
  | .simple a, b => by
    simp only [typesAgree]
    cases sides.same && Ty.simple a == b with
    | true => exact .done true
    | false =>
      cases b with
      | simple b => exact simpleTypesAgree_isQuestions a b
      | flexible _ _ => exact .done false
  | .flexible lower upper, b => by
    simp only [typesAgree]
    cases sides.same && Ty.flexible lower upper == b with
    | true => exact .done true
    | false =>
      cases b with
      | simple _ => exact .done false
      | flexible lower' upper' =>
        exact .andThen (simpleTypesAgree_isQuestions lower lower')
          (simpleTypesAgree_isQuestions upper upper')
theorem simpleTypesAgree_isQuestions : (a b : SimpleType ClassifierRef) →
    IsQuestions fun answer => simpleTypesAgree sides answer a b
  | ⟨classifier, arguments, nullable, notNull, none⟩, b => by
    simp only [simpleTypesAgree]
    exact .andThen (headsAgree_isQuestions sides _ b)
      (argumentsAgree_isQuestions arguments b.comparedArguments)
  | ⟨classifier, _, nullable, notNull, some ⟨_, arguments, _, _, _⟩⟩, b => by
    simp only [simpleTypesAgree]
    exact .andThen (headsAgree_isQuestions sides _ b)
      (argumentsAgree_isQuestions arguments b.comparedArguments)
theorem argumentsAgree_isQuestions : (as bs : List (TypeArgument ClassifierRef)) →
    IsQuestions fun answer => argumentsAgree sides answer as bs
  | [], bs => by
    simp only [argumentsAgree]
    exact .done true
  | .star :: as, [] => by
    simp only [argumentsAgree]
    exact .done true
  | .projection _ _ :: as, [] => by
    simp only [argumentsAgree]
    exact .done true
  | .star :: as, .star :: bs => by
    simp only [argumentsAgree]
    exact argumentsAgree_isQuestions as bs
  | .projection variance a :: as, .projection variance' b :: bs => by
    simp only [argumentsAgree]
    exact .guarded _ (.andThen (typesAgree_isQuestions a b) (argumentsAgree_isQuestions as bs))
  | .star :: as, .projection _ _ :: bs => by
    simp only [argumentsAgree]
    exact .done false
  | .projection _ _ :: as, .star :: bs => by
    simp only [argumentsAgree]
    exact .done false
end

theorem optionalTypesAgree_isQuestions (a b : Option (Ty ClassifierRef)) :
    IsQuestions fun answer => optionalTypesAgree sides answer a b := by
  cases a with
  | none =>
    cases b with
    | none => exact .done true
    | some _ => exact .done false
  | some a =>
    cases b with
    | none => exact .done false
    | some b => exact typesAgree_isQuestions sides a b

theorem typeParametersAgree_isQuestions (as bs : List (TypeParameter ClassifierRef)) :
    IsQuestions fun answer => typeParametersAgree sides answer as bs :=
  .guarded _ (.allPairs (fun _ _ => .guarded _ (.allPairs (typesAgree_isQuestions sides) _ _)) as bs)

theorem constructorsAgree_isQuestions (a b : Constructor ClassifierRef) :
    IsQuestions fun answer => constructorsAgree sides answer a b :=
  .guarded _ (.allPairs (fun _ _ => .guarded _ (typesAgree_isQuestions sides _ _)) _ _)

theorem containersAgree_isQuestions (a b : DeclId) :
    IsQuestions fun answer => containersAgree sides answer a b := by
  simp only [containersAgree]
  cases sides.first.enclosingClass? a with
  | none =>
    cases sides.second.enclosingClass? b with
    | none => exact .done true
    | some _ => exact .done false
  | some _ =>
    cases sides.second.enclosingClass? b with
    | none => exact .done false
    | some _ => exact .single _ _

@[simp] theorem Mismatch.isEmpty_require (mismatch : Mismatch) (holds : Bool) (cause : Cause) :
    (mismatch.require holds cause).isEmpty = (mismatch.isEmpty && holds) := by
  obtain ⟨causes⟩ := mismatch
  cases holds with
  | true => simp [require]
  | false =>
    cases causes with
    | nil => simp [require, push, isEmpty]
    | cons first rest =>
      by_cases hmem : cause ∈ first :: rest <;> simp [require, push, isEmpty, hmem]

@[simp] theorem Mismatch.isEmpty_push (mismatch : Mismatch) (cause : Cause) :
    (mismatch.push cause).isEmpty = false := by
  have hrequire := mismatch.isEmpty_require false cause
  rw [Bool.and_false] at hrequire
  exact hrequire

/-- The rules on two classifiers as questions: what fails whatever is answered, the questions on
type parameters, and those on containers. -/
structure RuleQuestions where
  failed : Mismatch
  parameters : Questions
  containers : Questions

namespace RuleQuestions

/-- Asks both lists of questions, the second one whatever the first says. -/
def ask {m : Type → Type} [Monad m] (rules : RuleQuestions) (answer : DeclId → DeclId → m Bool) :
    m Mismatch := do
  let parameters ← rules.parameters.ask answer
  let containers ← rules.containers.ask answer
  return (rules.failed.require parameters .typeParameters).require containers .containers

/-- The rules hold of a relation if nothing fails and both lists of questions say yes. -/
def Hold (rules : RuleQuestions) (R : DeclId → DeclId → Prop) : Prop :=
  rules.failed.isEmpty = true ∧ rules.parameters.Hold R ∧ rules.containers.Hold R

theorem Hold.mono {rules : RuleQuestions} {R S : DeclId → DeclId → Prop}
    (himp : ∀ x y, R x y → S x y) (hhold : rules.Hold R) : rules.Hold S :=
  ⟨hhold.1, hhold.2.1.mono himp, hhold.2.2.mono himp⟩

end RuleQuestions

/-- Rules in any monad, given the answers to their questions. -/
abbrev Rules := ∀ {m : Type → Type} [Monad m], (DeclId → DeclId → m Bool) → m Mismatch

/-- Rules that ask two lists of questions. -/
def IsRuleQuestions (rules : Rules) : Prop :=
  ∃ questions : RuleQuestions, ∀ {m : Type → Type} [Monad m] [LawfulMonad m]
    (answer : DeclId → DeclId → m Bool), rules answer = questions.ask answer

namespace IsRuleQuestions

/-- Rules that ask nothing. -/
theorem silent (failed : Mismatch) : IsRuleQuestions fun _ => return failed := by
  refine ⟨⟨failed, ⟨[], true⟩, ⟨[], true⟩⟩, ?_⟩
  intro m _ _ answer
  simp [RuleQuestions.ask, Questions.ask, Questions.askAll, Mismatch.require]

theorem classes (a b : DeclId) (infoA infoB : ClassInfo ClassifierRef) (failed : Mismatch) :
    IsRuleQuestions fun answer => classFailures sides answer a b infoA infoB failed := by
  obtain ⟨parameters, hparameters⟩ :=
    typeParametersAgree_isQuestions sides infoA.typeParameters infoB.typeParameters
  obtain ⟨containers, hcontainers⟩ := containersAgree_isQuestions sides a b
  refine ⟨⟨failed.require (infoA.classKind == infoB.classKind) .classKinds, parameters,
    containers⟩, ?_⟩
  intro m _ _ answer
  simp only [classFailures, hparameters answer, hcontainers answer, RuleQuestions.ask]

end IsRuleQuestions

/-- What the rules on two classifiers ask depends on the trees and the pair alone. -/
theorem classifierFailures_isRuleQuestions (a b : DeclId) :
    IsRuleQuestions fun answer => classifierFailures sides answer a b := by
  simp only [classifierFailures]
  cases (sides.first.declaration a).data.kind != (sides.second.declaration b).data.kind with
  | true => exact .silent _
  | false =>
    cases (sides.first.declaration a).data.visibility.isPrivate ||
        (sides.second.declaration b).data.visibility.isPrivate with
    | true => exact .silent _
    | false =>
      cases (sides.first.declaration a).data.payload with
      | classType infoA =>
        cases (sides.second.declaration b).data.payload with
        | classType infoB => exact .classes sides a b infoA infoB _
        | _ => exact .silent _
      | typeAlias infoA =>
        cases (sides.second.declaration b).data.payload with
        | typeAlias infoB => exact .silent _
        | _ => exact .silent _
      | _ => exact .silent _

namespace Sides

open Classical in
/-- Whether a pair keeps all rules on classifiers when a relation answers their questions. -/
def RulesHold (R : DeclId → DeclId → Prop) (a b : DeclId) : Prop :=
  (classifierFailures (m := Id) sides (fun x y => decide (R x y)) a b).run.isEmpty = true

/-- Some relation whose pairs all keep the rules, questions answered by the relation, has the pair.
This does not mention caches, guards or the order of comparisons. -/
def Shareable (a b : DeclId) : Prop :=
  ∃ R : DeclId → DeclId → Prop, (∀ x y, R x y → sides.RulesHold R x y) ∧ R a b

/-- Shareability in which the assumed pairs need not keep the rules. -/
def ShareableGiven (assumed : List Pair) (a b : DeclId) : Prop :=
  ∃ R : DeclId → DeclId → Prop,
    (∀ x y, R x y → (x, y) ∈ assumed ∨ sides.RulesHold R x y) ∧ R a b

theorem rulesHold_iff {a b : DeclId} {rules : RuleQuestions}
    (hrules : ∀ {m : Type → Type} [Monad m] [LawfulMonad m] (answer : DeclId → DeclId → m Bool),
      classifierFailures sides answer a b = rules.ask answer) (R : DeclId → DeclId → Prop) :
    sides.RulesHold R a b ↔ rules.Hold R := by
  classical
  have hparameters := rules.parameters.ask_relation R
  have hcontainers := rules.containers.ask_relation R
  simp only [RulesHold, hrules, RuleQuestions.ask, RuleQuestions.Hold, Id.run_bind, Id.run_pure,
    Mismatch.isEmpty_require, Bool.and_eq_true, and_assoc]
  exact and_congr_right fun _ => and_congr hparameters hcontainers

/-- More answers yes never make a rule fail. -/
theorem RulesHold.mono {sides : Sides} {R S : DeclId → DeclId → Prop} {a b : DeclId}
    (himp : ∀ x y, R x y → S x y) (hhold : sides.RulesHold R a b) : sides.RulesHold S a b := by
  obtain ⟨rules, hrules⟩ := classifierFailures_isRuleQuestions sides a b
  rw [sides.rulesHold_iff hrules] at hhold ⊢
  exact hhold.mono himp

theorem shareableGiven_nil {a b : DeclId} : sides.ShareableGiven [] a b ↔ sides.Shareable a b := by
  simp [ShareableGiven, Shareable]

/-- A pair that is shareable given some assumptions is assumed, or keeps the rules when
shareability under the same assumptions answers their questions. -/
theorem ShareableGiven.unfold {sides : Sides} {assumed : List Pair} {a b : DeclId}
    (hshare : sides.ShareableGiven assumed a b) :
    (a, b) ∈ assumed ∨ sides.RulesHold (sides.ShareableGiven assumed) a b := by
  obtain ⟨R, hclosed, hab⟩ := hshare
  refine (hclosed a b hab).imp_right fun hrules => ?_
  exact hrules.mono fun x y hxy => ⟨R, hclosed, hxy⟩

/-- Shareability is the greatest relation that keeps the rules. -/
theorem shareable_iff_rulesHold (a b : DeclId) :
    sides.Shareable a b ↔ sides.RulesHold sides.Shareable a b := by
  have hclosed (x y : DeclId) (hshare : sides.Shareable x y) :
      sides.RulesHold sides.Shareable x y := by
    obtain ⟨R, hclosed, hxy⟩ := hshare
    exact (hclosed x y hxy).mono fun u v huv => ⟨R, hclosed, huv⟩
  refine ⟨hclosed a b, fun hrules => ?_⟩
  refine ⟨sides.RulesHold sides.Shareable, fun x y hxy => hxy.mono hclosed, hrules⟩

theorem shareableGiven_of_mem {assumed : List Pair} {a b : DeclId} (hmem : (a, b) ∈ assumed) :
    sides.ShareableGiven assumed a b :=
  ⟨fun x y => (x, y) ∈ assumed, fun _ _ hxy => Or.inl hxy, hmem⟩

theorem Shareable.given {sides : Sides} {a b : DeclId} (hshare : sides.Shareable a b)
    (assumed : List Pair) : sides.ShareableGiven assumed a b := by
  obtain ⟨R, hclosed, hab⟩ := hshare
  exact ⟨R, fun x y hxy => Or.inr (hclosed x y hxy), hab⟩

/-- A pair may be assumed while its own rules are checked. -/
theorem shareableGiven_of_rulesHold {assumed : List Pair} {a b : DeclId}
    (hrules : sides.RulesHold (sides.ShareableGiven ((a, b) :: assumed)) a b) :
    sides.ShareableGiven assumed a b := by
  have hself : sides.ShareableGiven ((a, b) :: assumed) a b :=
    sides.shareableGiven_of_mem (List.mem_cons_self ..)
  refine ⟨sides.ShareableGiven ((a, b) :: assumed), fun x y hxy => ?_, hself⟩
  obtain hassumed | hkeeps := hxy.unfold
  · obtain heq | htail := List.mem_cons.mp hassumed
    · cases heq
      exact Or.inr hrules
    · exact Or.inl htail
  · exact Or.inr hkeeps

end Sides

end Concord
