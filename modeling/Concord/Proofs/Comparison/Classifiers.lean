import Concord.Proofs.Comparison.Agreement
import Concord.Proofs.Comparison.Rules

namespace Concord

/-- Two classes that aliases stand for and that look the same from outside. -/
structure AliasedClass.Matches (a b : AliasedClass) : Prop where
  kinds : a.classKind = b.classKind
  modalities : a.modality = b.modality
  visibilities : a.visibility = b.visibility
  boxed : a.isInline = false ∧ b.isInline = false

namespace Sides

variable (sides : Sides) (R : DeclId → DeclId → Prop)

/-- Two declarations that are nested in related classes, or in no class. -/
inductive ContainersMatch (a b : DeclId) : Prop
  | free (hfirst : sides.first.enclosingClass? a = none)
    (hsecond : sides.second.enclosingClass? b = none)
  | nested {x y : DeclId} {infoX infoY : ClassInfo ClassifierRef}
    (hfirst : sides.first.enclosingClass? a = some (x, infoX))
    (hsecond : sides.second.enclosingClass? b = some (y, infoY)) (hrelated : R x y)

/-- Two classes that keep the rules on classes. -/
structure ClassesMatch (a b : DeclId) (infoA infoB : ClassInfo ClassifierRef) : Prop where
  kinds : infoA.classKind = infoB.classKind
  parameters : List.Forall₂ (sides.ParametersAgree R) infoA.typeParameters infoB.typeParameters
  containers : sides.ContainersMatch R a b

/-- Two aliases that keep the rules on aliases. -/
structure AliasesMatch (infoA infoB : AliasInfo ClassifierRef) : Prop where
  plain : infoA.typeParameters = [] ∧ infoB.typeParameters = []
  targets : ∃ a b, sides.first.aliasedClass infoA.underlying = .ok a ∧
    sides.second.aliasedClass infoB.underlying = .ok b ∧ a.Matches b

/-- What two classifiers of a kind have to say alike. -/
def ClassifiersAgree (a b : DeclId) : Prop :=
  match (sides.first.declaration a).payload, (sides.second.declaration b).payload with
  | .classType infoA, .classType infoB => sides.ClassesMatch R a b infoA infoB
  | .typeAlias infoA, .typeAlias infoB => sides.AliasesMatch infoA infoB
  | _, _ => True

/-- Two classifiers that keep the rules when a relation answers their questions. -/
structure ClassifiersMatch (a b : DeclId) : Prop where
  kinds : (sides.first.declaration a).kind = (sides.second.declaration b).kind
  visible : (sides.first.declaration a).data.visibility.isPrivate = false ∧
    (sides.second.declaration b).data.visibility.isPrivate = false
  names : (sides.first.declaration a).qualifiedName = (sides.second.declaration b).qualifiedName
  kind : sides.ClassifiersAgree R a b

variable {sides R} {a b : DeclId}

/-- Two declarations are both nested in a class, or none of them is. -/
theorem ContainersMatch.nested_alike (hmatch : sides.ContainersMatch R a b) :
    (sides.first.enclosingClass? a).isSome = (sides.second.enclosingClass? b).isSome := by
  cases hmatch with
  | free hfirst hsecond => rw [hfirst, hsecond]
  | nested hfirst hsecond _ =>
    rw [hfirst, hsecond]
    rfl

/-- The classes around two declarations are related. -/
theorem ContainersMatch.around (hmatch : sides.ContainersMatch R a b) {x y : DeclId}
    {infoX infoY : ClassInfo ClassifierRef}
    (hfirst : sides.first.enclosingClass? a = some (x, infoX))
    (hsecond : sides.second.enclosingClass? b = some (y, infoY)) : R x y := by
  cases hmatch with
  | free hfree _ => cases hfirst.symm.trans hfree
  | nested hnested hnested' hrelated =>
    cases hfirst.symm.trans hnested
    cases hsecond.symm.trans hnested'
    exact hrelated

theorem ClassifiersMatch.classes (hmatch : sides.ClassifiersMatch R a b)
    {infoA infoB : ClassInfo ClassifierRef}
    (hA : (sides.first.declaration a).payload = .classType infoA)
    (hB : (sides.second.declaration b).payload = .classType infoB) :
    sides.ClassesMatch R a b infoA infoB := by
  have hkind := hmatch.kind
  simp only [ClassifiersAgree, hA, hB] at hkind
  exact hkind

theorem ClassifiersMatch.aliases (hmatch : sides.ClassifiersMatch R a b)
    {infoA infoB : AliasInfo ClassifierRef}
    (hA : (sides.first.declaration a).payload = .typeAlias infoA)
    (hB : (sides.second.declaration b).payload = .typeAlias infoB) :
    sides.AliasesMatch infoA infoB := by
  have hkind := hmatch.kind
  simp only [ClassifiersAgree, hA, hB] at hkind
  exact hkind

open Classical in
private theorem containersAgree_iff :
    containersAgree (m := Id) sides (fun x y => decide (R x y)) a b = true ↔
      sides.ContainersMatch R a b := by
  rw [containersAgree]
  cases hfirst : sides.first.enclosingClass? a with
  | none =>
    cases hsecond : sides.second.enclosingClass? b with
    | none => exact iff_of_true rfl (.free hfirst hsecond)
    | some y =>
      refine iff_of_false Bool.false_ne_true fun hmatch => ?_
      have hnested := hmatch.nested_alike
      rw [hfirst, hsecond] at hnested
      cases hnested
  | some x =>
    cases hsecond : sides.second.enclosingClass? b with
    | none =>
      refine iff_of_false Bool.false_ne_true fun hmatch => ?_
      have hnested := hmatch.nested_alike
      rw [hfirst, hsecond] at hnested
      cases hnested
    | some y =>
      refine ⟨fun hyes => .nested hfirst hsecond (of_decide_eq_true hyes), fun hmatch => ?_⟩
      exact decide_eq_true (hmatch.around hfirst hsecond)

private theorem aliasFailures_iff {infoA infoB : AliasInfo ClassifierRef} {failed : Mismatch} :
    (aliasFailures sides infoA infoB failed).isEmpty = true ↔
      failed.isEmpty = true ∧ sides.AliasesMatch infoA infoB := by
  have hstructure : sides.AliasesMatch infoA infoB ↔
      (infoA.typeParameters = [] ∧ infoB.typeParameters = []) ∧
        ∃ a b, sides.first.aliasedClass infoA.underlying = .ok a ∧
          sides.second.aliasedClass infoB.underlying = .ok b ∧ a.Matches b :=
    ⟨fun h => ⟨h.plain, h.targets⟩, fun h => ⟨h.1, h.2⟩⟩
  rw [hstructure, aliasFailures]
  cases hfirst : sides.first.aliasedClass infoA.underlying with
  | error construct => simp [aliasedClassFailures]
  | ok targetA =>
    cases hsecond : sides.second.aliasedClass infoB.underlying with
    | error construct => simp [aliasedClassFailures]
    | ok targetB =>
      simp only [aliasedClassFailures, Mismatch.isEmpty_require, Bool.and_eq_true, beq_iff_eq,
        List.isEmpty_iff, Bool.not_eq_true', Bool.or_eq_false_iff, Except.ok.injEq]
      constructor
      · rintro ⟨⟨⟨hfailed, hplain⟩, ⟨hkinds, hmodalities⟩, hvisibilities⟩, hboxed⟩
        exact ⟨hfailed, hplain, targetA, targetB, rfl, rfl, hkinds, hmodalities, hvisibilities, hboxed⟩
      · rintro ⟨hfailed, hplain, _, _, rfl, rfl, hmatches⟩
        exact ⟨⟨⟨hfailed, hplain⟩, ⟨hmatches.kinds, hmatches.modalities⟩, hmatches.visibilities⟩,
          hmatches.boxed⟩

/-- Two classifiers keep the rules exactly when they say the same. -/
theorem rulesHold_iff_classifiersMatch :
    sides.RulesHold R a b ↔ sides.ClassifiersMatch R a b := by
  classical
  simp only [RulesHold, classifierFailures]
  split
  · next hkinds => exact iff_of_false Bool.false_ne_true fun hmatch => bne_iff_ne.mp hkinds hmatch.kinds
  split
  · next hprivate =>
    refine iff_of_false Bool.false_ne_true fun hmatch => ?_
    simp [hmatch.visible] at hprivate
  next hkinds hvisible =>
  have hmatch : sides.ClassifiersMatch R a b ↔
      (sides.first.declaration a).qualifiedName = (sides.second.declaration b).qualifiedName ∧
        sides.ClassifiersAgree R a b := by
    refine ⟨fun h => ⟨h.names, h.kind⟩, fun h => ⟨?_, ?_, h.1, h.2⟩⟩
    · simpa [Declaration.kind] using hkinds
    · simpa using hvisible
  rw [hmatch]
  split
  · next infoA infoB hA hB =>
    have hkind : sides.ClassifiersAgree R a b ↔ sides.ClassesMatch R a b infoA infoB := by
      simp only [ClassifiersAgree, Declaration.payload, hA, hB]
    have hparameters : (typeParametersAgree (m := Id) sides (fun x y => decide (R x y))
        infoA.typeParameters infoB.typeParameters).run = true ↔ _ := typeParametersAgree_iff
    have hcontainers : (containersAgree (m := Id) sides (fun x y => decide (R x y)) a b).run = true ↔
        sides.ContainersMatch R a b := containersAgree_iff
    simp only [hkind, classFailures, Id.run_bind, Id.run_pure, Mismatch.isEmpty_require,
      Bool.and_eq_true, beq_iff_eq, hparameters, hcontainers]
    constructor
    · rintro ⟨⟨⟨⟨-, hnames⟩, hkinds⟩, hparameters⟩, hcontainers⟩
      exact ⟨hnames, hkinds, hparameters, hcontainers⟩
    · rintro ⟨hnames, hkinds, hparameters, hcontainers⟩
      exact ⟨⟨⟨⟨rfl, hnames⟩, hkinds⟩, hparameters⟩, hcontainers⟩
  · next infoA infoB hA hB =>
    have hkind : sides.ClassifiersAgree R a b ↔ sides.AliasesMatch infoA infoB := by
      simp only [ClassifiersAgree, Declaration.payload, hA, hB]
    rw [Id.run_pure, aliasFailures_iff, Mismatch.isEmpty_require, Bool.and_eq_true, beq_iff_eq, hkind]
    exact and_congr_left fun _ => ⟨And.right, fun hnames => ⟨rfl, hnames⟩⟩
  · next hclasses haliases =>
    have hkind : sides.ClassifiersAgree R a b := by
      rw [ClassifiersAgree]
      split
      · next infoA infoB hA hB => exact absurd hB (hclasses infoA infoB hA)
      · next infoA infoB hA hB => exact absurd hB (haliases infoA infoB hA)
      · trivial
    rw [Id.run_pure, Mismatch.isEmpty_require, Bool.and_eq_true, beq_iff_eq]
    exact ⟨fun h => ⟨h.2, hkind⟩, fun h => ⟨rfl, h.1⟩⟩

end Sides

end Concord
