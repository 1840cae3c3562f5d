import Concord.Proofs.Comparison.Agreement

namespace Concord

namespace Sides

variable {sides : Sides} {R : DeclId → DeclId → Prop}

/-- What the references of the arguments say, the reference in front of them says too. -/
private theorem simple_compared {a b : SimpleType ClassifierRef} (hheads : sides.HeadsAgree R a b)
    (harguments : argumentShapes (comparedForms a.comparedArguments) =
        argumentShapes (comparedForms b.comparedArguments) ∧
      List.Forall₂ (sides.RefsAlike R) (argumentRefs (comparedForms a.comparedArguments))
        (argumentRefs (comparedForms b.comparedArguments))) :
    a.compared.shape = b.compared.shape ∧
      List.Forall₂ (sides.RefsAlike R) a.compared.refs b.compared.refs := by
  obtain ⟨hshape, hrefs⟩ := harguments
  have hshape : mapArguments (fun _ => ()) (comparedForms a.comparedArguments) =
      mapArguments (fun _ => ()) (comparedForms b.comparedArguments) := hshape
  rw [SimpleType.compared_eq a, SimpleType.compared_eq b, SimpleType.refs, SimpleType.refs,
    abbreviationRefs, List.append_nil, List.append_nil]
  refine ⟨?_, .cons (.inr hheads.refs) hrefs⟩
  rw [SimpleType.shape, SimpleType.shape, SimpleType.map_mk, SimpleType.map_mk, hshape,
    hheads.nullables, hheads.notNulls]

/-- In a single tree, what is the same is alike. -/
private theorem same_compared (hsame : sides.same = true) (references : List ClassifierRef) :
    List.Forall₂ (sides.RefsAlike R) references references :=
  List.forall₂_same.mpr fun _ _ => .inl ⟨hsame, rfl⟩

mutual
private theorem types_compared : ∀ a b : Ty ClassifierRef, sides.TypesAgree R a b →
    a.compared.shape = b.compared.shape ∧
      List.Forall₂ (sides.RefsAlike R) a.compared.refs b.compared.refs
  | .simple a, _, hagree => by
    obtain ⟨hsame, rfl⟩ | ⟨b, rfl, hsimple⟩ := typesAgree_simple.mp hagree
    · exact ⟨rfl, same_compared hsame _⟩
    · obtain ⟨hshape, hrefs⟩ := simpleTypes_compared a b hsimple
      exact ⟨congrArg Ty.simple hshape, hrefs⟩
  | .flexible a a', _, hagree => by
    obtain ⟨hsame, rfl⟩ | ⟨b, b', rfl, hlower, hupper⟩ := typesAgree_flexible.mp hagree
    · exact ⟨rfl, same_compared hsame _⟩
    · obtain ⟨hshape, hrefs⟩ := simpleTypes_compared a b hlower
      obtain ⟨hshape', hrefs'⟩ := simpleTypes_compared a' b' hupper
      exact ⟨congrArg₂ Ty.flexible hshape hshape', List.rel_append hrefs hrefs'⟩
private theorem simpleTypes_compared : ∀ a b : SimpleType ClassifierRef,
    sides.SimpleTypesAgree R a b → a.compared.shape = b.compared.shape ∧
      List.Forall₂ (sides.RefsAlike R) a.compared.refs b.compared.refs
  | ⟨_, arguments, _, _, none⟩, _, hagree => by
    obtain ⟨hheads, hagree⟩ := simpleTypesAgree_iff.mp hagree
    exact simple_compared hheads (arguments_compared arguments _ hheads.lengths hagree)
  | ⟨_, _, _, _, some ⟨_, arguments, _, _, _⟩⟩, _, hagree => by
    obtain ⟨hheads, hagree⟩ := simpleTypesAgree_iff.mp hagree
    exact simple_compared hheads (arguments_compared arguments _ hheads.lengths hagree)
private theorem arguments_compared : ∀ as bs : List (TypeArgument ClassifierRef),
    as.length = bs.length → sides.ArgumentsAgree R as bs →
      argumentShapes (comparedForms as) = argumentShapes (comparedForms bs) ∧
        List.Forall₂ (sides.RefsAlike R) (argumentRefs (comparedForms as))
          (argumentRefs (comparedForms bs))
  | [], [], _, _ => ⟨rfl, .nil⟩
  | .star :: as, .star :: bs, hlength, hagree => by
    obtain ⟨hshapes, hrefs⟩ :=
      arguments_compared as bs (Nat.succ.inj hlength) (argumentsAgree_star.mp hagree)
    exact ⟨congrArg (TypeArgument.star :: ·) hshapes, hrefs⟩
  | .projection variance a :: as, .projection variance' b :: bs, hlength, hagree => by
    obtain ⟨rfl, hone, hothers⟩ := argumentsAgree_projection.mp hagree
    obtain ⟨hshape, hrefs⟩ := types_compared a b hone
    obtain ⟨hshapes, hrefs'⟩ := arguments_compared as bs (Nat.succ.inj hlength) hothers
    refine ⟨?_, List.rel_append hrefs hrefs'⟩
    exact congrArg₂ List.cons (congrArg (TypeArgument.projection variance) hshape) hshapes
  | .star :: _, .projection _ _ :: _, _, hagree =>
    absurd hagree not_argumentsAgree_star_projection
  | .projection _ _ :: _, .star :: _, _, hagree =>
    absurd hagree not_argumentsAgree_projection_star
end

/-- Types that are found to be equal are of one shape. -/
theorem TypesAgree.shape {a b : Ty ClassifierRef} (hagree : sides.TypesAgree R a b) :
    a.compared.shape = b.compared.shape :=
  (types_compared a b hagree).1

/-- Types that are found to be equal name what is alike. -/
theorem TypesAgree.refs {a b : Ty ClassifierRef} (hagree : sides.TypesAgree R a b) :
    List.Forall₂ (sides.RefsAlike R) a.compared.refs b.compared.refs :=
  (types_compared a b hagree).2

/-- The reference in front of the arguments agrees if all references do. -/
private theorem simple_agree {a b : SimpleType ClassifierRef}
    (hshape : a.compared.shape = b.compared.shape)
    (hrefs : List.Forall₂ (sides.RefsAgree R) a.compared.refs b.compared.refs)
    (harguments : argumentShapes (comparedForms a.comparedArguments) =
        argumentShapes (comparedForms b.comparedArguments) →
      List.Forall₂ (sides.RefsAgree R) (argumentRefs (comparedForms a.comparedArguments))
        (argumentRefs (comparedForms b.comparedArguments)) →
      sides.ArgumentsAgree R a.comparedArguments b.comparedArguments) :
    sides.SimpleTypesAgree R a b := by
  rw [SimpleType.compared_eq a, SimpleType.compared_eq b, SimpleType.refs, SimpleType.refs,
    List.forall₂_cons, abbreviationRefs, List.append_nil, List.append_nil] at hrefs
  rw [SimpleType.compared_eq a, SimpleType.compared_eq b] at hshape
  obtain ⟨-, hshape, hnullable, hnotNull, -⟩ := SimpleType.mk.inj hshape
  have hshape : argumentShapes (comparedForms a.comparedArguments) =
      argumentShapes (comparedForms b.comparedArguments) := hshape
  have hlength : a.comparedArguments.length = b.comparedArguments.length := by
    rw [← length_comparedForms, ← length_argumentShapes, hshape, length_argumentShapes,
      length_comparedForms]
  exact simpleTypesAgree_iff.mpr ⟨⟨hlength, hnullable, hnotNull, hrefs.1⟩,
    harguments hshape hrefs.2⟩

mutual
/-- Types of one shape whose references agree are found to be equal. -/
theorem typesAgree_of_shape : ∀ a b : Ty ClassifierRef, a.compared.shape = b.compared.shape →
    List.Forall₂ (sides.RefsAgree R) a.compared.refs b.compared.refs → sides.TypesAgree R a b
  | .simple a, .simple b, hshape, hrefs =>
    typesAgree_simple.mpr (.inr ⟨b, rfl, simpleTypesAgree_of_shape a b (Ty.simple.inj hshape) hrefs⟩)
  | .flexible a a', .flexible b b', hshape, hrefs => by
    obtain ⟨hshape, hshape'⟩ := Ty.flexible.inj hshape
    obtain ⟨hrefs, hrefs'⟩ := (forall₂_append_iff (SimpleType.length_refs_of_shape hshape)).mp hrefs
    exact typesAgree_flexible.mpr (.inr ⟨b, b', rfl, simpleTypesAgree_of_shape a b hshape hrefs,
      simpleTypesAgree_of_shape a' b' hshape' hrefs'⟩)
  | .simple _, .flexible _ _, hshape, _ => by cases hshape
  | .flexible _ _, .simple _, hshape, _ => by cases hshape
private theorem simpleTypesAgree_of_shape : ∀ a b : SimpleType ClassifierRef,
    a.compared.shape = b.compared.shape →
      List.Forall₂ (sides.RefsAgree R) a.compared.refs b.compared.refs →
        sides.SimpleTypesAgree R a b
  | ⟨_, arguments, _, _, none⟩, _, hshape, hrefs =>
    simple_agree hshape hrefs (argumentsAgree_of_shape arguments _)
  | ⟨_, _, _, _, some ⟨_, arguments, _, _, _⟩⟩, _, hshape, hrefs =>
    simple_agree hshape hrefs (argumentsAgree_of_shape arguments _)
private theorem argumentsAgree_of_shape : ∀ as bs : List (TypeArgument ClassifierRef),
    argumentShapes (comparedForms as) = argumentShapes (comparedForms bs) →
      List.Forall₂ (sides.RefsAgree R) (argumentRefs (comparedForms as))
        (argumentRefs (comparedForms bs)) → sides.ArgumentsAgree R as bs
  | [], _, _, _ => argumentsAgree_nil
  | .star :: as, .star :: bs, hshapes, hrefs =>
    argumentsAgree_star.mpr (argumentsAgree_of_shape as bs (List.cons.inj hshapes).2 hrefs)
  | .projection variance a :: as, .projection variance' b :: bs, hshapes, hrefs => by
    obtain ⟨hhead, hshapes⟩ := List.cons.inj hshapes
    obtain ⟨hvariance, hshape⟩ := TypeArgument.projection.inj hhead
    obtain ⟨hrefs, hothers⟩ := (forall₂_append_iff (Ty.length_refs_of_shape hshape)).mp hrefs
    exact argumentsAgree_projection.mpr ⟨hvariance, typesAgree_of_shape a b hshape hrefs,
      argumentsAgree_of_shape as bs hshapes hothers⟩
  | .star :: _, .projection _ _ :: _, hshapes, _ => by cases (List.cons.inj hshapes).1
  | .projection _ _ :: _, .star :: _, hshapes, _ => by cases (List.cons.inj hshapes).1
  | .star :: _, [], hshapes, _ => by cases hshapes
  | .projection _ _ :: _, [], hshapes, _ => by cases hshapes
end

end Sides

end Concord
