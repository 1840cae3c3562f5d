import Concord.Proofs.Comparison.Classifiers
import Concord.Proofs.Comparison.Matches
import Concord.Proofs.Comparison.Symmetry
import Concord.Proofs.Declaration.Payload

namespace Concord

namespace Sides

/-- Equal types are equal the other way round. -/
theorem TypesAgree.swap {sides : Sides} {R : DeclId → DeclId → Prop} {a b : Ty ClassifierRef}
    (hagree : sides.TypesAgree R a b) : sides.swap.TypesAgree (fun y x => R x y) b a := by
  classical
  rw [TypesAgree, typesAgree_swap sides (fun x y => decide (R x y))]
  exact hagree

theorem exists_ofTrees {sides : Sides} (hdistinct : sides.same = false) :
    ∃ first second options, sides = ofTrees first second options := by
  obtain ⟨first, second, same, options⟩ := sides
  cases hdistinct
  exact ⟨first, second, options, rfl⟩

theorem Consistent.exists_ofTree {sides : Sides} (hconsistent : sides.Consistent)
    (hsame : sides.same = true) : ∃ tree options, sides = ofTree tree options := by
  obtain ⟨first, second, same, options⟩ := sides
  cases hsame
  cases hconsistent rfl
  exact ⟨first, options, rfl⟩

/-- One tree that is compared with itself, where a relation leads back and onward. -/
structure IsSingle (sides : Sides) (R : DeclId → DeclId → Prop) : Prop where
  tree : ∃ tree options, sides = ofTree tree options
  back : ∀ a b, R a b → R b a
  onward : ∀ a b c, R a b → R b c → R a c

/-- A relation that equality of types leads on by: between two trees it may be any. -/
def Steady (sides : Sides) (R : DeclId → DeclId → Prop) : Prop :=
  sides.same = true → sides.IsSingle R

variable {tree : Tree} {options : CompiledOptions} {R : DeclId → DeclId → Prop}

section Types

theorem TypesAgree.refl (type : Ty ClassifierRef) : (ofTree tree options).TypesAgree R type type := by
  cases type with
  | simple type => exact typesAgree_simple.mpr (.inl ⟨rfl, rfl⟩)
  | flexible lower upper => exact typesAgree_flexible.mpr (.inl ⟨rfl, rfl⟩)

theorem TypesAgree.symm (hback : ∀ a b, R a b → R b a) {a b : Ty ClassifierRef}
    (hagree : (ofTree tree options).TypesAgree R a b) : (ofTree tree options).TypesAgree R b a :=
  hagree.swap.mono fun y x => hback x y

section Onward

variable (honward : ∀ a b c, R a b → R b c → R a c)
include honward

/-- References that agree are compared in one way all along. -/
theorem RefsAgree.trans {x y z : ClassifierRef} (hfirst : (ofTree tree options).RefsAgree R x y)
    (hsecond : (ofTree tree options).RefsAgree R y z) : (ofTree tree options).RefsAgree R x z := by
  have declared {name : QualifiedName} {id : DeclId} (hname : tree.nameOf? y = some name)
      (hbyName : options.isBuiltin name = true ∨ tree.resolve? y = none)
      (hresolve : tree.resolve? y = some id)
      (hdeclared : (tree.nameOf? y).any options.isBuiltin = false) : False := by
    rw [hname, Option.any_some] at hdeclared
    obtain hbuiltin | hnone := hbyName
    · rw [hbuiltin] at hdeclared
      cases hdeclared
    · cases hnone.symm.trans hresolve
  cases hfirst with
  | typeParameter name => exact hsecond
  | byName hx hy hname =>
    cases hsecond with
    | typeParameter _ => cases hy
    | byName hy' hz hname' =>
      obtain rfl := Option.some.inj (hy.symm.trans hy')
      refine .byName hx hz ?_
      obtain hbuiltin | ⟨hnone, -⟩ := hname
      · exact .inl hbuiltin
      · exact hname'.imp_right fun hnone' => ⟨hnone, hnone'.2⟩
    | shared hy' _ hdeclared' _ =>
      exact (declared hy (hname.imp_right And.right) hy' hdeclared'.1).elim
  | shared hx hy hdeclared hR =>
    cases hsecond with
    | typeParameter _ => cases hy
    | byName hy' _ hname' => exact (declared hy' (hname'.imp_right And.left) hy hdeclared.2).elim
    | shared hy' hz hdeclared' hR' =>
      obtain rfl := Option.some.inj (hy.symm.trans hy')
      exact .shared hx hz ⟨hdeclared.1, hdeclared'.2⟩ (honward _ _ _ hR hR')

private theorem heads_trans {a b c : SimpleType ClassifierRef}
    (hfirst : (ofTree tree options).HeadsAgree R a b)
    (hsecond : (ofTree tree options).HeadsAgree R b c) : (ofTree tree options).HeadsAgree R a c where
  lengths := hfirst.lengths.trans hsecond.lengths
  nullables := hfirst.nullables.trans hsecond.nullables
  notNulls := hfirst.notNulls.trans hsecond.notNulls
  refs := hfirst.refs.trans honward hsecond.refs

end Onward

mutual
private theorem types_trans (honward : ∀ a b c, R a b → R b c → R a c) :
    ∀ a b c : Ty ClassifierRef, (ofTree tree options).TypesAgree R a b →
      (ofTree tree options).TypesAgree R b c → (ofTree tree options).TypesAgree R a c
  | .simple a, _, _, hfirst, hsecond => by
    obtain ⟨-, rfl⟩ | ⟨b, rfl, hone⟩ := typesAgree_simple.mp hfirst
    · exact hsecond
    obtain ⟨-, rfl⟩ | ⟨c, rfl, hother⟩ := typesAgree_simple.mp hsecond
    · exact hfirst
    exact typesAgree_simple.mpr (.inr ⟨c, rfl, simpleTypes_trans honward a b c hone hother⟩)
  | .flexible a a', _, _, hfirst, hsecond => by
    obtain ⟨-, rfl⟩ | ⟨b, b', rfl, hlower, hupper⟩ := typesAgree_flexible.mp hfirst
    · exact hsecond
    obtain ⟨-, rfl⟩ | ⟨c, c', rfl, hlower', hupper'⟩ := typesAgree_flexible.mp hsecond
    · exact hfirst
    exact typesAgree_flexible.mpr (.inr ⟨c, c', rfl, simpleTypes_trans honward a b c hlower hlower',
      simpleTypes_trans honward a' b' c' hupper hupper'⟩)
private theorem simpleTypes_trans (honward : ∀ a b c, R a b → R b c → R a c) :
    ∀ a b c : SimpleType ClassifierRef, (ofTree tree options).SimpleTypesAgree R a b →
      (ofTree tree options).SimpleTypesAgree R b c → (ofTree tree options).SimpleTypesAgree R a c
  | ⟨_, arguments, _, _, none⟩, _, _, hfirst, hsecond => by
    obtain ⟨hheads, hfirst⟩ := simpleTypesAgree_iff.mp hfirst
    obtain ⟨hheads', hsecond⟩ := simpleTypesAgree_iff.mp hsecond
    exact simpleTypesAgree_iff.mpr ⟨heads_trans honward hheads hheads',
      arguments_trans honward arguments _ _ hheads.lengths hheads'.lengths hfirst hsecond⟩
  | ⟨_, _, _, _, some ⟨_, arguments, _, _, _⟩⟩, _, _, hfirst, hsecond => by
    obtain ⟨hheads, hfirst⟩ := simpleTypesAgree_iff.mp hfirst
    obtain ⟨hheads', hsecond⟩ := simpleTypesAgree_iff.mp hsecond
    exact simpleTypesAgree_iff.mpr ⟨heads_trans honward hheads hheads',
      arguments_trans honward arguments _ _ hheads.lengths hheads'.lengths hfirst hsecond⟩
private theorem arguments_trans (honward : ∀ a b c, R a b → R b c → R a c) :
    ∀ as bs cs : List (TypeArgument ClassifierRef), as.length = bs.length → bs.length = cs.length →
      (ofTree tree options).ArgumentsAgree R as bs → (ofTree tree options).ArgumentsAgree R bs cs →
        (ofTree tree options).ArgumentsAgree R as cs
  | [], _, _, _, _, _, _ => argumentsAgree_nil
  | .star :: as, .star :: bs, .star :: cs, hlength, hlength', hfirst, hsecond =>
    argumentsAgree_star.mpr (arguments_trans honward as bs cs (Nat.succ.inj hlength)
      (Nat.succ.inj hlength') (argumentsAgree_star.mp hfirst) (argumentsAgree_star.mp hsecond))
  | .projection _ a :: as, .projection _ b :: bs, .projection _ c :: cs, hlength, hlength', hfirst,
    hsecond => by
    obtain ⟨rfl, hone, hfirst⟩ := argumentsAgree_projection.mp hfirst
    obtain ⟨rfl, hother, hsecond⟩ := argumentsAgree_projection.mp hsecond
    exact argumentsAgree_projection.mpr ⟨rfl, types_trans honward a b c hone hother,
      arguments_trans honward as bs cs (Nat.succ.inj hlength) (Nat.succ.inj hlength') hfirst hsecond⟩
  | .star :: _, .projection _ _ :: _, _, _, _, hfirst, _ =>
    absurd hfirst not_argumentsAgree_star_projection
  | .projection _ _ :: _, .star :: _, _, _, _, hfirst, _ =>
    absurd hfirst not_argumentsAgree_projection_star
  | _, .star :: _, .projection _ _ :: _, _, _, _, hsecond =>
    absurd hsecond not_argumentsAgree_star_projection
  | _, .projection _ _ :: _, .star :: _, _, _, _, hsecond =>
    absurd hsecond not_argumentsAgree_projection_star
end

theorem TypesAgree.trans (honward : ∀ a b c, R a b → R b c → R a c) {a b c : Ty ClassifierRef}
    (hfirst : (ofTree tree options).TypesAgree R a b)
    (hsecond : (ofTree tree options).TypesAgree R b c) : (ofTree tree options).TypesAgree R a c :=
  types_trans honward a b c hfirst hsecond

end Types

theorem typeParameters_refl (parameters : List (TypeParameter ClassifierRef)) :
    List.Forall₂ ((ofTree tree options).ParametersAgree R) parameters parameters :=
  List.forall₂_same.mpr fun _ _ => ⟨rfl, List.forall₂_same.mpr fun type _ => .refl type⟩

theorem receiver_refl (receiver : Option (Ty ClassifierRef)) :
    Option.Rel ((ofTree tree options).TypesAgree R) receiver receiver := by
  cases receiver with
  | none => exact .none
  | some type => exact .some (.refl type)

section Declarations

variable (hself : ∀ a b, R a b → R a a) {a b : DeclId}
include hself

theorem ContainersMatch.self (hmatch : (ofTree tree options).ContainersMatch R a b) :
    (ofTree tree options).ContainersMatch R a a := by
  cases hmatch with
  | free hfirst _ => exact .free hfirst hfirst
  | nested hfirst _ hR => exact .nested hfirst hfirst (hself _ _ hR)

/-- A classifier that keeps the rules with another one keeps them with itself. -/
theorem ClassifiersMatch.self (hmatch : (ofTree tree options).ClassifiersMatch R a b) :
    (ofTree tree options).ClassifiersMatch R a a := by
  refine ⟨rfl, ⟨hmatch.visible.1, hmatch.visible.1⟩, rfl, ?_⟩
  have hkinds : (tree.declaration a).kind = (tree.declaration b).kind := hmatch.kinds
  simp only [ClassifiersAgree, ofTree]
  cases hA : (tree.declaration a).payload with
  | classType infoA =>
    obtain ⟨infoB, hB⟩ : ∃ infoB, (tree.declaration b).payload = .classType infoB :=
      Payload.ofKind (hkinds.symm.trans (congrArg Payload.kind hA))
    exact ⟨rfl, typeParameters_refl _, (hmatch.classes hA hB).containers.self hself⟩
  | typeAlias infoA =>
    obtain ⟨infoB, hB⟩ : ∃ infoB, (tree.declaration b).payload = .typeAlias infoB :=
      Payload.ofKind (hkinds.symm.trans (congrArg Payload.kind hA))
    obtain ⟨hplain, target, _, htarget, _, htargets⟩ := hmatch.aliases hA hB
    exact ⟨⟨hplain.1, hplain.1⟩, target, target, htarget, htarget, rfl, rfl, rfl, htargets.boxed.1,
      htargets.boxed.1⟩
  | _ => trivial

omit hself in
theorem AreValues.self (hvalues : (ofTree tree options).AreValues R a b) :
    (ofTree tree options).AreValues R a a := by
  obtain ⟨infoA, infoB, hA, hB, hagree⟩ := hvalues
  exact ⟨infoA, infoA, hA, hA, .refl _, rfl⟩

/-- A declaration that matches another one matches itself. -/
theorem Matches.self (hmatches : (ofTree tree options).Matches R a b) :
    (ofTree tree options).Matches R a a := by
  refine ⟨rfl, ⟨hmatches.visible.1, hmatches.visible.1⟩,
    ⟨hmatches.abstract.1, hmatches.abstract.1⟩, ?_⟩
  have hkinds : (tree.declaration a).kind = (tree.declaration b).kind := hmatches.kinds
  have hkind := hmatches.kind
  simp only [KindMatches, ofTree] at hkind ⊢
  cases hA : (tree.declaration a).payload with
  | function infoA =>
    obtain ⟨infoB, hB⟩ : ∃ infoB, (tree.declaration b).payload = .function infoB :=
      Payload.ofKind (hkinds.symm.trans (congrArg Payload.kind hA))
    simp only [hA, hB] at hkind
    have hparameters : List.Forall₂ ((ofTree tree options).AreValues R) (tree.children a)
        (tree.children a) := by
      refine List.forall₂_same.mpr ?_
      exact ((List.forall₂_and_left _ _).mp (hkind.parameters.imp fun _ _ h => ⟨h.self, h⟩)).1
    exact ⟨⟨hkind.included.1, hkind.included.1⟩, rfl, rfl, rfl, .refl _, receiver_refl _,
      typeParameters_refl _, hparameters⟩
  | property infoA =>
    obtain ⟨infoB, hB⟩ : ∃ infoB, (tree.declaration b).payload = .property infoB :=
      Payload.ofKind (hkinds.symm.trans (congrArg Payload.kind hA))
    simp only [hA, hB] at hkind
    exact ⟨rfl, rfl, .refl _, typeParameters_refl _, ⟨hkind.consts.1, hkind.consts.1⟩,
      ⟨hkind.lateinits.1, hkind.lateinits.1⟩, rfl, accessorsAgree_iff.mpr rfl,
      accessorsAgree_iff.mpr rfl, receiver_refl _⟩
  | value infoA => exact ⟨.refl _, rfl⟩
  | module infoA => trivial
  | package => trivial
  | classType infoA =>
    simp only [hA] at hkind
    exact hself a b hkind
  | typeAlias infoA =>
    simp only [hA] at hkind
    exact hself a b hkind

end Declarations

end Sides

end Concord
