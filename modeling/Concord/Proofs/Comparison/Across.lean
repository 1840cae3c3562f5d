import Concord.Proofs.Comparison.OneTree
import Concord.Proofs.Comparison.Shapes

namespace Concord

/-- Items that a relation leads to one another across two others: over, back, and over again. -/
def Across {α β : Type} (R : α → β → Prop) (a : α) (b : β) : Prop :=
  ∃ a' b', R a b' ∧ R a' b' ∧ R a' b

section Lists

variable {α β : Type} {R : α → β → Prop}

theorem forall₂_across {as : List α} {bs : List β} (hacross : Across (List.Forall₂ R) as bs) :
    List.Forall₂ (Across R) as bs := by
  obtain ⟨as', bs', hover, hback, hagain⟩ := hacross
  induction hover generalizing as' bs with
  | nil =>
    cases hback
    cases hagain
    exact .nil
  | cons hone _ ih =>
    cases hback with
    | cons hone' hothers' =>
    cases hagain with
    | cons hone'' hothers'' => exact .cons ⟨_, _, hone, hone', hone''⟩ (ih _ hothers' hothers'')

theorem optionRel_across {a : Option α} {b : Option β} (hacross : Across (Option.Rel R) a b) :
    Option.Rel (Across R) a b := by
  obtain ⟨a', b', hover, hback, hagain⟩ := hacross
  cases hover with
  | none =>
    cases hback
    cases hagain
    exact .none
  | some hone =>
    cases hback with
    | some hone' =>
    cases hagain with
    | some hone'' => exact .some ⟨_, _, hone, hone', hone''⟩

/-- What is related directly is related across itself. -/
theorem across_of_related {a : α} {b : β} (hR : R a b) : Across R a b :=
  ⟨a, b, hR, hR, hR⟩

/-- What is equal at each step is equal across them. -/
theorem eq_across {γ : Type} {x x' y y' : γ} (hover : x = y') (hback : x' = y') (hagain : x' = y) :
    x = y :=
  hover.trans (hback.symm.trans hagain)

end Lists

namespace Sides

variable {sides : Sides} {R : DeclId → DeclId → Prop}

section References

variable {x : ClassifierRef} {y : ClassifierRef} {name : QualifiedName} {id : DeclId}
  (hname : sides.options.isBuiltin name = true ∨
    sides.first.resolve? x = none ∧ sides.second.resolve? y = none)
include hname

/-- A reference that is compared by name is not compared by what it leads to. -/
private theorem first_unresolved (hfirst : sides.first.nameOf? x = some name)
    (hdeclared : (sides.first.nameOf? x).any sides.options.isBuiltin = false) :
    sides.first.resolve? x ≠ some id := by
  rw [hfirst, Option.any_some] at hdeclared
  rw [(hname.resolve_left (by simp [hdeclared])).1]
  nofun

private theorem second_unresolved (hsecond : sides.second.nameOf? y = some name)
    (hdeclared : (sides.second.nameOf? y).any sides.options.isBuiltin = false) :
    sides.second.resolve? y ≠ some id := by
  rw [hsecond, Option.any_some] at hdeclared
  rw [(hname.resolve_left (by simp [hdeclared])).2]
  nofun

end References

/-- References that agree are compared in one way all across. -/
theorem RefsAgree.across {x y : ClassifierRef} (hacross : Across (sides.RefsAgree R) x y) :
    sides.RefsAgree (Across R) x y := by
  obtain ⟨x', y', hover, hback, hagain⟩ := hacross
  cases hover with
  | typeParameter name =>
    cases hback with
    | typeParameter _ =>
      cases hagain with
      | typeParameter _ => exact .typeParameter name
      | byName hfirst _ _ => cases hfirst
      | shared hfirst _ _ _ => cases hfirst
    | byName _ hsecond _ => cases hsecond
    | shared _ hsecond _ _ => cases hsecond
  | byName hfirst hsecond hname =>
    cases hback with
    | typeParameter _ => cases hsecond
    | byName hfirst' hsecond' hname' =>
      obtain rfl := Option.some.inj (hsecond.symm.trans hsecond')
      cases hagain with
      | typeParameter _ => cases hfirst'
      | byName hfirst'' hsecond'' hname'' =>
        obtain rfl := Option.some.inj (hfirst'.symm.trans hfirst'')
        refine .byName hfirst hsecond'' ?_
        obtain hbuiltin | hunresolved := hname
        · exact .inl hbuiltin
        · exact hname''.imp_right fun hunresolved' => ⟨hunresolved.1, hunresolved'.2⟩
      | shared hresolve _ hdeclared _ =>
        exact absurd hresolve (first_unresolved hname' hfirst' hdeclared.1)
    | shared _ hresolve hdeclared _ =>
      exact absurd hresolve (second_unresolved hname hsecond hdeclared.2)
  | shared hfirst hsecond hdeclared hR =>
    cases hback with
    | typeParameter _ => cases hsecond
    | byName _ hsecond' hname' =>
      exact absurd hsecond (second_unresolved hname' hsecond' hdeclared.2)
    | shared hfirst' hsecond' hdeclared' hR' =>
      obtain rfl := Option.some.inj (hsecond.symm.trans hsecond')
      cases hagain with
      | typeParameter _ => cases hfirst'
      | byName hfirst'' _ hname'' =>
        exact absurd hfirst' (first_unresolved hname'' hfirst'' hdeclared'.1)
      | shared hfirst'' hsecond'' hdeclared'' hR'' =>
        obtain rfl := Option.some.inj (hfirst'.symm.trans hfirst'')
        exact .shared hfirst hsecond'' ⟨hdeclared.1, hdeclared''.2⟩ ⟨_, _, hR, hR', hR''⟩

variable (hsteady : sides.Steady R)
include hsteady

theorem TypesAgree.across {a b : Ty ClassifierRef} (hacross : Across (sides.TypesAgree R) a b) :
    sides.TypesAgree (Across R) a b := by
  obtain ⟨a', b', hover, hback, hagain⟩ := hacross
  cases hsame : sides.same with
  | false =>
    have hshape := eq_across hover.shape hback.shape hagain.shape
    have hrefs : Across (List.Forall₂ (sides.RefsAlike R)) a.compared.refs b.compared.refs :=
      ⟨_, _, hover.refs, hback.refs, hagain.refs⟩
    refine typesAgree_of_shape a b hshape ((forall₂_across hrefs).imp fun x y hxy => ?_)
    simp only [Across, refsAlike_iff hsame] at hxy
    exact .across hxy
  | true =>
    obtain ⟨⟨tree, options, rfl⟩, hsymm, htrans⟩ := hsteady hsame
    have hleft : (ofTree tree options).TypesAgree R a a' := hover.trans htrans (hback.symm hsymm)
    exact (hleft.trans htrans hagain).mono fun _ _ => across_of_related

theorem ParametersAgree.across {a b : TypeParameter ClassifierRef}
    (hacross : Across (sides.ParametersAgree R) a b) : sides.ParametersAgree (Across R) a b := by
  obtain ⟨a', b', hover, hback, hagain⟩ := hacross
  refine ⟨eq_across hover.variance hback.variance hagain.variance, ?_⟩
  have hbounds : Across (List.Forall₂ (sides.TypesAgree R)) a.upperBounds b.upperBounds :=
    ⟨_, _, hover.bounds, hback.bounds, hagain.bounds⟩
  exact (forall₂_across hbounds).imp fun _ _ => .across hsteady

theorem typeParameters_across {as bs : List (TypeParameter ClassifierRef)}
    (hacross : Across (List.Forall₂ (sides.ParametersAgree R)) as bs) :
    List.Forall₂ (sides.ParametersAgree (Across R)) as bs :=
  (forall₂_across hacross).imp fun _ _ => .across hsteady

theorem receivers_across {a b : Option (Ty ClassifierRef)}
    (hacross : Across (Option.Rel (sides.TypesAgree R)) a b) :
    Option.Rel (sides.TypesAgree (Across R)) a b := by
  cases optionRel_across hacross with
  | none => exact .none
  | some hone => exact .some (TypesAgree.across hsteady hone)

omit hsteady

section Classifiers

/-- The declarations on the way are of one kind. -/
private theorem ofKinds {a a' b b' : DeclId} {kind : Kind}
    (hover : (sides.first.declaration a).kind = (sides.second.declaration b').kind)
    (hback : (sides.first.declaration a').kind = (sides.second.declaration b').kind)
    (hagain : (sides.first.declaration a').kind = (sides.second.declaration b).kind)
    (hkind : (sides.first.declaration a).kind = kind) :
    (sides.first.declaration a).payload.OfKind kind ∧
      (sides.second.declaration b').payload.OfKind kind ∧
      (sides.first.declaration a').payload.OfKind kind ∧
      (sides.second.declaration b).payload.OfKind kind := by
  have hover := hover.symm.trans hkind
  have hback := hback.trans hover
  exact ⟨Payload.ofKind hkind, Payload.ofKind hover, Payload.ofKind hback,
    Payload.ofKind (hagain.symm.trans hback)⟩

/-- Classes look the same from outside all across. -/
theorem AliasesMatch.across {infoA infoB : AliasInfo ClassifierRef}
    (hacross : Across sides.AliasesMatch infoA infoB) : sides.AliasesMatch infoA infoB := by
  obtain ⟨infoA', infoB', hover, hback, hagain⟩ := hacross
  obtain ⟨hplain, a, b', hA, hB', hsame⟩ := hover
  obtain ⟨-, a', b'', hA', hB'', hsame'⟩ := hback
  obtain ⟨hplain'', a'', b, hA'', hB, hsame''⟩ := hagain
  obtain rfl := Except.ok.inj (hB'.symm.trans hB'')
  obtain rfl := Except.ok.inj (hA'.symm.trans hA'')
  exact ⟨⟨hplain.1, hplain''.2⟩, a, b, hA, hB,
    eq_across hsame.kinds hsame'.kinds hsame''.kinds,
    eq_across hsame.modalities hsame'.modalities hsame''.modalities,
    eq_across hsame.visibilities hsame'.visibilities hsame''.visibilities,
    hsame.boxed.1, hsame''.boxed.2⟩

theorem ContainersMatch.across {a b : DeclId} (hacross : Across (sides.ContainersMatch R) a b) :
    sides.ContainersMatch (Across R) a b := by
  obtain ⟨a', b', hover, hback, hagain⟩ := hacross
  cases hover with
  | free hfirst hsecond =>
    cases hback with
    | free hfirst' _ =>
      cases hagain with
      | free _ hsecond'' => exact .free hfirst hsecond''
      | nested hfirst'' _ _ => cases hfirst'.symm.trans hfirst''
    | nested _ hsecond' _ => cases hsecond.symm.trans hsecond'
  | nested hfirst hsecond hR =>
    cases hback with
    | free _ hsecond' => cases hsecond.symm.trans hsecond'
    | nested hfirst' hsecond' hR' =>
      cases hsecond.symm.trans hsecond'
      cases hagain with
      | free hfirst'' _ => cases hfirst'.symm.trans hfirst''
      | nested hfirst'' hsecond'' hR'' =>
        cases hfirst'.symm.trans hfirst''
        exact .nested hfirst hsecond'' ⟨_, _, hR, hR', hR''⟩

/-- Classifiers that say the same across others say the same, by the relation across them. -/
theorem ClassifiersMatch.across (hsteady : sides.Steady R) {a b : DeclId}
    (hacross : Across (sides.ClassifiersMatch R) a b) : sides.ClassifiersMatch (Across R) a b := by
  obtain ⟨a', b', hover, hback, hagain⟩ := hacross
  have hkinds := eq_across hover.kinds hback.kinds hagain.kinds
  refine ⟨hkinds, ⟨hover.visible.1, hagain.visible.2⟩,
    eq_across hover.names hback.names hagain.names, ?_⟩
  cases hkind : (sides.first.declaration a).kind with
  | classType =>
    obtain ⟨⟨infoA, hA⟩, ⟨infoB', hB'⟩, ⟨infoA', hA'⟩, infoB, hB⟩ :=
      ofKinds hover.kinds hback.kinds hagain.kinds hkind
    have hover' := hover.classes hA hB'
    have hback' := hback.classes hA' hB'
    have hagain' := hagain.classes hA' hB
    simp only [ClassifiersAgree, hA, hB]
    exact ⟨eq_across hover'.kinds hback'.kinds hagain'.kinds,
      typeParameters_across hsteady
        ⟨_, _, hover'.parameters, hback'.parameters, hagain'.parameters⟩,
      .across ⟨_, _, hover'.containers, hback'.containers, hagain'.containers⟩⟩
  | typeAlias =>
    obtain ⟨⟨infoA, hA⟩, ⟨infoB', hB'⟩, ⟨infoA', hA'⟩, infoB, hB⟩ :=
      ofKinds hover.kinds hback.kinds hagain.kinds hkind
    simp only [ClassifiersAgree, hA, hB]
    exact .across ⟨_, _, hover.aliases hA hB', hback.aliases hA' hB', hagain.aliases hA' hB⟩
  | package =>
    have hA : (sides.first.declaration a).payload = .package := Payload.ofKind hkind
    simp only [ClassifiersAgree, hA]
  | _ =>
    obtain ⟨infoA, hA⟩ := Payload.ofKind hkind
    have hA : (sides.first.declaration a).payload = _ := hA
    simp only [ClassifiersAgree, hA]

theorem Shareable.classifiersMatch {a b : DeclId} (hshare : sides.Shareable a b) :
    sides.ClassifiersMatch sides.Shareable a b :=
  rulesHold_iff_classifiersMatch.mp ((sides.shareable_iff_rulesHold a b).mp hshare)

/-- In a single tree shareability leads back and onward. What it leads to in several steps keeps the
rules when that is what answers their questions, so it can be shared. -/
theorem shareable_steady (hconsistent : sides.Consistent) : sides.Steady sides.Shareable := by
  intro hsame
  obtain ⟨tree, options, rfl⟩ := hconsistent.exists_ofTree hsame
  let sides := ofTree tree options
  have hback (a b : DeclId) (hshare : sides.Shareable a b) : sides.Shareable b a :=
    (sides.shareable_swap a b).mpr hshare
  let Q := Relation.TransGen sides.Shareable
  have hsymmetric : Std.Symm sides.Shareable := ⟨hback⟩
  have hsymm (a b : DeclId) (hQ : Q a b) : Q b a := Relation.TransGen.stdSymm.symm a b hQ
  have hsteady : sides.Steady Q := fun _ => ⟨⟨tree, options, rfl⟩, hsymm, fun _ _ _ => .trans⟩
  have hself (a b : DeclId) (hQ : Q a b) : Q a a := hQ.trans (hsymm a b hQ)
  have hmono {a b : DeclId} (hshare : sides.Shareable a b) : sides.ClassifiersMatch Q a b := by
    have hrules := (sides.shareable_iff_rulesHold a b).mp hshare
    exact rulesHold_iff_classifiersMatch.mp (hrules.mono fun _ _ => .single)
  have hkeeps (a b : DeclId) (hQ : Q a b) : sides.ClassifiersMatch Q a b := by
    induction hQ with
    | single hshare => exact hmono hshare
    | @tail b c _ hshare ih =>
      have hacross : sides.ClassifiersMatch (Across Q) a c :=
        .across hsteady ⟨b, b, ih, (hmono hshare).self hself, hmono hshare⟩
      refine rulesHold_iff_classifiersMatch.mp ?_
      refine (rulesHold_iff_classifiersMatch.mpr hacross).mono fun x y hxy => ?_
      obtain ⟨x', y', hover, hback, hagain⟩ := hxy
      exact (hover.trans (hsymm _ _ hback)).trans hagain
  refine ⟨⟨tree, options, rfl⟩, hback, fun a b c hfirst hsecond => ?_⟩
  exact ⟨Q, fun x y hQ => rulesHold_iff_classifiersMatch.mpr (hkeeps x y hQ),
    .tail (.single hfirst) hsecond⟩

/-- Shareability leads across others to what can be shared itself. -/
theorem Shareable.across (hconsistent : sides.Consistent) {a b : DeclId}
    (hacross : Across sides.Shareable a b) : sides.Shareable a b := by
  refine ⟨Across sides.Shareable, fun x y hxy => ?_, hacross⟩
  obtain ⟨x', y', hover, hback, hagain⟩ := hxy
  refine rulesHold_iff_classifiersMatch.mpr (.across (shareable_steady hconsistent) ?_)
  exact ⟨x', y', hover.classifiersMatch, hback.classifiersMatch, hagain.classifiersMatch⟩

end Classifiers

section Declarations

variable (hsteady : sides.Steady R)
include hsteady

theorem ValuesAgree.across {infoA infoB : ValueInfo ClassifierRef}
    (hacross : Across (sides.ValuesAgree R) infoA infoB) : sides.ValuesAgree (Across R) infoA infoB := by
  obtain ⟨infoA', infoB', hover, hback, hagain⟩ := hacross
  exact ⟨.across hsteady ⟨_, _, hover.types, hback.types, hagain.types⟩,
    eq_across hover.varargs hback.varargs hagain.varargs⟩

theorem AreValues.across {a b : DeclId} (hacross : Across (sides.AreValues R) a b) :
    sides.AreValues (Across R) a b := by
  obtain ⟨a', b', ⟨infoA, infoB', hA, hB', hover⟩, ⟨infoA', infoB'', hA', hB'', hback⟩,
    infoA'', infoB, hA'', hB, hagain⟩ := hacross
  obtain rfl := Payload.value.inj (hB'.symm.trans hB'')
  obtain rfl := Payload.value.inj (hA'.symm.trans hA'')
  exact ⟨infoA, infoB, hA, hB, .across hsteady ⟨_, _, hover, hback, hagain⟩⟩

omit hsteady in
private theorem accessorsAgree_across {a a' b b' : Option Accessor}
    (hover : accessorsAgree a b' = true) (hback : accessorsAgree a' b' = true)
    (hagain : accessorsAgree a' b = true) : accessorsAgree a b = true := by
  rw [accessorsAgree_iff] at hover hback hagain ⊢
  exact eq_across hover hback hagain

variable {a a' b b' : DeclId}

theorem FunctionsAgree.across {infoA infoA' infoB infoB' : FunctionInfo ClassifierRef}
    (hover : sides.FunctionsAgree R a b' infoA infoB')
    (hback : sides.FunctionsAgree R a' b' infoA' infoB')
    (hagain : sides.FunctionsAgree R a' b infoA' infoB) :
    sides.FunctionsAgree (Across R) a b infoA infoB where
  included := ⟨hover.included.1, hagain.included.2⟩
  names := eq_across hover.names hback.names hagain.names
  visibilities := eq_across hover.visibilities hback.visibilities hagain.visibilities
  suspends := eq_across hover.suspends hback.suspends hagain.suspends
  returnTypes := .across hsteady ⟨_, _, hover.returnTypes, hback.returnTypes, hagain.returnTypes⟩
  receivers := receivers_across hsteady ⟨_, _, hover.receivers, hback.receivers, hagain.receivers⟩
  typeParameters := typeParameters_across hsteady
    ⟨_, _, hover.typeParameters, hback.typeParameters, hagain.typeParameters⟩
  parameters := by
    have hparameters : Across (List.Forall₂ (sides.AreValues R)) (sides.first.children a)
        (sides.second.children b) := ⟨_, _, hover.parameters, hback.parameters, hagain.parameters⟩
    exact (forall₂_across hparameters).imp fun _ _ => .across hsteady

theorem PropertiesAgree.across {infoA infoA' infoB infoB' : PropertyInfo ClassifierRef}
    (hover : sides.PropertiesAgree R a b' infoA infoB')
    (hback : sides.PropertiesAgree R a' b' infoA' infoB')
    (hagain : sides.PropertiesAgree R a' b infoA' infoB) :
    sides.PropertiesAgree (Across R) a b infoA infoB where
  names := eq_across hover.names hback.names hagain.names
  visibilities := eq_across hover.visibilities hback.visibilities hagain.visibilities
  types := .across hsteady ⟨_, _, hover.types, hback.types, hagain.types⟩
  typeParameters := typeParameters_across hsteady
    ⟨_, _, hover.typeParameters, hback.typeParameters, hagain.typeParameters⟩
  consts := ⟨hover.consts.1, hagain.consts.2⟩
  lateinits := ⟨hover.lateinits.1, hagain.lateinits.2⟩
  vars := eq_across hover.vars hback.vars hagain.vars
  getters := accessorsAgree_across hover.getters hback.getters hagain.getters
  setters := accessorsAgree_across hover.setters hback.setters hagain.setters
  receivers := receivers_across hsteady ⟨_, _, hover.receivers, hback.receivers, hagain.receivers⟩

/-- Declarations that match across others match, by the relation across them. -/
theorem Matches.across (hacross : Across (sides.Matches R) a b) : sides.Matches (Across R) a b := by
  obtain ⟨a', b', hover, hback, hagain⟩ := hacross
  have hkinds := eq_across hover.kinds hback.kinds hagain.kinds
  refine ⟨hkinds, ⟨hover.visible.1, hagain.visible.2⟩, ⟨hover.abstract.1, hagain.abstract.2⟩, ?_⟩
  have hover' := hover.kind
  have hback' := hback.kind
  have hagain' := hagain.kind
  cases hkind : (sides.first.declaration a).kind with
  | module =>
    obtain ⟨⟨infoA, hA⟩, -, ⟨infoA', hA'⟩, -⟩ := ofKinds hover.kinds hback.kinds hagain.kinds hkind
    simp only [KindMatches, hA, hA'] at hover' hback' hagain' ⊢
    exact eq_across hover' hback' hagain'
  | package =>
    obtain ⟨hA, -, hA', -⟩ := ofKinds hover.kinds hback.kinds hagain.kinds hkind
    simp only [KindMatches, show _ = Payload.package from hA, show _ = Payload.package from hA']
      at hover' hback' hagain' ⊢
    exact eq_across hover' hback' hagain'
  | function =>
    obtain ⟨⟨infoA, hA⟩, ⟨infoB', hB'⟩, ⟨infoA', hA'⟩, infoB, hB⟩ :=
      ofKinds hover.kinds hback.kinds hagain.kinds hkind
    simp only [KindMatches, hA, hA', hB, hB'] at hover' hback' hagain' ⊢
    exact hover'.across hsteady hback' hagain'
  | property =>
    obtain ⟨⟨infoA, hA⟩, ⟨infoB', hB'⟩, ⟨infoA', hA'⟩, infoB, hB⟩ :=
      ofKinds hover.kinds hback.kinds hagain.kinds hkind
    simp only [KindMatches, hA, hA', hB, hB'] at hover' hback' hagain' ⊢
    exact hover'.across hsteady hback' hagain'
  | value =>
    obtain ⟨⟨infoA, hA⟩, ⟨infoB', hB'⟩, ⟨infoA', hA'⟩, infoB, hB⟩ :=
      ofKinds hover.kinds hback.kinds hagain.kinds hkind
    simp only [KindMatches, hA, hA', hB, hB'] at hover' hback' hagain' ⊢
    exact .across hsteady ⟨_, _, hover', hback', hagain'⟩
  | classType =>
    obtain ⟨⟨infoA, hA⟩, -, ⟨infoA', hA'⟩, -⟩ := ofKinds hover.kinds hback.kinds hagain.kinds hkind
    simp only [KindMatches, hA, hA'] at hover' hback' hagain' ⊢
    exact ⟨_, _, hover', hback', hagain'⟩
  | typeAlias =>
    obtain ⟨⟨infoA, hA⟩, -, ⟨infoA', hA'⟩, -⟩ := ofKinds hover.kinds hback.kinds hagain.kinds hkind
    simp only [KindMatches, hA, hA'] at hover' hback' hagain' ⊢
    exact ⟨_, _, hover', hback', hagain'⟩

end Declarations

end Sides

end Concord
