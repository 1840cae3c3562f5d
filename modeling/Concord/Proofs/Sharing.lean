import Concord.Proofs.Comparison.Filled
import Concord.Proofs.Merge.Derivation
import Concord.Proofs.Tree.Regular

namespace Concord

open Memory (akin)
open Origin (walkAll)

/-- What the right-hand side of an alias names, without arguments and not by way of another alias: a
class of the tree, or one that lies outside and counts as a plain final class. -/
def Tree.NamesClass (tree : Tree) (underlying : Ty ClassifierRef) (target : AliasedClass) : Prop :=
  ∃ type, underlying = .simple type ∧ type.arguments = [] ∧ type.abbreviation = none ∧
    (tree.resolve? type.classifier = none ∧ target = .external ∨
      ∃ id info, tree.resolve? type.classifier = some id ∧
        (tree.declaration id).payload = .classType info ∧
        target = ⟨info.classKind, (tree.declaration id).data.modality,
          (tree.declaration id).data.visibility, info.isInline, info.supertypes⟩)

namespace Sides

variable (sides : Sides)

/-- The classes around two declarations, taken side by side from the inside out. -/
inductive Around (a b : DeclId) : DeclId → DeclId → Prop
  | self : Around a b a b
  | out {x y x' y' : DeclId} {infoA infoB : ClassInfo ClassifierRef} (haround : Around a b x y)
    (hfirst : sides.first.enclosingClass? x = some (x', infoA))
    (hsecond : sides.second.enclosingClass? y = some (y', infoB)) : Around a b x' y'

/-- Two classes that are not private and agree in name, kind and in whether they are nested. -/
structure ClassesAgree (x y : DeclId) : Prop where
  classes : ∃ infoA infoB, (sides.first.declaration x).payload = .classType infoA ∧
    (sides.second.declaration y).payload = .classType infoB ∧ infoA.classKind = infoB.classKind
  names : (sides.first.declaration x).qualifiedName = (sides.second.declaration y).qualifiedName
  visible : (sides.first.declaration x).data.visibility.isPrivate = false ∧
    (sides.second.declaration y).data.visibility.isPrivate = false
  nested : (sides.first.enclosingClass? x).isSome = (sides.second.enclosingClass? y).isSome

/-- Two declarations that may be shared, as far as their names, marks and kinds go. -/
structure Agree (a b : DeclId) : Prop where
  kinds : (sides.first.declaration a).kind = (sides.second.declaration b).kind
  visible : (sides.first.declaration a).data.visibility.isPrivate = false ∧
    (sides.second.declaration b).data.visibility.isPrivate = false
  abstract : sides.first.isConcreteInterfaceMember a = false ∧
    sides.second.isConcreteInterfaceMember b = false
  /-- Modules agree in their simple names, and all other declarations but values in their qualified
  names. -/
  names : match (sides.first.declaration a).kind with
    | .module => (sides.first.declaration a).name = (sides.second.declaration b).name
    | .value => True
    | _ => (sides.first.declaration a).qualifiedName = (sides.second.declaration b).qualifiedName
  functions : ∀ infoA infoB, (sides.first.declaration a).payload = .function infoA →
    (sides.second.declaration b).payload = .function infoB →
    (sides.options.isExcluded (sides.first.declaration a).name = false ∧
      sides.options.isExcluded (sides.second.declaration b).name = false) ∧
    (sides.first.declaration a).data.visibility = (sides.second.declaration b).data.visibility ∧
    infoA.isSuspend = infoB.isSuspend
  properties : ∀ infoA infoB, (sides.first.declaration a).payload = .property infoA →
    (sides.second.declaration b).payload = .property infoB →
    (infoA.isConst = false ∧ infoB.isConst = false) ∧
    (infoA.isLateinit = false ∧ infoB.isLateinit = false) ∧ infoA.isVar = infoB.isVar ∧
    (sides.first.declaration a).data.visibility = (sides.second.declaration b).data.visibility ∧
    accessorsAgree infoA.getter infoB.getter = true ∧
    accessorsAgree infoA.setter infoB.setter = true
  aliases : ∀ infoA infoB, (sides.first.declaration a).payload = .typeAlias infoA →
    (sides.second.declaration b).payload = .typeAlias infoB →
    (infoA.typeParameters = [] ∧ infoB.typeParameters = []) ∧
    ∃ targetA targetB, sides.first.NamesClass infoA.underlying targetA ∧
      sides.second.NamesClass infoB.underlying targetB ∧
      (targetA.isInline = false ∧ targetB.isInline = false) ∧
      targetA.classKind = targetB.classKind ∧ targetA.modality = targetB.modality ∧
      targetA.visibility = targetB.visibility
  /-- Classes agree, and so do the classes around them, all the way out. -/
  classes : (sides.first.declaration a).kind = .classType →
    ∀ x y, sides.Around a b x y → sides.ClassesAgree x y

end Sides

/-- A right-hand side that has a shared form names a class, in the tree or outside. -/
private theorem namesClass_of_aliasedClass {tree : Tree} {underlying : Ty ClassifierRef}
    {target : AliasedClass} (htarget : tree.aliasedClass underlying = .ok target) :
    tree.NamesClass underlying target := by
  cases underlying with
  | flexible lower upper => cases htarget
  | simple type =>
    simp only [Tree.aliasedClass] at htarget
    split at htarget
    · cases htarget
    split at htarget
    · cases htarget
    next habbreviation harguments =>
    refine ⟨type, rfl, ?_, ?_, ?_⟩
    · simpa using harguments
    · simpa using habbreviation
    · split at htarget
      · next hresolve =>
        cases htarget
        exact .inl ⟨hresolve, rfl⟩
      · next id hresolve =>
        cases hpayload : (tree.declaration id).payload with
        | classType info =>
          simp only [hpayload, Payload.class?] at htarget
          cases htarget
          exact .inr ⟨id, info, hresolve, hpayload, rfl⟩
        | _ =>
          simp only [hpayload, Payload.class?] at htarget
          cases htarget

namespace Sides

variable {first second : Tree} {options : CompiledOptions} {a b : DeclId}

private theorem classesAgree_of_akin (hakin : Akin first second a b)
    (hkind : (first.declaration a).kind = .classType) :
    (ofTrees first second options).ClassesAgree a b := by
  obtain ⟨options', hmatch⟩ := hakin.classifiersMatch
  obtain ⟨infoA, hpayloadA⟩ := Payload.ofKind hkind
  obtain ⟨infoB, hpayloadB⟩ := Payload.ofKind (hmatch.kinds.symm.trans hkind)
  have hclasses := hmatch.classes hpayloadA hpayloadB
  exact ⟨⟨infoA, infoB, hpayloadA, hpayloadB, hclasses.kinds⟩, hmatch.names, hmatch.visible,
    hclasses.containers.nested_alike⟩

/-- The classes around akin classes are akin classes, all the way out. -/
private theorem akin_around (hakin : Akin first second a b)
    (hkind : (first.declaration a).kind = .classType) {x y : DeclId}
    (haround : (ofTrees first second options).Around a b x y) :
    Akin first second x y ∧ (first.declaration x).kind = .classType := by
  induction haround with
  | self => exact ⟨hakin, hkind⟩
  | @out x y x' y' infoX infoY _ hfirst hsecond ih =>
    obtain ⟨hakin, hkind⟩ := ih
    obtain ⟨options', hmatch⟩ := hakin.classifiersMatch
    obtain ⟨infoA, hpayloadA⟩ := Payload.ofKind hkind
    obtain ⟨infoB, hpayloadB⟩ := Payload.ofKind (hmatch.kinds.symm.trans hkind)
    refine ⟨(hmatch.classes hpayloadA hpayloadB).containers.around hfirst hsecond, ?_⟩
    exact congrArg Payload.kind (Tree.enclosingClass?_eq_some.mp hfirst).2

/-- Two declarations that match bear the same name, where names count. -/
private theorem names_of_passes
    (hpasses : (ofTrees first second options).Passes (Akin first second) a b) :
    match (first.declaration a).kind with
    | .module => (first.declaration a).name = (second.declaration b).name
    | .value => True
    | _ => (first.declaration a).qualifiedName = (second.declaration b).qualifiedName := by
  obtain ⟨hkinds, -, -, hkind⟩ := hpasses
  simp only [KindPasses, ofTrees] at hkind
  cases hA : (first.declaration a).payload with
  | module info =>
    rw [show (first.declaration a).kind = .module from congrArg Payload.kind hA]
    simpa only [hA] using hkind
  | package =>
    rw [show (first.declaration a).kind = .package from congrArg Payload.kind hA]
    simpa only [hA] using hkind
  | value info =>
    rw [show (first.declaration a).kind = .value from congrArg Payload.kind hA]
    trivial
  | function infoA =>
    have hfunction : (first.declaration a).kind = .function := congrArg Payload.kind hA
    obtain ⟨infoB, hB⟩ : ∃ infoB, (second.declaration b).payload = .function infoB :=
      Payload.ofKind (hkinds.symm.trans hfunction)
    rw [hfunction]
    simp only [hA, hB] at hkind
    exact hkind.2.1
  | property infoA =>
    have hproperty : (first.declaration a).kind = .property := congrArg Payload.kind hA
    obtain ⟨infoB, hB⟩ : ∃ infoB, (second.declaration b).payload = .property infoB :=
      Payload.ofKind (hkinds.symm.trans hproperty)
    rw [hproperty]
    simp only [hA, hB] at hkind
    exact hkind.1
  | classType infoA =>
    rw [show (first.declaration a).kind = .classType from congrArg Payload.kind hA]
    simp only [hA] at hkind
    exact Akin.names hkind
  | typeAlias infoA =>
    rw [show (first.declaration a).kind = .typeAlias from congrArg Payload.kind hA]
    simp only [hA] at hkind
    exact Akin.names hkind

/-- Two declarations of distinct trees agree when they match. -/
theorem agree_of_passes (hpasses : (ofTrees first second options).Passes (Akin first second) a b) :
    (ofTrees first second options).Agree a b := by
  have hnames := names_of_passes hpasses
  obtain ⟨hkinds, hvisible, habstract, hkind⟩ := hpasses
  refine ⟨hkinds, hvisible, habstract, hnames, fun infoA infoB hA hB => ?_,
    fun infoA infoB hA hB => ?_, fun infoA infoB hA hB => ?_, fun hclass x y haround => ?_⟩
  · simp only [KindPasses, hA, hB] at hkind
    exact ⟨hkind.1, hkind.2.2⟩
  · simp only [KindPasses, hA, hB] at hkind
    obtain ⟨-, hvisibility, hconst, hlateinit, hvar, haccessors⟩ := hkind
    exact ⟨hconst, hlateinit, hvar, hvisibility, haccessors⟩
  · simp only [KindPasses, hA, hB] at hkind
    obtain ⟨options', hmatch⟩ := Akin.classifiersMatch hkind
    obtain ⟨hplain, targetA, targetB, htargetA, htargetB, htargets⟩ := hmatch.aliases hA hB
    exact ⟨hplain, targetA, targetB, namesClass_of_aliasedClass htargetA,
      namesClass_of_aliasedClass htargetB, htargets.boxed, htargets.kinds, htargets.modalities,
      htargets.visibilities⟩
  · obtain ⟨infoA, hA⟩ : ∃ infoA, ((ofTrees first second options).first.declaration a).payload =
        .classType infoA := Payload.ofKind hclass
    simp only [KindPasses, hA] at hkind
    obtain ⟨hakin, hclass⟩ := akin_around hkind hclass haround
    exact classesAgree_of_akin hakin hclass

variable (sides : Sides) in
/-- The nodes of a forest come from declarations that can be reached in their trees, and those that
a shared node comes from agree. -/
def SharesAgreed (roots : List MergedNode) : Prop :=
  ∃ origins, roots = Origin.nodes sides origins ∧ ∀ origin ∈ walkAll origins,
    (∀ a, origin.first? = some a → sides.first.Reachable a) ∧
    (∀ b, origin.second? = some b → sides.second.Reachable b) ∧
    ((origin.node sides).isCommon = true → ∃ a b, origin.ids = (some a, some b) ∧ sides.Agree a b)

/-- The origins of a merge can be reached. -/
private theorem reachable_of_derives {sides : Sides} {good : DeclId → DeclId → Data → Prop}
    {whole : Prop} {origins : List Origin} {forest : MergedForest}
    (hderives : sides.Derives good whole origins forest) :
    ∀ origin ∈ walkAll origins, (∀ a, origin.first? = some a → sides.first.Reachable a) ∧
      ∀ b, origin.second? = some b → sides.second.Reachable b := by
  intro origin horigin
  obtain ⟨top, htop, horigin⟩ := Origin.mem_walkAll.mp horigin
  refine Origin.walk_all (fun origin => (∀ a, origin.first? = some a → sides.first.Reachable a) ∧
      ∀ b, origin.second? = some b → sides.second.Reachable b) top
    (fun above habove hreach below hbelow => ⟨fun a ha => ?_, fun b hb => ?_⟩)
    ⟨fun a ha => ?_, fun b hb => ?_⟩ origin horigin
  · have hderived := hderives.derived above (Origin.mem_walkAll.mpr ⟨top, htop, habove⟩)
    have hlisted := hderived.firsts (List.mem_filterMap.mpr ⟨_, List.mem_map_of_mem hbelow, ha⟩)
    cases hfirst : above.first? with
    | none => simp [hfirst] at hlisted
    | some owner =>
      rw [hfirst] at hlisted
      exact .child (hreach.1 owner hfirst) hlisted
  · have hderived := hderives.derived above (Origin.mem_walkAll.mpr ⟨top, htop, habove⟩)
    have hlisted := hderived.seconds (List.mem_filterMap.mpr ⟨_, List.mem_map_of_mem hbelow, hb⟩)
    cases hsecond : above.second? with
    | none => simp [hsecond] at hlisted
    | some owner =>
      rw [hsecond] at hlisted
      exact .child (hreach.2 owner hsecond) hlisted
  · exact .root (hderives.firsts (List.mem_filterMap.mpr ⟨_, List.mem_map_of_mem htop, ha⟩))
  · exact .root (hderives.seconds (List.mem_filterMap.mpr ⟨_, List.mem_map_of_mem htop, hb⟩))

/-- A forest that a merge of distinct trees gives shares what agrees. -/
private theorem sharesAgreed_of_derives {whole : Prop} {origins : List Origin}
    {forest : MergedForest}
    (hderives : (ofTrees first second options).Derives
      ((ofTrees first second options).Settled (Akin first second)) whole origins forest) :
    (ofTrees first second options).SharesAgreed forest.roots := by
  refine ⟨origins, hderives.nodes, fun origin horigin => ?_⟩
  have hreach := reachable_of_derives hderives origin horigin
  have hderived := hderives.derived origin horigin
  refine ⟨hreach.1, hreach.2, fun hcommon => ?_⟩
  rw [MergedNode.isCommon, Origin.node_payloads, hderived.common, Bool.and_eq_true,
    Option.isSome_iff_exists, Option.isSome_iff_exists] at hcommon
  obtain ⟨⟨a, ha⟩, b, hb⟩ := hcommon
  have hshared : origin.common?.isSome = true := by rw [hderived.common, ha, hb]; rfl
  obtain ⟨common, hcommon⟩ := Option.isSome_iff_exists.mp hshared
  refine ⟨a, b, by rw [Origin.ids, ha, hb], agree_of_passes ?_⟩
  exact (hderived.good a b common ha hb hcommon).passes rfl

/-- What a merge of two distinct trees in one session shares agrees. -/
theorem sharesAgreed_of_merge (hbuilt : first.Built ∧ second.Built) {cache : Cache}
    (hcache : cache.Filled first second) {result : MergeResult} {session : Session}
    (hmerge : (ofTrees first second options).merge cache = .ok (result, session)) :
    (ofTrees first second options).SharesAgreed result.forest.roots := by
  have hgives := Services.merge_gives
    ((ofTrees first second options).services_obeys (Cache.Vouches (akin first second)) False)
    (ofTrees_consistent first second options) (Session.verdict_gives options) False.elim id
    hbuilt.1.roots_known hbuilt.2.roots_known False.elim
  obtain ⟨-, origins, hderives⟩ := (merge_of_gives hgives hcache.vouches).1 result session hmerge
  exact sharesAgreed_of_derives hderives

/-- What workers share of two distinct trees agrees. -/
theorem sharesAgreed_of_schedule (hbuilt : first.Built ∧ second.Built) {cache : Cache}
    (hcache : cache.Filled first second) {after : Cache} {nodes : List MergedNode}
    {rejections : List Rejection} {limitHits : Nat}
    (hschedule : Task.Schedule (cache, (ofTrees first second options).mergeTask)
      (after, .done ⟨.ok (nodes, rejections), limitHits⟩)) :
    (ofTrees first second options).SharesAgreed nodes := by
  have hgives := Services.merge_gives
    ((ofTrees first second options).tasks_obeys (Cache.Vouches (akin first second)) False)
    (ofTrees_consistent first second options) (TaskM.verdict_gives options False) False.elim id
    hbuilt.1.roots_known hbuilt.2.roots_known False.elim
  obtain ⟨-, hends⟩ := mergeTask_of_gives hgives hcache.vouches hschedule
  obtain ⟨origins, hderives⟩ := (hends _ rfl).1 nodes rejections rfl
  exact sharesAgreed_of_derives hderives

/-- What two distinct trees share agrees, whatever the options and the limits are and whatever
earlier comparisons of the trees have left in the cache. This holds of a merge in one session, and
of a merge by workers in whatever order they take their steps. -/
theorem merge_shares_agreed (first second : Tree) (options : CompiledOptions)
    (hbuilt : first.Built ∧ second.Built) (cache : Cache) (hcache : cache.Filled first second) :
    let sides := ofTrees first second options
    (∀ result session, sides.merge cache = .ok (result, session) →
      sides.SharesAgreed result.forest.roots) ∧
    ∀ after nodes rejections limitHits,
      Task.Schedule (cache, sides.mergeTask) (after, .done ⟨.ok (nodes, rejections), limitHits⟩) →
        sides.SharesAgreed nodes :=
  ⟨fun _ _ => sharesAgreed_of_merge hbuilt hcache,
    fun _ _ _ _ => sharesAgreed_of_schedule hbuilt hcache⟩

/-- A class in a class, and a function that returns the inner one. -/
private def nest : Source :=
  let inner : Ty Spelling := .simple ⟨⟨some ⟨"p.Outer.Inner"⟩, none⟩, [], false, false, none⟩
  .mk ⟨"m"⟩ .everyone .final .plain (.module ⟨none⟩)
    [.mk ⟨"p"⟩ .everyone .final .plain .package
      [.mk ⟨"Outer"⟩ .everyone .final .plain (.classType (.ofKind .ordinary))
        [.mk ⟨"Inner"⟩ .everyone .final .plain (.classType (.ofKind .ordinary)) []],
      .mk ⟨"f"⟩ .everyone .final .plain
        (.function ⟨inner, none, [], false, false, false, false⟩) []]]

private def nestTree : Tree :=
  (Tree.ofSources [nest]).toOption.getD .empty

private theorem nestTree_built : nestTree.Built := by
  have hread : (Tree.ofSources [nest]).toOption = some nestTree := by decide +kernel
  obtain ⟨draft, hdraft, heq, -⟩ := Tree.ofSources_regular (Except.toOption_eq_some.mp hread)
  exact heq ▸ hdraft.link.built

/-- Options under which no more than so many pairs are compared inside one another. -/
private def deep (levels : Nat) : CompiledOptions :=
  ⟨["kotlin"], [], false, levels, 1000000⟩

/-- What a comparison of the inner classes leaves in a cache when only so many pairs fit in. -/
private def nestCache (levels : Nat) : Cache :=
  (((ofTrees nestTree nestTree (deep levels)).performAll [.classifiers ⟨3⟩ ⟨3⟩]).run
    (.new (deep levels) .empty)).2.cache

/-- A merge over a cache in which an earlier comparison left its yes on the outer class and on the
inner one shares what agrees. -/
theorem nest_shares_agreed :
    (nestCache 100).entries.length = 2 ∧
    ∃ result session, (ofTrees nestTree nestTree (deep 1)).merge (nestCache 100) =
        .ok (result, session) ∧ (result.forest.nodes.filter (·.isCommon)).length = 5 ∧
      (ofTrees nestTree nestTree (deep 1)).SharesAgreed result.forest.roots := by
  have hmerged : ((ofTrees nestTree nestTree (deep 1)).merge (nestCache 100)).toOption.map
      (fun merged => (merged.1.forest.nodes.filter (·.isCommon)).length) = some 5 := by
    decide +kernel
  obtain ⟨⟨result, session⟩, hmerge, hcommon⟩ := Option.map_eq_some_iff.mp hmerged
  have hmerge := Except.toOption_eq_some.mp hmerge
  refine ⟨by decide +kernel, result, session, hmerge, hcommon, ?_⟩
  exact (merge_shares_agreed nestTree nestTree (deep 1) ⟨nestTree_built, nestTree_built⟩
    (nestCache 100) (.calls (deep 100) _ .empty)).1 result session hmerge

end Sides

end Concord
