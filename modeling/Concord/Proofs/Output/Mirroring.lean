import Concord.Proofs.Faithfulness
import Concord.Proofs.Merge.Partners
import Concord.Proofs.Tree.Mirroring

namespace Concord

namespace Copy

mutual
private theorem walk_closed {copy below : Copy} : ∀ top, copy ∈ walk top → below ∈ copy.copies →
    below ∈ walk top
  | mk source place copies, hcopy, hbelow => by
    rw [walk] at hcopy ⊢
    obtain rfl | hcopy := List.mem_cons.mp hcopy
    · exact List.mem_cons_of_mem _ (mem_walkAll hbelow)
    · exact List.mem_cons_of_mem _ (walkAll_closed copies hcopy hbelow)
/-- The copies below a walked one are walked too. -/
theorem walkAll_closed {copy below : Copy} : ∀ copies, copy ∈ walkAll copies →
    below ∈ copy.copies → below ∈ walkAll copies
  | [], hcopy, _ => by simp [walkAll] at hcopy
  | top :: copies, hcopy, hbelow => by
    rw [walkAll] at hcopy ⊢
    obtain hcopy | hcopy := List.mem_append.mp hcopy
    · exact List.mem_append_left _ (walk_closed top hcopy hbelow)
    · exact List.mem_append_right _ (walkAll_closed copies hcopy hbelow)
end

/-- The place of the copy of a declaration. -/
def placeOf (copies : List Copy) (id : DeclId) : DeclId :=
  ((walkAll copies).find? (·.source = id)).elim id place

variable {copies : List Copy}

theorem placeOf_source (hdistinct : ((walkAll copies).map source).Nodup) {copy : Copy}
    (hcopy : copy ∈ walkAll copies) : placeOf copies copy.source = copy.place := by
  cases hfind : (walkAll copies).find? (·.source = copy.source) with
  | none => simpa using List.find?_eq_none.mp hfind copy hcopy
  | some found =>
    have hsource := List.find?_some hfind
    have hsame := List.inj_on_of_nodup_map hdistinct (List.mem_of_find?_eq_some hfind) hcopy
      (decide_eq_true_iff.mp hsource)
    rw [placeOf, hfind, Option.elim_some, hsame]

theorem placeOf_unknown {id : DeclId} (hid : id ∉ (walkAll copies).map source) :
    placeOf copies id = id := by
  have hnone : (walkAll copies).find? (·.source = id) = none := by
    refine List.find?_eq_none.mpr fun copy hcopy hsource => hid ?_
    exact List.mem_map.mpr ⟨copy, hcopy, of_decide_eq_true hsource⟩
  rw [placeOf, hnone, Option.elim_none]

end Copy

open Copy (placeOf walkAll)

/-- A tree holds copies of all declarations of another, hanging together as in a third, and nothing
else. -/
structure Tree.HoldsCopies (tree original input : Tree) (copies : List Copy) : Prop where
  sources : ((walkAll copies).map Copy.source).Nodup
  places : ((walkAll copies).map Copy.place).Nodup
  covers : ∀ id, id ∈ (walkAll copies).map Copy.source ↔ id.index < original.size
  complete : ∀ id, id ∈ (walkAll copies).map Copy.place ↔ id.index < tree.size
  /-- A copy holds the data of its declaration, linked to the classifiers of the tree. -/
  content : ∀ copy ∈ walkAll copies, ∃ declaration expectation,
    original.get? copy.source = some declaration ∧ tree.content? copy.place =
      some ({ (declaration.data.mapRefs original.detachRef).mapRefs tree.linkRef with expectation },
        copy.copies.map Copy.place)
  children : ∀ copy ∈ walkAll copies, input.children copy.source = copy.copies.map Copy.source
  tops : input.roots = copies.map Copy.source
  roots : tree.roots = copies.map Copy.place
  owned : tree.Owned
  index : ∀ name id, tree.classifier? name = some id ↔ ∃ declaration,
    tree.get? id = some declaration ∧ declaration.kind.isClassifier = true ∧
      declaration.qualifiedName = name

/-- A tree that mirrors another, and that can be merged as it can. -/
structure Tree.Reproduces (tree original : Tree) (place : DeclId → DeclId) : Prop
    extends tree.Mirrors original place where
  mergeable : tree.Mergeable
  checked : ∀ side, checkMergeable tree side = .ok ()
  values : tree.ParametersAreValues

namespace Tree.HoldsCopies

variable {tree original input : Tree} {copies : List Copy}
  (hholds : tree.HoldsCopies original input copies)
include hholds

/-- A declaration stands at the place of its copy, which lists those of what it owns. -/
theorem placed {id : DeclId} {declaration : Declaration}
    (hget : original.get? id = some declaration) : ∃ found,
    tree.get? (placeOf copies id) = some found ∧
      found.data.unmarked =
        ((declaration.data.mapRefs original.detachRef).mapRefs tree.linkRef).unmarked ∧
      found.children = (input.children id).map (placeOf copies) := by
  obtain ⟨copy, hcopy, rfl⟩ := List.mem_map.mp ((hholds.covers id).mpr (lt_size_of_get? hget))
  obtain ⟨declaration', expectation, hget', hcontent⟩ := hholds.content copy hcopy
  cases hget.symm.trans hget'
  obtain ⟨found, hfound, hdata, hchildren⟩ := content?_eq_some.mp hcontent
  refine ⟨found, by rwa [Copy.placeOf_source hholds.sources hcopy], by rw [hdata]; rfl, ?_⟩
  rw [hchildren, hholds.children copy hcopy, List.map_map]
  exact List.map_congr_left fun below hbelow =>
    (Copy.placeOf_source hholds.sources (Copy.walkAll_closed copies hcopy hbelow)).symm

/-- Every declaration of the tree is a copy, of the same kind and with the same name. -/
theorem copied {place : DeclId} {found : Declaration} (hfound : tree.get? place = some found) :
    ∃ id declaration, placeOf copies id = place ∧ original.get? id = some declaration ∧
      found.kind = declaration.kind ∧ found.qualifiedName = declaration.qualifiedName := by
  obtain ⟨copy, hcopy, rfl⟩ :=
    List.mem_map.mp ((hholds.complete place).mpr (lt_size_of_get? hfound))
  obtain ⟨declaration, expectation, hget, hcontent⟩ := hholds.content copy hcopy
  obtain ⟨found', hfound', hdata, -⟩ := content?_eq_some.mp hcontent
  cases hfound.symm.trans hfound'
  refine ⟨copy.source, declaration, Copy.placeOf_source hholds.sources hcopy, hget, ?_, ?_⟩
  · rw [Declaration.kind, hdata]
    exact (Data.kind_mapRefs _ _).trans (Data.kind_mapRefs _ _)
  · rw [Declaration.qualifiedName, hdata]
    rfl

theorem size_eq : tree.size = original.size := by
  rw [← length_eq_size hholds.places hholds.complete, List.length_map,
    ← length_eq_size hholds.sources hholds.covers, List.length_map]

/-- An id that the other tree lacks is no place. -/
theorem placeOf_unknown {id : DeclId} (hget : original.get? id = none) : placeOf copies id = id :=
  Copy.placeOf_unknown fun hid => by
    have hlt := (hholds.covers id).mp hid
    exact absurd (get?_eq_none.mp hget) (Nat.not_le_of_lt hlt)

theorem get?_placeOf {id : DeclId} (hget : original.get? id = none) :
    tree.get? (placeOf copies id) = none := by
  rw [hholds.placeOf_unknown hget, get?_eq_none, hholds.size_eq]
  exact get?_eq_none.mp hget

/-- No two declarations have the same place. -/
theorem placeOf_injective : Function.Injective (placeOf copies) := by
  intro a b hsame
  cases ha : original.get? a with
  | none =>
    cases hb : original.get? b with
    | none => rwa [hholds.placeOf_unknown ha, hholds.placeOf_unknown hb] at hsame
    | some declaration =>
      obtain ⟨found, hfound, -⟩ := hholds.placed hb
      rw [← hsame, hholds.get?_placeOf ha] at hfound
      cases hfound
  | some declaration =>
    obtain ⟨copy, hcopy, rfl⟩ := List.mem_map.mp ((hholds.covers a).mpr (lt_size_of_get? ha))
    cases hb : original.get? b with
    | none =>
      obtain ⟨found, hfound, -⟩ := hholds.placed ha
      rw [hsame, hholds.get?_placeOf hb] at hfound
      cases hfound
    | some declaration' =>
      obtain ⟨copy', hcopy', rfl⟩ := List.mem_map.mp ((hholds.covers b).mpr (lt_size_of_get? hb))
      rw [Copy.placeOf_source hholds.sources hcopy, Copy.placeOf_source hholds.sources hcopy'] at hsame
      exact congrArg Copy.source (List.inj_on_of_nodup_map hholds.places hcopy hcopy' hsame)

/-- A classifier is found at its place. -/
private theorem classifier?_placed {id : DeclId} {declaration : Declaration}
    (hget : original.get? id = some declaration) (hclassifier : declaration.kind.isClassifier = true) :
    tree.classifier? declaration.qualifiedName = some (placeOf copies id) := by
  obtain ⟨found, hfound, hdata, -⟩ := hholds.placed hget
  have hkind : found.kind = declaration.kind := (Data.kind_eq_of_unmarked hdata).trans
    ((Data.kind_mapRefs _ _).trans (Data.kind_mapRefs _ _))
  have hname : found.data.unmarked.qualifiedName = declaration.qualifiedName := by
    rw [hdata]
    rfl
  exact (hholds.index _ _).mpr ⟨found, hfound, hkind ▸ hclassifier, hname⟩

private theorem classifier?_eq (hregular : original.Regular) (name : QualifiedName) :
    tree.classifier? name = (original.classifier? name).map (placeOf copies) := by
  cases hname : original.classifier? name with
  | some id =>
    obtain ⟨declaration, hget, hclassifier, rfl⟩ := hregular.named name id hname
    exact hholds.classifier?_placed hget hclassifier
  | none =>
    cases hfind : tree.classifier? name with
    | none => rfl
    | some place =>
      obtain ⟨found, hfound, hclassifier, rfl⟩ := (hholds.index name place).mp hfind
      obtain ⟨id, declaration, -, hget, hkind, hsame⟩ := hholds.copied hfound
      have hindexed := hregular.indexed id declaration hget (hkind ▸ hclassifier)
      rw [← hsame, hname] at hindexed
      cases hindexed

/-- Detached and linked again, a reference leads to the place of what it led to. -/
private theorem linkRef_detachRef {reference : ClassifierRef} (hbinds : original.Binds reference) :
    tree.linkRef (original.detachRef reference) = reference.moved (placeOf copies) := by
  cases reference with
  | resolved id =>
    obtain ⟨declaration, hget, hclassifier⟩ := hbinds
    have hplaced := hholds.classifier?_placed hget hclassifier
    simp only [detachRef, hget, linkRef, hplaced, ClassifierRef.moved]
  | symbolic name => exact hbinds.elim
  | external name => rfl
  | typeParameter name => rfl

private theorem data_eq (hbound : original.Bound) (id : DeclId) :
    (tree.get? (placeOf copies id)).map (·.data.unmarked) =
      (original.get? id).map (·.data.unmarked.mapRefs (.moved (placeOf copies))) := by
  cases hget : original.get? id with
  | none => rw [hholds.get?_placeOf hget, Option.map_none, Option.map_none]
  | some declaration =>
    obtain ⟨found, hfound, hdata, -⟩ := hholds.placed hget
    have hpayload : declaration.payload.mapRefs (tree.linkRef ∘ original.detachRef) =
        declaration.payload.mapRefs (.moved (placeOf copies)) :=
      Payload.mapRefs_congr fun reference href =>
        hholds.linkRef_detachRef (hbound id declaration hget reference href)
    rw [hfound, Option.map_some, Option.map_some, hdata, Data.unmarked_mapRefs,
      Data.unmarked_mapRefs, Data.mapRefs, Data.mapRefs, Payload.mapRefs_mapRefs, Data.mapRefs]
    exact congrArg some (congrArg (fun payload => { declaration.data.unmarked with payload }) hpayload)

/-- What a declaration owns has its places in the place of the declaration. -/
theorem children_placeOf {id : DeclId} {declaration : Declaration}
    (hget : original.get? id = some declaration) :
    tree.children (placeOf copies id) = (input.children id).map (placeOf copies) := by
  obtain ⟨found, hfound, -, hchildren⟩ := hholds.placed hget
  rw [children_of_get? hfound, hchildren]

theorem roots_eq : tree.roots = input.roots.map (placeOf copies) := by
  rw [hholds.roots, hholds.tops, List.map_map]
  exact List.map_congr_left fun copy hcopy =>
    (Copy.placeOf_source hholds.sources (Copy.mem_walkAll hcopy)).symm

private theorem exists_root (hreorders : input.Reorders original) {root : DeclId}
    (hroot : root ∈ tree.roots) : ∃ source ∈ original.roots, placeOf copies source = root := by
  rw [hholds.roots_eq] at hroot
  obtain ⟨source, hsource, heq⟩ := List.mem_map.mp hroot
  exact ⟨source, hreorders.roots.mem_iff.mp hsource, heq⟩

private theorem container?_eq (howned : original.Owned) (hreorders : input.Reorders original)
    (id : DeclId) :
    tree.container? (placeOf copies id) = (original.container? id).map (placeOf copies) := by
  cases hcontainer : original.container? id with
  | some owner =>
    have hchild := howned.contained id owner hcontainer
    cases hget : original.get? owner with
    | none =>
      rw [children_eq_getD, hget] at hchild
      cases hchild
    | some declaration =>
      refine hholds.owned.listed _ _ ?_
      rw [hholds.children_placeOf hget]
      exact List.mem_map_of_mem ((hreorders.children owner).mem_iff.mpr hchild)
  | none =>
    cases hfind : tree.container? (placeOf copies id) with
    | none => rfl
    | some place =>
      have hlisted := hholds.owned.contained _ _ hfind
      cases hplace : tree.get? place with
      | none =>
        rw [children_eq_getD, hplace] at hlisted
        cases hlisted
      | some found =>
        obtain ⟨owner, declaration, rfl, hget, -⟩ := hholds.copied hplace
        rw [hholds.children_placeOf hget, List.mem_map_of_injective hholds.placeOf_injective] at hlisted
        rw [howned.listed owner id ((hreorders.children owner).mem_iff.mp hlisted)] at hcontainer
        cases hcontainer

section Regular

variable (hregular : original.Regular) (hbound : original.Bound) (hreorders : input.Reorders original)
include hregular hbound hreorders

private theorem mirrors : tree.Mirrors original (placeOf copies) where
  injective := hholds.placeOf_injective
  data := hholds.data_eq hbound
  container := hholds.container?_eq hregular.owned hreorders
  parameters id hfunction := by
    cases hget : original.get? id with
    | none =>
      rw [children_eq_getD, children_eq_getD, hget, hholds.get?_placeOf hget]
      rfl
    | some declaration => rw [hholds.children_placeOf hget, hreorders.parameters id hfunction]
  classifier := hholds.classifier?_eq hregular
  unknown id := hholds.placeOf_unknown

private theorem exists_parameter {id child : DeclId} (hkind : (tree.declaration id).kind = .function)
    (hchild : child ∈ tree.children id) : ∃ function parameter, placeOf copies parameter = child ∧
      (original.declaration function).kind = .function ∧ parameter ∈ original.children function := by
  have hmirrors := hholds.mirrors hregular hbound hreorders
  cases hget : tree.get? id with
  | none =>
    rw [children_eq_getD, hget] at hchild
    cases hchild
  | some declaration =>
    obtain ⟨function, -, rfl, -⟩ := hholds.copied hget
    rw [hmirrors.kind_eq] at hkind
    rw [hmirrors.parameters function hkind] at hchild
    obtain ⟨parameter, hparameter, heq⟩ := List.mem_map.mp hchild
    exact ⟨function, parameter, heq, hkind, hparameter⟩

private theorem mergeable : tree.Mergeable := by
  have hmirrors := hholds.mirrors hregular hbound hreorders
  have hrooted := hregular.mergeable.rooted
  refine ⟨⟨hholds.owned, ?_, fun root hroot => ?_, fun root hroot => ?_⟩,
    fun id declaration hget hkind child hchild => ?_⟩
  · rw [hholds.roots_eq]
    exact (hreorders.roots.nodup_iff.mpr hrooted.distinct).map hholds.placeOf_injective
  · obtain ⟨source, hsource, rfl⟩ := hholds.exists_root hreorders hroot
    obtain ⟨declaration, hget⟩ := hrooted.known source hsource
    obtain ⟨found, hfound, -⟩ := hholds.placed hget
    exact ⟨found, hfound⟩
  · obtain ⟨source, hsource, rfl⟩ := hholds.exists_root hreorders hroot
    rw [hmirrors.container, hrooted.free source hsource]
    rfl
  · rw [← declaration_of_get? hget] at hkind
    rw [← children_of_get? hget] at hchild
    obtain ⟨function, parameter, rfl, hfunction, hparameter⟩ :=
      hholds.exists_parameter hregular hbound hreorders hkind hchild
    have hbare := hregular.mergeable.children_parameter hfunction hparameter
    obtain ⟨-, found, -, hfound, -⟩ := hregular.child_placed hparameter
    rw [hholds.children_placeOf hfound, List.map_eq_nil_iff]
    exact List.perm_nil.mp (hbare ▸ hreorders.children parameter)

/-- Copies of all declarations of a tree mirror it and can be merged as it can. -/
theorem reproduces : tree.Reproduces original (placeOf copies) := by
  have hmirrors := hholds.mirrors hregular hbound hreorders
  refine ⟨hmirrors, hholds.mergeable hregular hbound hreorders, fun side => ?_,
    fun id child hkind hchild => ?_⟩
  · refine checkMergeable_iff.mpr ⟨hholds.owned, fun root hroot => ?_⟩
    obtain ⟨source, hsource, rfl⟩ := hholds.exists_root hreorders hroot
    obtain ⟨declaration, hget, hkind, -⟩ := hregular.roots source hsource
    rw [hmirrors.kind_eq, declaration_of_get? hget, hkind]
  · obtain ⟨function, parameter, rfl, hfunction, hparameter⟩ :=
      hholds.exists_parameter hregular hbound hreorders hkind hchild
    rw [hmirrors.kind_eq]
    exact hregular.parametersAreValues function parameter hfunction hparameter

end Regular

end Tree.HoldsCopies

namespace Placement

variable {sides : Sides} {output : Output} {pick : Origin → Option DeclId} {original input : Tree}
  {origins : List Origin} {forest : MergedForest} {placement : Placement}

/-- If a forest carries all declarations of a tree, the output holds copies of them, and nothing
else. -/
theorem fill_holdsCopies (hcarries : Carries sides output pick original input origins)
    (hforest : forest.roots = Origin.nodes sides origins)
    (hcovers : ∀ id declaration, original.get? id = some declaration →
      id ∈ (Origin.walkAll origins).filterMap pick)
    (hplacement : ofForest forest = .ok placement) {options : CompiledOptions} {filling : Filling}
    (hfilling : Filling.visitAll ⟨placement.trees, []⟩ ⟨placement.registry, options⟩
      (.replicate none) forest.roots = .ok filling) :
    ∃ copies, (filling.trees.get output).HoldsCopies original input copies := by
  obtain ⟨copies, ⟨htops, hsources, hfits, hgrows⟩, hroots⟩ :=
    fill_copies hcarries hforest hplacement hfilling
  obtain ⟨_, -, hholds, hindex, hfilled⟩ := fill_stands hplacement hfilling output
  refine ⟨copies, hsources ▸ hcarries.distinct, hgrows.distinct, fun id => ?_, fun id => ?_,
    fun copy hcopy => ?_, fun copy hcopy => (hfits copy hcopy).sources, hcarries.roots.trans htops.symm,
    hroots, Tree.checkOwnership_iff.mp hholds.owned, hholds.index⟩
  · rw [hsources]
    refine ⟨fun hid => ?_, fun hid => ?_⟩
    · obtain ⟨origin, horigin, hpick⟩ := List.mem_filterMap.mp hid
      obtain ⟨declaration, hget⟩ := (hcarries.follows origin horigin).known id hpick
      exact Tree.lt_size_of_get? hget
    · exact hcovers id _ (Array.getElem?_eq_getElem hid)
  · -- nothing was settled before, and every placeholder is settled now
    refine ⟨fun hid => (hgrows.fresh id hid).2.1, fun hid => ?_⟩
    refine (hgrows.only id ⟨hid, hfilled id⟩).resolve_left fun hbefore => ?_
    exact List.not_mem_nil (hbefore.2 hbefore.1)
  · obtain ⟨-, data, ⟨⟨declaration, bound, expectation, hget, hbound, rfl⟩, -⟩, hcontent⟩ :=
      hfits copy hcopy
    exact ⟨declaration, expectation, hget, hcontent.trans (by rw [linked_of_data hindex hbound])⟩

/-- The output lists what a declaration owns in the order of the forest. -/
theorem Carries.listed (hcarries : Carries sides output pick original input origins) {tree : Tree}
    {copies : List Copy} (hholds : tree.HoldsCopies original input copies) {origin : Origin}
    (horigin : origin ∈ Origin.walkAll origins) {id : DeclId} (hid : pick origin = some id) :
    tree.children (placeOf copies id) = (origin.children.filterMap pick).map (placeOf copies) := by
  obtain ⟨hknown, hchildren⟩ := hcarries.follows origin horigin
  obtain ⟨declaration, hget⟩ := hknown id hid
  rw [hholds.children_placeOf hget, hchildren, hid, Option.elim_some]

end Placement

end Concord
