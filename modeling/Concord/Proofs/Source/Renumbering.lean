import Concord.Proofs.Source.Pairing
import Concord.Proofs.Tree.Mirroring

namespace Concord

namespace Tree

/-- A tree has the declarations of another under other ids. Ids that no declaration bears stay. -/
structure Renumbers (again tree : Tree) (place : DeclId → DeclId) : Prop where
  bijective : Function.Bijective place
  unknown : ∀ id, tree.get? id = none → place id = id
  declaration : ∀ id, again.get? (place id) = (tree.get? id).map fun declaration =>
    ⟨declaration.data.mapRefs (.moved place), declaration.container.map place,
      declaration.children.map place⟩
  roots : again.roots = tree.roots.map place
  classifier : ∀ name, again.classifier? name = (tree.classifier? name).map place

private theorem eq_map_of_zip {place : DeclId → DeclId} {ids others : List DeclId}
    (hlength : ids.length = others.length)
    (hpairs : ∀ id other, (id, other) ∈ ids.zip others → place id = other) :
    others = ids.map place := by
  have hforall : List.Forall₂ (fun id other => place id = other) ids others :=
    List.forall₂_iff_zip.mpr ⟨hlength, fun {id other} hpair => hpairs id other hpair⟩
  rw [← List.forall₂_map_left_iff, List.forall₂_eq_eq_eq] at hforall
  exact hforall.symm

/-- Reading a spelling in a tree whose index leads elsewhere leads elsewhere. -/
private theorem linkRef_bound_moved {tree again : Tree} {place : DeclId → DeclId}
    (hclassifier : ∀ name, again.classifier? name = (tree.classifier? name).map place)
    (spelling : Spelling) :
    again.linkRef (Source.bound spelling) = (tree.linkRef (Source.bound spelling)).moved place := by
  obtain ⟨_ | name, _ | parameter⟩ := spelling
  · rfl
  · rfl
  all_goals
    rw [Source.bound, linkRef, linkRef, hclassifier name]
    cases tree.classifier? name with
    | none => rfl
    | some id => rfl

/-- Two trees that are written as the same sources, with a map that follows the pairs of their
declarations. -/
private structure Corresponds (again tree : Tree) (place : DeclId → DeclId) : Prop where
  written : tree.Writable
  rewritten : again.Writable
  same : again.toSources = tree.toSources
  paired : ∀ id, (tree.get? id = none ∧ place id = id) ∨ tree.Paired again id (place id)

namespace Corresponds

variable {tree again : Tree} {place : DeclId → DeclId} (hmaps : Corresponds again tree place)
include hmaps

private theorem known {id other : DeclId} (hpaired : tree.Paired again id other) :
    ∃ declaration declaration', tree.get? id = some declaration ∧
      again.get? other = some declaration' :=
  hpaired.known hmaps.written.rooted hmaps.rewritten.rooted hmaps.same

private theorem paired_of_get? {id : DeclId} {declaration : Declaration}
    (hget : tree.get? id = some declaration) : tree.Paired again id (place id) := by
  obtain ⟨hnone, -⟩ | hpaired := hmaps.paired id
  · rw [hnone] at hget
    cases hget
  · exact hpaired

private theorem place_of_paired {id other : DeclId} (hpaired : tree.Paired again id other) :
    place id = other := by
  obtain ⟨declaration, -, hget, -⟩ := hmaps.known hpaired
  exact (hmaps.paired_of_get? hget).unique hmaps.written.rooted hpaired

private theorem exists_before {id : DeclId} {declaration : Declaration}
    (hget : again.get? id = some declaration) :
    ∃ before found, tree.get? before = some found ∧ place before = id := by
  obtain ⟨before, hpaired⟩ := (hmaps.rewritten.reachable id declaration hget).exists_paired
    hmaps.rewritten.rooted hmaps.written.rooted hmaps.same.symm
  obtain ⟨found, -, hfound, -⟩ := hmaps.known hpaired.swap
  exact ⟨before, found, hfound, hmaps.place_of_paired hpaired.swap⟩

private theorem injective_known {id other : DeclId} {declaration declaration' : Declaration}
    (hget : tree.get? id = some declaration) (hget' : tree.get? other = some declaration')
    (heq : place id = place other) : id = other := by
  -- seen from the other tree, both are paired with one declaration
  have hfirst := (hmaps.paired_of_get? hget).swap
  rw [heq] at hfirst
  exact hfirst.unique hmaps.rewritten.rooted (hmaps.paired_of_get? hget').swap

private theorem size_eq : again.size = tree.size := by
  have hknown (index : Nat) (hindex : index ∈ List.range tree.size) :
      ∃ declaration, tree.get? ⟨index⟩ = some declaration :=
    ⟨_, Array.getElem?_eq_getElem (List.mem_range.mp hindex)⟩
  have hnodup : ((List.range tree.size).map fun index => place ⟨index⟩).Nodup := by
    refine List.pairwise_map.mpr (List.nodup_range.imp_of_mem fun {i j} hi hj hne heq => hne ?_)
    obtain ⟨declaration, hget⟩ := hknown i hi
    obtain ⟨declaration', hget'⟩ := hknown j hj
    exact DeclId.mk.inj (hmaps.injective_known hget hget' heq)
  have hall (id : DeclId) :
      (id ∈ (List.range tree.size).map fun index => place ⟨index⟩) ↔ id.index < again.size := by
    rw [List.mem_map]
    constructor
    · rintro ⟨index, hindex, rfl⟩
      obtain ⟨declaration, hget⟩ := hknown index hindex
      obtain ⟨-, found, -, hfound⟩ := hmaps.known (hmaps.paired_of_get? hget)
      exact lt_size_of_get? hfound
    · intro hindex
      obtain ⟨before, found, hfound, hbefore⟩ :=
        hmaps.exists_before (Array.getElem?_eq_getElem hindex)
      exact ⟨before.index, List.mem_range.mpr (lt_size_of_get? hfound), hbefore⟩
  rw [← length_eq_size hnodup hall, List.length_map, List.length_range]

private theorem get?_eq_none {id : DeclId} : again.get? id = none ↔ tree.get? id = none := by
  rw [Tree.get?_eq_none, Tree.get?_eq_none, hmaps.size_eq]

private theorem place_of_unknown {id : DeclId} (hnone : tree.get? id = none) : place id = id := by
  obtain ⟨-, hplace⟩ | hpaired := hmaps.paired id
  · exact hplace
  · obtain ⟨declaration, -, hget, -⟩ := hmaps.known hpaired
    rw [hnone] at hget
    cases hget

/-- What is unknown stays unknown. -/
private theorem get?_place_eq_none {id : DeclId} :
    again.get? (place id) = none ↔ tree.get? id = none := by
  constructor
  · intro hnone
    cases hget : tree.get? id with
    | none => rfl
    | some declaration =>
      obtain ⟨-, found, -, hfound⟩ := hmaps.known (hmaps.paired_of_get? hget)
      rw [hnone] at hfound
      cases hfound
  · intro hnone
    rwa [hmaps.place_of_unknown hnone, hmaps.get?_eq_none]

private theorem bijective : Function.Bijective place := by
  constructor
  · intro id other heq
    have hknown : tree.get? id = none ↔ tree.get? other = none := by
      rw [← hmaps.get?_place_eq_none, heq, hmaps.get?_place_eq_none]
    cases hget : tree.get? id with
    | none =>
      rwa [hmaps.place_of_unknown hget, hmaps.place_of_unknown (hknown.mp hget)] at heq
    | some declaration =>
      cases hget' : tree.get? other with
      | none =>
        rw [hknown.mpr hget'] at hget
        cases hget
      | some declaration' => exact hmaps.injective_known hget hget' heq
  · intro id
    cases hget : again.get? id with
    | none => exact ⟨id, hmaps.place_of_unknown (hmaps.get?_eq_none.mp hget)⟩
    | some declaration =>
      obtain ⟨before, -, -, hbefore⟩ := hmaps.exists_before hget
      exact ⟨before, hbefore⟩

private theorem roots_eq : again.roots = tree.roots.map place := by
  refine eq_map_of_zip (Paired.roots_length hmaps.written.rooted hmaps.rewritten.rooted hmaps.same)
    fun id other hpair => ?_
  exact hmaps.place_of_paired (.root hpair)

private theorem children_eq {id other : DeclId} (hpaired : tree.Paired again id other) :
    again.children other = (tree.children id).map place := by
  refine eq_map_of_zip (hpaired.children_length hmaps.written.rooted hmaps.rewritten.rooted
    hmaps.same) fun child below hpair => ?_
  exact hmaps.place_of_paired (.child hpaired hpair)

private theorem container?_eq {id other : DeclId} (hpaired : tree.Paired again id other) :
    again.container? other = (tree.container? id).map place := by
  cases hpaired with
  | root hpair =>
    rw [hmaps.written.rooted.free _ (List.of_mem_zip hpair).1,
      hmaps.rewritten.rooted.free _ (List.of_mem_zip hpair).2, Option.map_none]
  | child hparent hpair =>
    rw [hmaps.written.rooted.owned.listed _ _ (List.of_mem_zip hpair).1,
      hmaps.rewritten.rooted.owned.listed _ _ (List.of_mem_zip hpair).2, Option.map_some,
      hmaps.place_of_paired hparent]

/-- A name leads to paired declarations, if it is borne by one declaration only. -/
private theorem classifier?_eq (hfinds : tree.FindsAll) (name : QualifiedName) :
    again.classifier? name = (tree.classifier? name).map place := by
  have hfound {id : DeclId} (hname : again.classifier? name = some id) :
      ∃ before, tree.classifier? name = some before ∧ place before = id := by
    obtain ⟨declaration', hget', hclassifier, rfl⟩ := hmaps.rewritten.named name id hname
    obtain ⟨before, declaration, hget, rfl⟩ := hmaps.exists_before hget'
    have hpaired := hmaps.paired_of_get? hget
    rw [hpaired.kind_eq hmaps.written hmaps.rewritten hmaps.same hget hget'] at hclassifier
    rw [hpaired.qualifiedName_eq hmaps.written hmaps.rewritten hmaps.same hget hget']
    exact ⟨before, hfinds before declaration hget hclassifier, rfl⟩
  cases hname : tree.classifier? name with
  | none =>
    rw [Option.map_none]
    by_contra hne
    obtain ⟨id, hagain⟩ := Option.ne_none_iff_exists'.mp hne
    obtain ⟨before, hbefore, -⟩ := hfound hagain
    rw [hname] at hbefore
    cases hbefore
  | some id =>
    obtain ⟨declaration, hget, hclassifier, rfl⟩ := hmaps.written.named name id hname
    have hpaired := hmaps.paired_of_get? hget
    obtain ⟨-, declaration', -, hget'⟩ := hmaps.known hpaired
    rw [← hpaired.kind_eq hmaps.written hmaps.rewritten hmaps.same hget hget'] at hclassifier
    have hindexed := hmaps.rewritten.indexed _ declaration' hget' hclassifier
    rw [hpaired.qualifiedName_eq hmaps.written hmaps.rewritten hmaps.same hget hget'] at hindexed
    obtain ⟨other, hother⟩ := Option.isSome_iff_exists.mp hindexed
    obtain ⟨before, hbefore, rfl⟩ := hfound hother
    rw [hname] at hbefore
    cases hbefore
    rw [hother, Option.map_some]

/-- Each reference leads to what it led to. -/
private theorem payload_eq (hfinds : tree.FindsAll) {id other : DeclId}
    (hpaired : tree.Paired again id other) {declaration declaration' : Declaration}
    (hget : tree.get? id = some declaration) (hget' : again.get? other = some declaration') :
    declaration'.payload = declaration.payload.mapRefs (.moved place) := by
  have hread := Payload.mapRefs_congr (g := fun reference => reference)
    (hmaps.rewritten.spells other declaration' hget')
  have hspelled := hpaired.payload_spelled hmaps.written hmaps.rewritten hmaps.same hget hget'
  have hmoved (reference : ClassifierRef) (href : reference ∈ declaration.payload.refs) :
      again.linkRef (Source.bound (tree.spell reference)) = reference.moved place := by
    rw [linkRef_bound_moved (hmaps.classifier?_eq hfinds),
      hmaps.written.spells id declaration hget reference href]
  calc
    declaration'.payload =
        (declaration'.payload.mapRefs again.spell).mapRefs (again.linkRef ∘ Source.bound) := by
      rw [Payload.mapRefs_mapRefs]
      exact ((Payload.mapRefs_id _).symm.trans hread.symm)
    _ = declaration.payload.mapRefs ((again.linkRef ∘ Source.bound) ∘ tree.spell) := by
      rw [hspelled, Payload.mapRefs_mapRefs]
    _ = declaration.payload.mapRefs (.moved place) := Payload.mapRefs_congr hmoved

end Corresponds

/-- Two trees that are written as the same sources differ in their ids only, if the index of one
finds all its classifiers. -/
theorem Writable.renumbers {tree again : Tree} (htree : tree.Writable) (hagain : again.Writable)
    (hfinds : tree.FindsAll) (hsame : again.toSources = tree.toSources) :
    ∃ place, again.Renumbers tree place := by
  -- the map follows the pairs, and leaves alone what the tree does not know
  have hpaired (id : DeclId) :
      ∃ other, (tree.get? id = none ∧ other = id) ∨ tree.Paired again id other := by
    cases hget : tree.get? id with
    | none => exact ⟨id, .inl ⟨rfl, rfl⟩⟩
    | some declaration =>
      obtain ⟨other, hpaired⟩ := (htree.reachable id declaration hget).exists_paired htree.rooted
        hagain.rooted hsame
      exact ⟨other, .inr hpaired⟩
  obtain ⟨place, hplace⟩ := Classical.axiomOfChoice hpaired
  have hmaps : Corresponds again tree place := ⟨htree, hagain, hsame, hplace⟩
  refine ⟨place, hmaps.bijective, fun id => hmaps.place_of_unknown, fun id => ?_,
    hmaps.roots_eq, hmaps.classifier?_eq hfinds⟩
  cases hget : tree.get? id with
  | none =>
    rw [Option.map_none, hmaps.get?_place_eq_none, hget]
  | some declaration =>
    have hpaired := hmaps.paired_of_get? hget
    obtain ⟨-, declaration', -, hget'⟩ := hmaps.known hpaired
    have hdata := hpaired.data_eq htree hagain hsame hget hget'
      (hmaps.payload_eq hfinds hpaired hget hget')
    have hchildren := hmaps.children_eq hpaired
    have hcontainer := hmaps.container?_eq hpaired
    rw [children_of_get? hget, children_of_get? hget'] at hchildren
    rw [container?, container?, hget, hget', Option.bind_some, Option.bind_some] at hcontainer
    rw [hget', Option.map_some, ← hdata, ← hchildren, ← hcontainer]

end Tree

end Concord
