import Concord.Proofs.Output.Copying
import Concord.Proofs.Output.Placing
import Concord.Proofs.Output.Rebinding
import Concord.Proofs.Tree.Descent
import Mathlib.Data.List.Basic

namespace Concord

namespace Source

mutual
/-- A source without expectations, here and in all members. -/
def erased : Source → Source
  | mk name visibility modality _ payload members =>
    mk name visibility modality .plain payload (erasedAll members)
/-- Some sources without expectations. -/
def erasedAll : List Source → List Source
  | [] => []
  | source :: sources => erased source :: erasedAll sources
end

end Source

open Source (erased erasedAll)

/-- A tree with the same declarations, which may hang together in another order. -/
def Tree.Rearranges (tree original : Tree) : Prop :=
  ∀ id, tree.get? id =
    (original.get? id).map fun declaration => { declaration with children := tree.children id }

namespace Tree

variable {tree original : Tree}

theorem Rearranges.refl (tree : Tree) : tree.Rearranges tree := by
  intro id
  rw [children]
  cases tree.get? id <;> rfl

theorem Rearranges.size_eq (hsame : tree.Rearranges original) {id : DeclId}
    {declaration : Declaration} (hget : original.get? id = some declaration) :
    id.index < tree.size := by
  have hget' := hsame id
  rw [hget, Option.map_some] at hget'
  exact lt_size_of_get? hget'

theorem Rearranges.payloadSource_eq (hsame : tree.Rearranges original)
    (payload : Payload ClassifierRef) :
    tree.payloadSource payload = original.payloadSource payload := by
  have hname (reference : ClassifierRef) : tree.nameOf? reference = original.nameOf? reference := by
    cases reference with
    | resolved id =>
      rw [nameOf?, nameOf?, hsame id, Option.map_map]
      rfl
    | _ => rfl
  have hspell : tree.spell = original.spell := by
    funext reference
    cases reference with
    | typeParameter name => rfl
    | _ => simp only [spell, hname]
  have htype : tree.typeSource = original.typeSource := by
    funext type
    rw [typeSource, hspell, typeSource]
  cases payload with
  | typeAlias info => simp only [payloadSource, aliasSource, htype]
  | _ => simp only [payloadSource, htype]

end Tree

namespace Copy

variable {binding : Binding} {output : Output} {input tree original : Tree}

/-- The source of a copy is that of its declaration. -/
private theorem source_eq (hnamed : binding.NamedIn output tree) (hsame : input.Rearranges original)
    (hlegible : ∀ id declaration, original.get? id = some declaration →
      original.Legible declaration.payload) {copy : Copy}
    (hfits : copy.Fits (binding.Alike output original) input.children tree) (depth levels : Nat)
    (hbelow : erasedAll ((copy.copies.map place).filterMap (tree.sourceWithin depth)) =
      erasedAll ((copy.copies.map source).filterMap (input.sourceWithin levels))) :
    (tree.sourceWithin (depth + 1) copy.place).map erased =
      (input.sourceWithin (levels + 1) copy.source).map erased ∧
      ((input.sourceWithin (levels + 1) copy.source).map erased).isSome := by
  obtain ⟨hsources, data, ⟨⟨declaration, bound, expectation, hget, hbound, rfl⟩, -⟩, hcontent⟩ :=
    hfits
  obtain ⟨placed, hplaced, hdata, hchildren⟩ := Tree.content?_eq_some.mp hcontent
  have hinput := hsame copy.source
  rw [hget, Option.map_some] at hinput
  have hpayload : tree.payloadSource bound.payload = input.payloadSource declaration.data.payload := by
    rw [hsame.payloadSource_eq]
    exact binding.data_source hnamed (hlegible _ _ hget) hbound
  obtain ⟨-, hattributes⟩ := Binding.data_eq_ok hbound
  have hname : bound.name = declaration.data.name := by
    rw [hattributes]
    rfl
  have hvisibility : bound.visibility = declaration.data.visibility := by
    rw [hattributes]
    rfl
  have hmodality : bound.modality = declaration.data.modality := by
    rw [hattributes]
    rfl
  rw [Tree.sourceWithin_of_get? hplaced, Tree.sourceWithin_of_get? hinput, hdata, hchildren]
  simp only [Option.map_some, Option.isSome_some, and_true, erased, hbelow, hpayload, hsources,
    hname, hvisibility, hmodality]

mutual
private theorem walk_source (hnamed : binding.NamedIn output tree)
    (hsame : input.Rearranges original)
    (hlegible : ∀ id declaration, original.get? id = some declaration →
      original.Legible declaration.payload) : ∀ (copy : Copy) {depth levels : Nat},
    (∀ below ∈ walk copy, below.Fits (binding.Alike output original) input.children tree) →
    (walk copy).length ≤ depth → (walk copy).length ≤ levels →
    (tree.sourceWithin depth copy.place).map erased =
      (input.sourceWithin levels copy.source).map erased ∧
      ((input.sourceWithin levels copy.source).map erased).isSome
  | mk source place copies, depth, levels, hfits, hdepth, hlevels => by
    rw [walk] at hfits
    obtain ⟨hself, hbelow⟩ := List.forall_mem_cons.mp hfits
    rw [walk, List.length_cons] at hdepth hlevels
    obtain ⟨depth, rfl⟩ : ∃ rest, depth = rest + 1 := ⟨depth - 1, by omega⟩
    obtain ⟨levels, rfl⟩ : ∃ rest, levels = rest + 1 := ⟨levels - 1, by omega⟩
    have hcopies := walkAll_source hnamed hsame hlegible copies hbelow
      (Nat.le_of_succ_le_succ hdepth) (Nat.le_of_succ_le_succ hlevels)
    exact source_eq hnamed hsame hlegible hself depth levels hcopies
/-- The sources of some copies are those of their declarations, as far down as the copies go. -/
theorem walkAll_source (hnamed : binding.NamedIn output tree)
    (hsame : input.Rearranges original)
    (hlegible : ∀ id declaration, original.get? id = some declaration →
      original.Legible declaration.payload) : ∀ (copies : List Copy) {depth levels : Nat},
    (∀ below ∈ walkAll copies, below.Fits (binding.Alike output original) input.children tree) →
    (walkAll copies).length ≤ depth → (walkAll copies).length ≤ levels →
    erasedAll ((copies.map place).filterMap (tree.sourceWithin depth)) =
      erasedAll ((copies.map source).filterMap (input.sourceWithin levels))
  | [], _, _, _, _, _ => by simp only [List.map_nil, List.filterMap_nil]
  | copy :: copies, depth, levels, hfits, hdepth, hlevels => by
    rw [walkAll] at hfits hdepth hlevels
    rw [List.length_append] at hdepth hlevels
    obtain ⟨hfirst, hrest⟩ := List.forall_mem_append.mp hfits
    obtain ⟨hcopy, hsome⟩ := walk_source hnamed hsame hlegible copy hfirst
      (Nat.le_of_add_right_le hdepth) (Nat.le_of_add_right_le hlevels)
    have hcopies := walkAll_source hnamed hsame hlegible copies hrest
      (Nat.le_trans (Nat.le_add_left _ _) hdepth) (Nat.le_trans (Nat.le_add_left _ _) hlevels)
    cases hsource : input.sourceWithin levels copy.source with
    | none =>
      rw [hsource] at hsome
      cases hsome
    | some written =>
      rw [hsource] at hcopy
      obtain ⟨found, hfound, heq⟩ := Option.map_eq_some_iff.mp hcopy
      simp only [List.map_cons, List.filterMap_cons, hfound, hsource, erasedAll, heq, hcopies]
end

end Copy

theorem Copy.mem_walkAll {copy : Copy} {copies : List Copy} (hcopy : copy ∈ copies) :
    copy ∈ Copy.walkAll copies := by
  induction copies with
  | nil => cases hcopy
  | cons top copies ih =>
    rw [Copy.walkAll]
    obtain rfl | hcopy := List.mem_cons.mp hcopy
    · cases copy
      exact List.mem_append_left _ List.mem_cons_self
    · exact List.mem_append_right _ (ih hcopy)

namespace Placement

/-- The declarations of a side, as they hang together in a tree, stand behind the nodes of a forest. -/
structure Carries (sides : Sides) (output : Output) (pick : Origin → Option DeclId)
    (original input : Tree) (origins : List Origin) : Prop where
  payload : ∀ origin : Origin,
    (origin.node sides).payloads.get output = (pick origin).bind original.detached?
  same : input.Rearranges original
  roots : input.roots = origins.filterMap pick
  follows : ∀ origin ∈ Origin.walkAll origins, origin.Follows pick original input.children
  distinct : ((Origin.walkAll origins).filterMap pick).Nodup
  legible : ∀ id declaration, original.get? id = some declaration →
    original.Legible declaration.payload
  modules : ∀ origin ∈ origins, ∀ id, pick origin = some id →
    (original.declaration id).kind = .module ∧ (origin.node sides).kind? = some .module
  inner : ∀ origin ∈ Origin.walkAll origins, ∀ below ∈ origin.children, ∀ id,
    pick below = some id → (original.declaration id).kind ≠ .module

variable {sides : Sides} {output : Output} {pick : Origin → Option DeclId} {original input : Tree}
  {origins : List Origin} {forest : MergedForest} {placement : Placement}

namespace Carries

variable (hcarries : Carries sides output pick original input origins)
include hcarries

private theorem payload_data {origin : Origin} {data : Data}
    (hdata : (origin.node sides).payloads.get output = some data) :
    ∃ id, pick origin = some id ∧ data.kind = (original.declaration id).kind := by
  rw [hcarries.payload] at hdata
  obtain ⟨id, hpick, hdetached⟩ := Option.bind_eq_some_iff.mp hdata
  obtain ⟨declaration, hget, rfl⟩ := Option.map_eq_some_iff.mp hdetached
  refine ⟨id, hpick, ?_⟩
  rw [Tree.declaration_of_get? hget, Data.kind_mapRefs]
  rfl

private theorem roots_placed (hforest : forest.roots = Origin.nodes sides origins)
    (hplacement : ofForest forest = .ok placement) :
    (placement.trees.get output).roots.map some =
      (input.roots.filterMap original.detached?).map fun data =>
        placement.registry.find? .module data.qualifiedName output := by
  have htop : ∀ node ∈ forest.roots, ∀ data, node.payloads.get output = some data →
      data.kind = .module ∧ node.kind? = some .module := by
    intro node hnode data hdata
    rw [hforest, Origin.nodes_eq_map] at hnode
    obtain ⟨origin, horigin, rfl⟩ := List.mem_map.mp hnode
    obtain ⟨id, hpick, hkind⟩ := hcarries.payload_data hdata
    obtain ⟨hmodule, hnode⟩ := hcarries.modules origin horigin id hpick
    exact ⟨hkind.trans hmodule, hnode⟩
  have hbelow : ∀ node ∈ forest.roots, ∀ below ∈ MergedNode.walkAll node.children, ∀ data,
      below.payloads.get output = some data → data.kind ≠ .module := by
    intro node hnode below hbelow data hdata
    rw [hforest, Origin.nodes_eq_map] at hnode
    obtain ⟨top, htop, rfl⟩ := List.mem_map.mp hnode
    have hchildren : (top.node sides).children = Origin.nodes sides top.children := by
      cases top
      rfl
    rw [hchildren, Origin.walkAll_nodes] at hbelow
    obtain ⟨origin, horigin, rfl⟩ := List.mem_map.mp hbelow
    obtain ⟨id, hpick, hkind⟩ := hcarries.payload_data hdata
    have hwalked : ∀ below ∈ Origin.walk top, below ∈ Origin.walkAll origins := fun below hbelow =>
      Origin.mem_walkAll.mpr ⟨top, htop, hbelow⟩
    rw [hkind]
    obtain hchild | ⟨parent, hparent, hchild⟩ := Origin.walkAll_parent top.children horigin
    · exact hcarries.inner top (hwalked top (Origin.mem_walk_self top)) origin hchild id hpick
    · exact hcarries.inner parent (hwalked parent (Origin.mem_walk.mpr (.inr hparent))) origin hchild
        id hpick
  rw [ofForest_roots hplacement htop hbelow, hforest, Origin.nodes_eq_map, hcarries.roots,
    List.filterMap_map, List.filterMap_filterMap]
  congr 2
  exact funext hcarries.payload

/-- The roots of an output are the copies of the roots. -/
private theorem roots_copied {binding : Binding} {tree : Tree} {copies : List Copy}
    (hregistry : binding.registry = placement.registry)
    (hforest : forest.roots = Origin.nodes sides origins)
    (hplacement : ofForest forest = .ok placement)
    (htops : copies.map Copy.source = origins.filterMap pick)
    (hfits : ∀ copy ∈ copies,
      copy.Fits (binding.Alike output original) input.children tree) :
    (placement.trees.get output).roots = copies.map Copy.place := by
  have hplaces : ∀ copy ∈ copies, (original.detached? copy.source).map (fun data =>
      placement.registry.find? .module data.qualifiedName output) = some (some copy.place) := by
    intro copy hcopy
    obtain ⟨-, data, ⟨⟨declaration, bound, expectation, hget, hbound, rfl⟩, hplace⟩, -⟩ :=
      hfits copy hcopy
    have hsource : copy.source ∈ origins.filterMap pick := htops ▸ List.mem_map_of_mem hcopy
    obtain ⟨origin, horigin, hpick⟩ := List.mem_filterMap.mp hsource
    have hmodule := (hcarries.modules origin horigin _ hpick).1
    rw [Tree.declaration_of_get? hget] at hmodule
    have hkind : bound.kind = .module :=
      (Binding.data_kind hbound).trans ((Data.kind_mapRefs _ _).trans hmodule)
    have hattributes := (Binding.data_eq_ok hbound).2
    have hname : bound.qualifiedName = declaration.qualifiedName := by
      rw [hattributes]
      rfl
    have hfound := hplace (by
      show bound.kind.isRegistered = true
      rw [hkind]
      rfl)
    rw [hregistry] at hfound
    rw [Tree.detached?, hget, Option.map_some, Option.map_some]
    refine congrArg some (Eq.trans ?_ hfound)
    show placement.registry.find? .module declaration.qualifiedName output =
      placement.registry.find? bound.kind bound.qualifiedName output
    rw [hkind, hname]
  have hroots := hcarries.roots_placed hforest hplacement
  rw [hcarries.roots, ← htops, List.filterMap_map, List.map_filterMap] at hroots
  have hmapped : copies.filterMap (fun copy => (original.detached? copy.source).map fun data =>
      placement.registry.find? .module data.qualifiedName output) =
      (copies.map Copy.place).map some := by
    rw [List.filterMap_congr hplaces, List.map_map]
    exact congrFun List.filterMap_eq_map' copies
  exact (List.map_inj_right fun _ _ => Option.some.inj).mp (hroots.trans hmapped)

end Carries

/-- Filling an output puts in a copy of every declaration that the forest carries for it. -/
theorem fill_copies (hcarries : Carries sides output pick original input origins)
    (hforest : forest.roots = Origin.nodes sides origins)
    (hplacement : ofForest forest = .ok placement) {options : CompiledOptions} {filling : Filling}
    (hfilling : Filling.visitAll ⟨placement.trees, []⟩ ⟨placement.registry, options⟩
      (.replicate none) forest.roots = .ok filling) :
    ∃ copies, Part.Copied (placement.trees.get output).size
      (Binding.Alike ⟨placement.registry, options⟩ output original) input.children pick none
      ((⟨placement.trees, []⟩ : Filling).part output) (filling.part output) origins copies ∧
      (filling.trees.get output).roots = copies.map Copy.place := by
  have hbare := ofForest_bare hplacement output
  rw [hforest] at hfilling
  obtain ⟨copies, hcopied⟩ :=
    Filling.visitAll_copies hcarries.payload (fun _ _ _ => hbare.index_lt) origins hcarries.follows
      hbare.steady (by rw [PerOutput.get_replicate]; rintro owner ⟨⟩) hfilling
  rw [PerOutput.get_replicate] at hcopied
  refine ⟨copies, hcopied, hcopied.grows.roots.trans ?_⟩
  exact hcarries.roots_copied rfl hforest hplacement hcopied.tops fun copy hcopy =>
    hcopied.fits copy (Copy.mem_walkAll hcopy)

/-- An output has the sources of the declarations that the forest carries for it. -/
theorem fill_sources (hcarries : Carries sides output pick original input origins)
    (hforest : forest.roots = Origin.nodes sides origins)
    (hplacement : ofForest forest = .ok placement) {options : CompiledOptions}
    {trees : OutputTrees} (hfill : placement.fill options forest = .ok trees) :
    erasedAll (trees.get output).toSources = erasedAll input.toSources := by
  have hbare := ofForest_bare hplacement output
  obtain ⟨filling, hfilling, heq⟩ := Except.bind_eq_ok.mp hfill
  cases heq
  obtain ⟨copies, ⟨htops, hsources, hfits, hgrows⟩, hroots⟩ :=
    fill_copies hcarries hforest hplacement hfilling
  have hnamed : (⟨placement.registry, options⟩ : Binding).NamedIn output
      (filling.trees.get output) := by
    intro name id hfind
    obtain ⟨declaration, hget, -, hname⟩ := hbare.named .classType name id hfind
    obtain ⟨declaration', hget', hname'⟩ := hgrows.named id declaration hget
    exact ⟨declaration', hget', hname'.trans hname⟩
  have hplaces : (Copy.walkAll copies).length ≤ (filling.trees.get output).size := by
    rw [← List.length_map Copy.place]
    exact Tree.length_le_size hgrows.distinct fun id hid => (hgrows.fresh id hid).2.1
  have hinput : (Copy.walkAll copies).length ≤ input.size := by
    rw [← List.length_map Copy.source]
    refine Tree.length_le_size (hsources ▸ hcarries.distinct) fun id hid => ?_
    rw [hsources] at hid
    obtain ⟨origin, horigin, hpick⟩ := List.mem_filterMap.mp hid
    obtain ⟨declaration, hget⟩ := (hcarries.follows origin horigin).known id hpick
    exact hcarries.same.size_eq hget
  have hwritten := Copy.walkAll_source hnamed hcarries.same hcarries.legible copies hfits hplaces
    hinput
  rwa [← hroots, htops, ← hcarries.roots] at hwritten

end Placement

end Concord
