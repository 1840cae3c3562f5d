import Concord.Proofs.Output.Closed
import Concord.Proofs.Output.Resting
import Concord.Proofs.Source.References

namespace Concord

open Standing (walkAll)

/-- A tree holds what some nodes, standing in it at their places, have in an output. -/
structure Tree.Holds (tree : Tree) (options : CompiledOptions) (output : Output)
    (standings : List Standing) : Prop where
  /-- A node has a place when it has data. -/
  placed : ∀ standing ∈ walkAll standings,
    standing.place.isSome = (standing.payloads.get output).isSome
  /-- No two nodes have the same place. -/
  distinct : ((walkAll standings).filterMap Standing.place).Nodup
  /-- Every declaration is the place of a node. -/
  complete : ∀ id, id ∈ (walkAll standings).filterMap Standing.place ↔ id.index < tree.size
  /-- A declaration holds the data of its node, marked for the output and linked to the classifiers
  of the tree, and lists the places of the nodes below its own. -/
  content : ∀ standing ∈ walkAll standings, ∀ payload id,
    standing.payloads.get output = some payload → standing.place = some id →
      tree.content? id = some ({ payload.mapRefs tree.linkRef with
          expectation := expectationOf standing.payloads.common.isSome output payload.kind },
        standing.members.filterMap Standing.place)
  /-- Only what is built in is linked to nothing in the tree, and nothing was linked before. -/
  linked : ∀ standing ∈ walkAll standings, ∀ payload,
    standing.payloads.get output = some payload → ∀ reference ∈ payload.payload.refs,
      (∀ id, reference ≠ .resolved id) ∧ ∀ name, reference = .symbolic name →
        tree.classifier? name = none → options.isBuiltin name = true
  /-- The index finds the one classifier of a name. -/
  index : ∀ name id, tree.classifier? name = some id ↔ ∃ declaration,
    tree.get? id = some declaration ∧ declaration.kind.isClassifier = true ∧
      declaration.qualifiedName = name
  /-- The container of a declaration is the place of the node above its own. Only modules have none.
  -/
  members : ∀ standing ∈ walkAll standings, ∀ child ∈ standing.members,
    child.Rests output tree standing.place
  /-- The topmost nodes are modules. -/
  tops : ∀ standing ∈ standings, standing.Rests output tree none
  /-- The modules are the roots, in the order of the forest. -/
  roots : tree.roots = ((walkAll standings).filter fun standing =>
    (standing.payloads.get output).any (·.kind == .module)).filterMap Standing.place
  /-- The ownership check passes. -/
  owned : tree.checkOwnership = .ok ()
  /-- No reference is a name that was not looked up. -/
  bound : tree.Bound

namespace Placement

variable {placement before after : Placement} {output : Output}

/-- The index of an output finds what is registered for it. -/
def Indexed (placement : Placement) (output : Output) : Prop :=
  ∀ name, (placement.trees.get output).classifier? name = placement.registry.classifier? name output

private theorem Indexed.alloc (hindexed : before.Indexed output) {other : Output}
    {container : Option DeclId} {data : Data} {id : DeclId}
    (halloc : before.alloc other container data = .ok (id, after)) : after.Indexed output := by
  intro name
  obtain ⟨hid, hregister, grown, htrees, hgrown⟩ := alloc_eq_ok halloc
  rw [Registry.classifier?, Registry.find?_register hregister]
  by_cases hother : output = other
  · subst hother
    have hfree := (Registry.register_eq_ok.mp hregister).2.1
    have hgrow : (after.trees.get output).classifier? name =
        ((before.trees.get output).classifier? name).or
          (if data.kind.isClassifier ∧ data.qualifiedName = name then some id else none) := by
      have hallocated (owner : Option DeclId) :=
        (before.trees.get output).classifier?_alloc data.placeholder owner name
      rw [Data.kind_placeholder, Data.qualifiedName_placeholder] at hallocated
      rw [htrees, PerOutput.get_set_self, hid]
      obtain ⟨-, rfl⟩ | ⟨-, rfl⟩ := hgrown
      · exact hallocated none
      · exact hallocated container
    rw [hgrow, hindexed name]
    by_cases hnew : data.kind.isClassifier = true ∧ data.qualifiedName = name
    · have hshares : Kind.classType.shares data.kind = true :=
        Kind.shares_iff.mpr (.inr ⟨rfl, hnew.1⟩)
      rw [if_pos hnew, if_pos ⟨rfl, hnew.2.symm, hshares⟩, Registry.classifier?,
        Registry.find?_of_shares hshares, ← hnew.2, hfree]
      rfl
    · rw [if_neg hnew, Option.or_none, if_neg, Registry.classifier?]
      rintro ⟨-, hname, hshares⟩
      obtain hkind | ⟨-, hkind⟩ := Kind.shares_iff.mp hshares
      · exact hnew ⟨by rw [← hkind]; rfl, hname.symm⟩
      · exact hnew ⟨hkind, hname.symm⟩
  · rw [alloc_other halloc hother, if_neg fun hsame => hother hsame.1]
    exact hindexed name

theorem ofForest_indexed {forest : MergedForest} (hplacement : ofForest forest = .ok placement)
    (output : Output) : placement.Indexed output := by
  refine visitAll_induction (P := fun placement => placement.Indexed output) forest.roots
    (fun _ _ _ _ _ _ _ _ hindexed _ halloc => hindexed.alloc halloc) (fun name => ?_) hplacement
  rw [empty, PerOutput.get_replicate, Registry.classifier?, Registry.find?_empty]
  rfl

variable {options : CompiledOptions} {forest : MergedForest} {tree : Tree}
  {standings : List Standing}

/-- Binding in an output links to what the tree of the output finds. -/
private theorem linkRef_of_ref
    (hindex : ∀ name, tree.classifier? name = placement.registry.classifier? name output)
    {owner : QualifiedName} {reference bound : ClassifierRef}
    (hbind : Binding.ref ⟨placement.registry, options⟩ owner output reference = .ok bound) :
    bound = tree.linkRef reference := by
  cases reference with
  | symbolic name =>
    rw [Binding.ref] at hbind
    rw [Tree.linkRef, hindex name]
    cases hfind : placement.registry.classifier? name output with
    | some id =>
      rw [hfind] at hbind
      cases hbind
      rfl
    | none =>
      simp only [hfind] at hbind
      split at hbind
      · cases hbind
        rfl
      · cases hbind
  | resolved id => cases hbind
  | external name =>
    cases hbind
    rfl
  | typeParameter name =>
    cases hbind
    rfl

/-- Binding data links it to what the tree of the output finds. -/
theorem linked_of_data
    (hindex : ∀ name, tree.classifier? name = placement.registry.classifier? name output)
    {data bound : Data} (hbind : Binding.data ⟨placement.registry, options⟩ output data = .ok bound) :
    bound = data.mapRefs tree.linkRef := by
  obtain ⟨hrun, heq⟩ := Binding.data_eq_ok hbind
  have hpayload : bound.payload.mapRefs id = data.payload.mapRefs tree.linkRef :=
    Payload.mapRefs_of_mapRefsM (fun _ _ => linkRef_of_ref hindex) hrun
  rw [heq, ← Payload.mapRefs_id bound.payload, hpayload]
  rfl

private theorem refs_of_data
    (hindex : ∀ name, tree.classifier? name = placement.registry.classifier? name output)
    {data bound : Data} (hbind : Binding.data ⟨placement.registry, options⟩ output data = .ok bound)
    {reference : ClassifierRef} (href : reference ∈ data.payload.refs) :
    (∀ id, reference ≠ .resolved id) ∧ ∀ name, reference = .symbolic name →
      tree.classifier? name = none → options.isBuiltin name = true := by
  obtain ⟨found, hfound⟩ := Binding.data_succeeds.mp ⟨bound, hbind⟩ reference href
  refine ⟨?_, ?_⟩
  · rintro id rfl
    cases hfound
  · rintro name rfl hnone
    rw [hindex name] at hnone
    rw [Binding.ref, hnone] at hfound
    by_contra hbuiltin
    simp only [hbuiltin] at hfound
    cases hfound

/-- Listing and pointing back are the same link where every declaration is the place of a node and
rests in the place of the node above. -/
private theorem owned_of_rests (hdistinct : ((walkAll standings).filterMap Standing.place).Nodup)
    (hcomplete : ∀ id, id ∈ (walkAll standings).filterMap Standing.place ↔ id.index < tree.size)
    (hplaced : ∀ standing ∈ walkAll standings, ∀ id, standing.place = some id →
      ∃ data, tree.content? id = some (data, standing.members.filterMap Standing.place))
    (hmembers : ∀ standing ∈ walkAll standings, ∀ child ∈ standing.members,
      child.Rests output tree standing.place)
    (htops : ∀ standing ∈ standings, standing.Rests output tree none) : tree.Owned := by
  have hstanding (id : DeclId) (declaration : Declaration) (hget : tree.get? id = some declaration) :
      ∃ standing ∈ walkAll standings, standing.place = some id :=
    List.mem_filterMap.mp ((hcomplete id).mpr (Tree.lt_size_of_get? hget))
  have hchildren (standing : Standing) (hmem : standing ∈ walkAll standings) (id : DeclId)
      (hid : standing.place = some id) :
      tree.children id = standing.members.filterMap Standing.place := by
    obtain ⟨data, hcontent⟩ := hplaced standing hmem id hid
    obtain ⟨declaration, hget, -, hchildren⟩ := Tree.content?_eq_some.mp hcontent
    rw [Tree.children_of_get? hget, hchildren]
  have hcontainer (child : Standing) (hchild : child ∈ walkAll standings) (id owner : DeclId)
      (hid : child.place = some id) (howner : tree.container? id = some owner) :
      ∃ standing ∈ walkAll standings, child ∈ standing.members ∧ standing.place = some owner := by
    obtain htop | ⟨standing, hmem, hmember⟩ := Standing.mem_walkAll_cases standings hchild
    · rw [(htops child htop).points id hid] at howner
      cases howner
    · rw [(hmembers standing hmem child hmember).points id hid] at howner
      exact ⟨standing, hmem, hmember, howner⟩
  refine ⟨fun parent child hchild => ?_, fun parent => ?_, fun id owner howner => ?_⟩
  · cases hget : tree.get? parent with
    | none =>
      rw [Tree.children_eq_getD, hget] at hchild
      cases hchild
    | some declaration =>
      obtain ⟨standing, hmem, hid⟩ := hstanding parent declaration hget
      rw [hchildren standing hmem parent hid] at hchild
      obtain ⟨below, hbelow, hplace⟩ := List.mem_filterMap.mp hchild
      rw [(hmembers standing hmem below hbelow).points child hplace, hid]
  · cases hget : tree.get? parent with
    | none =>
      rw [Tree.children_eq_getD, hget]
      exact List.nodup_nil
    | some declaration =>
      obtain ⟨standing, hmem, hid⟩ := hstanding parent declaration hget
      rw [hchildren standing hmem parent hid]
      exact hdistinct.sublist ((Standing.members_sublist_walkAll standings hmem).filterMap _)
  · obtain ⟨declaration, hget, -⟩ := Tree.container?_eq_some.mp howner
    obtain ⟨child, hchild, hid⟩ := hstanding id declaration hget
    obtain ⟨standing, hmem, hmember, hplace⟩ := hcontainer child hchild id owner hid howner
    rw [hchildren standing hmem owner hplace]
    exact List.mem_filterMap.mpr ⟨child, hmember, hid⟩

section Filled

variable {start : Placement}
  (hallocates : Allocates output (dataOf output (MergedNode.visitedAll (Standing.nodes standings)))
    start placement)
  (hfits : ∀ standing ∈ walkAll standings,
    standing.Fits ⟨placement.registry, options⟩ output (placement.trees.get output) tree)

include hfits in
/-- A place holds the data of its node. -/
private theorem content_of_fits
    (hindex : ∀ name, tree.classifier? name = placement.registry.classifier? name output)
    {standing : Standing} (hstanding : standing ∈ walkAll standings) {id : DeclId}
    (hid : standing.place = some id) : ∃ payload, standing.payloads.get output = some payload ∧
      tree.content? id = some ({ payload.mapRefs tree.linkRef with
        expectation := expectationOf standing.payloads.common.isSome output payload.kind },
        standing.members.filterMap Standing.place) ∧
      (payload.kind.isRegistered = true →
        placement.registry.find? payload.kind payload.qualifiedName output = some id) := by
  cases hpayload : standing.payloads.get output with
  | none =>
    rw [(hfits standing hstanding).nothing hpayload] at hid
    cases hid
  | some payload =>
    obtain ⟨found, bound, hfound, hbound, hcontent, hfind⟩ :=
      (hfits standing hstanding).content payload hpayload
    cases hid.symm.trans hfound
    rw [linked_of_data hindex hbound] at hcontent
    exact ⟨payload, rfl, hcontent, hfind⟩

include hallocates hfits in
/-- Every placeholder is the place of a node with the data for which it was allocated. -/
private theorem placeholder_of_fits (hstart : (start.trees.get output).size = 0) {id : DeclId}
    (hid : id.index < (placement.trees.get output).size) : ∃ standing ∈ walkAll standings,
      ∃ payload, standing.place = some id ∧ standing.payloads.get output = some payload ∧
        placement.registry.find? payload.kind payload.qualifiedName output = some id := by
  obtain hbefore | ⟨payload, hpayload, hfind⟩ := hallocates.covered id hid
  · omega
  · obtain ⟨node, hnode, hdata⟩ := List.mem_filterMap.mp hpayload
    have hwalked := (MergedNode.visitedAll_sublist _).subset hnode
    rw [Standing.walkAll_nodes] at hwalked
    obtain ⟨standing, hstanding, rfl⟩ := List.mem_map.mp hwalked
    rw [Standing.payloads_node] at hdata
    obtain ⟨found, -, hfound, -, -, hregistered⟩ := (hfits standing hstanding).content payload hdata
    cases (hregistered (Registry.isRegistered_of_find? hfind)).symm.trans hfind
    exact ⟨standing, hstanding, payload, hfound, hdata, hfind⟩

include hallocates hfits in
/-- The index finds exactly the classifiers that stand in the output. -/
private theorem index_of_fits (hstart : (start.trees.get output).size = 0)
    (hbare : placement.Bare output)
    (hindex : ∀ name, tree.classifier? name = placement.registry.classifier? name output)
    (hstands : ∀ id declaration, tree.get? id = some declaration →
      ∃ standing ∈ walkAll standings, standing.place = some id) (name : QualifiedName) (id : DeclId) :
    tree.classifier? name = some id ↔ ∃ declaration, tree.get? id = some declaration ∧
      declaration.kind.isClassifier = true ∧ declaration.qualifiedName = name := by
  rw [hindex name, Registry.classifier?]
  constructor
  · intro hfind
    obtain ⟨placed, hget, hshares, hname⟩ := hbare.named _ _ _ hfind
    obtain ⟨standing, hstanding, payload, hplace, hpayload, hfind'⟩ :=
      placeholder_of_fits hallocates hfits hstart (hbare.index_lt hfind)
    obtain ⟨placed', hget', hshares', hname'⟩ := hbare.named _ _ _ hfind'
    cases hget.symm.trans hget'
    obtain ⟨payload', hpayload', hcontent, -⟩ := content_of_fits hfits hindex hstanding hplace
    cases hpayload.symm.trans hpayload'
    obtain ⟨declaration, hgetD, hdata, -⟩ := Tree.content?_eq_some.mp hcontent
    have hkind : declaration.kind = payload.kind := by
      rw [Declaration.kind, hdata]
      exact payload.kind_mapRefs _
    refine ⟨declaration, hgetD, ?_, ?_⟩
    · rw [Kind.shares_comm] at hshares'
      obtain hsame | ⟨-, hclassifier⟩ := Kind.shares_iff.mp (Kind.shares_trans hshares hshares')
      · rw [hkind, ← hsame]
        rfl
      · rw [hkind, hclassifier]
    · rw [Declaration.qualifiedName, hdata, ← hname, hname']
      rfl
  · rintro ⟨declaration, hget, hclassifier, rfl⟩
    obtain ⟨standing, hstanding, hplace⟩ := hstands id declaration hget
    obtain ⟨payload, hpayload, hcontent, hfind⟩ := content_of_fits hfits hindex hstanding hplace
    obtain ⟨declaration', hget', hdata, -⟩ := Tree.content?_eq_some.mp hcontent
    cases hget.symm.trans hget'
    have hkind : declaration.kind = payload.kind := by
      rw [Declaration.kind, hdata]
      exact payload.kind_mapRefs _
    rw [hkind] at hclassifier
    have hregistered : payload.kind.isRegistered = true := by
      cases hpayloadKind : payload.kind <;> rw [hpayloadKind] at hclassifier <;>
        first | rfl | cases hclassifier
    rw [Declaration.qualifiedName, hdata,
      Registry.find?_of_shares (Kind.shares_iff.mpr (.inr ⟨rfl, hclassifier⟩))]
    exact hfind hregistered

include hfits in
/-- What is linked to the classifiers of a tree is bound. -/
private theorem bound_of_fits
    (hindex : ∀ name, tree.classifier? name = placement.registry.classifier? name output)
    (hfound : ∀ name id, tree.classifier? name = some id → ∃ declaration,
      tree.get? id = some declaration ∧ declaration.kind.isClassifier = true ∧
        declaration.qualifiedName = name)
    (hstands : ∀ id declaration, tree.get? id = some declaration →
      ∃ standing ∈ walkAll standings, standing.place = some id) : tree.Bound := by
  intro id declaration hget reference href
  obtain ⟨standing, hstanding, hplace⟩ := hstands id declaration hget
  obtain ⟨payload, hpayload, hcontent, -⟩ := content_of_fits hfits hindex hstanding hplace
  obtain ⟨declaration', hget', hdata, -⟩ := Tree.content?_eq_some.mp hcontent
  cases hget.symm.trans hget'
  have hrefs : declaration.payload.refs = payload.payload.refs.map tree.linkRef := by
    rw [Declaration.payload, hdata]
    exact Payload.refs_mapRefs _ _
  rw [hrefs] at href
  obtain ⟨unlinked, hunlinked, rfl⟩ := List.mem_map.mp href
  obtain ⟨-, bound, -, hbound, -⟩ := (hfits standing hstanding).content payload hpayload
  obtain ⟨hunresolved, -⟩ := refs_of_data hindex hbound hunlinked
  cases unlinked with
  | resolved id => exact absurd rfl (hunresolved id)
  | symbolic name =>
    rw [Tree.linkRef]
    cases hname : tree.classifier? name with
    | none => trivial
    | some found =>
      obtain ⟨declaration, hget, hkind, -⟩ := hfound name found hname
      exact ⟨declaration, hget, hkind⟩
  | external name => trivial
  | typeParameter name => trivial

include hallocates hfits in
/-- The roots are the places of the modules, since the modules are all among the nodes that are not
passed over. -/
private theorem roots_of_fits (hstart : (start.trees.get output).roots = [])
    (hsame : MergedNode.registered output (MergedNode.walkAll (Standing.nodes standings)) =
      MergedNode.registered output (MergedNode.visitedAll (Standing.nodes standings))) :
    (placement.trees.get output).roots = ((walkAll standings).filter fun standing =>
      (standing.payloads.get output).any (·.kind == .module)).filterMap Standing.place := by
  have hmodules (nodes : List MergedNode) : (dataOf output nodes).filter (·.kind == .module) =
      (MergedNode.registered output nodes).filter (·.kind == .module) := by
    rw [dataOf, MergedNode.registered, List.filter_filterMap, List.filter_filterMap]
    refine List.filterMap_congr fun node _ => ?_
    cases node.payloads.get output with
    | none => rfl
    | some data =>
      cases hkind : data.kind <;> simp [Option.filter, hkind, Kind.isRegistered]
  rw [hallocates.roots, hstart, List.nil_append, hmodules, ← hsame, ← hmodules, dataOf,
    Standing.walkAll_nodes, List.filterMap_map, List.filter_filterMap, List.filterMap_filterMap,
    List.filterMap_filter]
  refine List.filterMap_congr fun standing hstanding => ?_
  rw [Function.comp_apply, Standing.payloads_node]
  cases hdata : standing.payloads.get output with
  | none => rfl
  | some data =>
    by_cases hkind : data.kind = .module
    · obtain ⟨id, -, hid, -, -, hfind⟩ := (hfits standing hstanding).content data hdata
      simp [Option.filter, hkind, hid, placeholder?, ← hfind (by rw [hkind]; rfl)]
    · simp [Option.filter, hkind]

end Filled

/-- After filling, an output holds what the nodes have in it. Its index finds what is registered,
and no placeholder is left. -/
theorem fill_stands (hplacement : ofForest forest = .ok placement) {filling : Filling}
    (hfilling : Filling.visitAll ⟨placement.trees, []⟩ ⟨placement.registry, options⟩
      (.replicate none) forest.roots = .ok filling) (output : Output) :
    ∃ standings, Standing.nodes standings = forest.roots ∧
      (filling.trees.get output).Holds options output standings ∧
      (∀ name, (filling.trees.get output).classifier? name =
        placement.registry.classifier? name output) ∧
      ∀ id, id.index < (placement.trees.get output).size → (output, id) ∈ filling.filled := by
  have hbare := ofForest_bare hplacement output
  obtain ⟨hallocates, hseated⟩ := visitAll_allocates output forest.roots hplacement
  obtain ⟨standings, hnodes, hput⟩ := fill_puts hplacement hfilling output
  rw [← hnodes] at hallocates hseated
  rw [PerOutput.get_replicate] at hseated
  have hfits := hput.fits
  have hdistinct := hput.grows.distinct
  have hindex (name : QualifiedName) : (filling.trees.get output).classifier? name =
      placement.registry.classifier? name output := by
    rw [← ofForest_indexed hplacement output name, Tree.classifier?, Tree.classifier?]
    exact congrArg (List.lookup name) hput.index
  have hempty : empty.trees.get output = Tree.empty := PerOutput.get_replicate _ output
  have hsize : (empty.trees.get output).size = 0 := by
    rw [hempty]
    rfl
  have hsame := Standing.registered_visited hallocates hsize hbare hfits hdistinct
  obtain ⟨htops, hmembers⟩ :=
    Standing.walkAll_rests standings hfits hput.hangs hseated hsame
  have hfilled (id : DeclId) (hid : id.index < (placement.trees.get output).size) :
      (output, id) ∈ filling.filled := by
    obtain ⟨standing, hstanding, -, hplace, -⟩ := placeholder_of_fits hallocates hfits hsize hid
    exact (hput.grows.fresh id (List.mem_filterMap.mpr ⟨standing, hstanding, hplace⟩)).2.2 hid
  have hcomplete (id : DeclId) : id ∈ (walkAll standings).filterMap Standing.place ↔
      id.index < (filling.trees.get output).size := by
    -- nothing was settled before, and every placeholder is settled now
    refine ⟨fun hid => (hput.grows.fresh id hid).2.1, fun hid => ?_⟩
    refine (hput.grows.only id ⟨hid, hfilled id⟩).resolve_left fun hbefore => ?_
    exact List.not_mem_nil (hbefore.2 hbefore.1)
  have hcontent {standing : Standing} (hstanding : standing ∈ walkAll standings) {id : DeclId}
      (hid : standing.place = some id) := content_of_fits hfits hindex hstanding hid
  have hstands (id : DeclId) (declaration : Declaration)
      (hget : (filling.trees.get output).get? id = some declaration) :
      ∃ standing ∈ walkAll standings, standing.place = some id :=
    List.mem_filterMap.mp ((hcomplete id).mpr (Tree.lt_size_of_get? hget))
  have hfound := index_of_fits hallocates hfits hsize hbare hindex hstands
  have howned : (filling.trees.get output).Owned := by
    refine owned_of_rests hdistinct hcomplete (fun standing hstanding id hid => ?_) hmembers htops
    obtain ⟨_, -, hplaced, -⟩ := hcontent hstanding hid
    exact ⟨_, hplaced⟩
  refine ⟨standings, hnodes, ⟨?_, hdistinct, hcomplete, ?_, ?_, ?_, hmembers, htops, ?_,
    Tree.checkOwnership_iff.mpr howned, ?_⟩, hindex, hfilled⟩
  · intro standing hstanding
    cases hpayload : standing.payloads.get output with
    | none =>
      rw [(hfits standing hstanding).nothing hpayload]
      rfl
    | some payload =>
      obtain ⟨id, -, hid, -⟩ := (hfits standing hstanding).content payload hpayload
      rw [hid, Option.isSome_some]
      rfl
  · intro standing hstanding payload id hpayload hid
    obtain ⟨payload', hpayload', hplaced, -⟩ := hcontent hstanding hid
    cases hpayload.symm.trans hpayload'
    exact hplaced
  · intro standing hstanding payload hpayload reference href
    obtain ⟨-, bound, -, hbound, -⟩ := (hfits standing hstanding).content payload hpayload
    exact refs_of_data hindex hbound href
  · exact hfound
  · refine hput.grows.roots.trans (roots_of_fits hallocates hfits ?_ hsame)
    rw [hempty]
    rfl
  · exact bound_of_fits hfits hindex (fun name id => (hfound name id).mp) hstands

/-- Outputs that can be placed and filled are faithful to the forest: every output holds what the
nodes have in it. -/
theorem fill_holds (hplacement : ofForest forest = .ok placement) {trees : OutputTrees}
    (hfill : placement.fill options forest = .ok trees) (output : Output) :
    ∃ standings, Standing.nodes standings = forest.roots ∧
      (trees.get output).Holds options output standings := by
  obtain ⟨filling, hfilling, heq⟩ := Except.bind_eq_ok.mp hfill
  cases heq
  obtain ⟨standings, hnodes, hholds, -⟩ := fill_stands hplacement hfilling output
  exact ⟨standings, hnodes, hholds⟩

/-- A shared module with a shared package; one side has a class in it, and a function that returns
it. -/
private def lopsided : MergedForest :=
  let moduleData := Data.ofPayload ⟨"m"⟩ ⟨"m"⟩ (.module ⟨none⟩)
  let packageData := Data.ofPayload ⟨"p"⟩ ⟨"p"⟩ .package
  let classData := Data.ofPayload ⟨"A"⟩ ⟨"p.A"⟩ (.classType (.ofKind .ordinary))
  let returned := Ty.simple ⟨.symbolic ⟨"p.A"⟩, [], false, false, none⟩
  let functionData := Data.ofPayload ⟨"f"⟩ ⟨"p.f"⟩
    (.function ⟨returned, none, [], false, false, false, false⟩)
  ⟨[.shared moduleData moduleData moduleData [.shared packageData packageData packageData
    [.single .second classData [], .single .second functionData []]]]⟩

/-- The second output of the lopsided forest holds all four declarations, the others two. -/
theorem lopsided_holds : ∃ placement trees, ofForest lopsided = .ok placement ∧
    placement.fill ⟨["kotlin"], [], false, 100, 1000⟩ lopsided = .ok trees ∧
    (trees.first.size, trees.common.size, trees.second.size) = (2, 2, 4) ∧
    ∃ standings, Standing.nodes standings = lopsided.roots ∧
      trees.second.Holds ⟨["kotlin"], [], false, 100, 1000⟩ .second standings := by
  have hsizes : (do
      let placement ← (ofForest lopsided).toOption
      let trees ← (placement.fill ⟨["kotlin"], [], false, 100, 1000⟩ lopsided).toOption
      return (trees.first.size, trees.common.size, trees.second.size)) = some (2, 2, 4) := by
    decide +kernel
  obtain ⟨placement, hplacement, hsizes⟩ := Option.bind_eq_some_iff.mp hsizes
  obtain ⟨trees, hfill, hsizes⟩ := Option.bind_eq_some_iff.mp hsizes
  have hplaced := Except.toOption_eq_some.mp hplacement
  have hfilled := Except.toOption_eq_some.mp hfill
  exact ⟨placement, trees, hplaced, hfilled, Option.some.inj hsizes, fill_holds hplaced hfilled .second⟩

end Placement

end Concord
