import Concord.Proofs.Faithfulness
import Concord.Proofs.Merge.Lending
import Concord.Proofs.Source.Writable

namespace Concord

open Standing (walkAll)

/-- A declaration bears the names of some data and is of its kind. -/
private structure Declaration.Bears (declaration : Declaration) (data : Data) : Prop where
  name : declaration.name = data.name
  qualifiedName : declaration.qualifiedName = data.qualifiedName
  kind : declaration.kind = data.kind

private theorem Declaration.bears_of_data {declaration : Declaration} {data : Data}
    {f : ClassifierRef → ClassifierRef} {expectation : Expectation}
    (hdata : declaration.data = { data.mapRefs f with expectation }) : declaration.Bears data := by
  refine ⟨?_, ?_, ?_⟩
  · rw [name, hdata]
    rfl
  · rw [qualifiedName, hdata]
    rfl
  · rw [kind, hdata]
    exact data.kind_mapRefs f

private theorem Standing.node_children (standing : Standing) :
    standing.node.children = standing.members.map Standing.node := by
  obtain ⟨payloads, place, members⟩ := standing
  show Standing.nodes members = members.map Standing.node
  induction members with
  | nil => rfl
  | cons member members ih => rw [Standing.nodes, ih, List.map_cons]

namespace Tree.Holds

variable {tree : Tree} {options : CompiledOptions} {output : Output} {standings : List Standing}
  (hholds : tree.Holds options output standings)
include hholds

/-- The place of a node holds its data. -/
theorem exists_declaration {standing : Standing} (hstanding : standing ∈ walkAll standings)
    {id : DeclId} (hplace : standing.place = some id) : ∃ declaration payload,
      tree.get? id = some declaration ∧ standing.payloads.get output = some payload ∧
      declaration.data = { payload.mapRefs tree.linkRef with
        expectation := expectationOf standing.payloads.common.isSome output payload.kind } ∧
      declaration.children = standing.members.filterMap Standing.place := by
  have hplaced := hholds.placed standing hstanding
  rw [hplace, Option.isSome_some, eq_comm, Option.isSome_iff_exists] at hplaced
  obtain ⟨payload, hpayload⟩ := hplaced
  obtain ⟨declaration, hget, hdata, hchildren⟩ :=
    content?_eq_some.mp (hholds.content standing hstanding payload id hpayload hplace)
  exact ⟨declaration, payload, hget, hpayload, hdata, hchildren⟩

/-- Every declaration is the place of a node, and holds its data. -/
theorem exists_standing {id : DeclId} {declaration : Declaration}
    (hget : tree.get? id = some declaration) : ∃ standing ∈ walkAll standings, ∃ payload,
      standing.place = some id ∧ standing.payloads.get output = some payload ∧
      declaration.data = { payload.mapRefs tree.linkRef with
        expectation := expectationOf standing.payloads.common.isSome output payload.kind } := by
  obtain ⟨standing, hstanding, hplace⟩ :=
    List.mem_filterMap.mp ((hholds.complete id).mpr (lt_size_of_get? hget))
  obtain ⟨found, payload, hfound, hpayload, hdata, -⟩ := hholds.exists_declaration hstanding hplace
  cases hget.symm.trans hfound
  exact ⟨standing, hstanding, payload, hplace, hpayload, hdata⟩

/-- A node rests in the place of the node above, or is a module. -/
private theorem rests {standing : Standing} (hstanding : standing ∈ walkAll standings) :
    ∃ container, standing.Rests output tree container ∧ ∀ owner, container = some owner →
      ∃ above ∈ walkAll standings, standing ∈ above.members ∧ above.place = some owner := by
  obtain htop | ⟨above, habove, hmember⟩ := Standing.mem_walkAll_cases standings hstanding
  · exact ⟨none, hholds.tops standing htop, by rintro owner ⟨⟩⟩
  · exact ⟨above.place, hholds.members above habove standing hmember,
      fun owner howner => ⟨above, habove, hmember, howner⟩⟩

/-- The roots are the places of the modules. -/
private theorem mem_roots {root : DeclId} : root ∈ tree.roots ↔ ∃ standing ∈ walkAll standings,
    ∃ payload, standing.place = some root ∧ standing.payloads.get output = some payload ∧
      payload.kind = .module := by
  rw [hholds.roots, List.mem_filterMap]
  constructor
  · rintro ⟨standing, hmem, hplace⟩
    obtain ⟨hstanding, hmodule⟩ := List.mem_filter.mp hmem
    cases hpayload : standing.payloads.get output with
    | none =>
      rw [hpayload] at hmodule
      cases hmodule
    | some payload =>
      rw [hpayload] at hmodule
      exact ⟨standing, hstanding, payload, hplace, hpayload, eq_of_beq hmodule⟩
  · rintro ⟨standing, hstanding, payload, hplace, hpayload, hmodule⟩
    refine ⟨standing, List.mem_filter.mpr ⟨hstanding, ?_⟩, hplace⟩
    rw [hpayload, Option.any_some, hmodule, beq_self_eq_true]

/-- The child lists form a forest below the modules. -/
private theorem rooted : tree.Rooted := by
  refine ⟨checkOwnership_iff.mp hholds.owned, ?_, fun root hroot => ?_, fun root hroot => ?_⟩
  · rw [hholds.roots]
    exact hholds.distinct.sublist (List.filter_sublist.filterMap _)
  · obtain ⟨standing, hstanding, -, hplace, -⟩ := hholds.mem_roots.mp hroot
    obtain ⟨declaration, -, hget, -⟩ := hholds.exists_declaration hstanding hplace
    exact ⟨declaration, hget⟩
  · obtain ⟨standing, hstanding, payload, hplace, hpayload, hmodule⟩ := hholds.mem_roots.mp hroot
    obtain ⟨container, hrests, -⟩ := hholds.rests hstanding
    rw [hrests.points root hplace, (hrests.kind payload hpayload).mp hmodule]

/-- Whatever stands in the output hangs below a module. -/
private theorem reachable {id : DeclId} {declaration : Declaration}
    (hget : tree.get? id = some declaration) : tree.Reachable id := by
  have hmodule {standing : Standing} (hstanding : standing ∈ walkAll standings)
      (hrests : standing.Rests output tree none) {id : DeclId} (hplace : standing.place = some id) :
      tree.Reachable id := by
    obtain ⟨-, payload, -, hpayload, -⟩ := hholds.exists_declaration hstanding hplace
    refine .root (hholds.mem_roots.mpr ⟨standing, hstanding, payload, hplace, hpayload, ?_⟩)
    exact (hrests.kind payload hpayload).mpr rfl
  obtain ⟨standing, hstanding, -, hplace, -⟩ := hholds.exists_standing hget
  -- from the topmost nodes down, each child stands in what is reached already
  refine Standing.walkAll_all (fun standing => ∀ id, standing.place = some id → tree.Reachable id)
    standings (fun standing hstanding hreached child hchild id hplace => ?_)
    (fun top htop id hplace => ?_) standing hstanding id hplace
  · have hrests := hholds.members standing hstanding child hchild
    have hwalked := (Standing.members_sublist_walkAll standings hstanding).subset hchild
    cases howner : standing.place with
    | none =>
      rw [howner] at hrests
      exact hmodule hwalked hrests hplace
    | some owner =>
      obtain ⟨around, -, hget, -, -, hchildren⟩ := hholds.exists_declaration hstanding howner
      refine .child (hreached owner howner) ?_
      rw [children_of_get? hget, hchildren]
      exact List.mem_filterMap.mpr ⟨child, hchild, hplace⟩
  · exact hmodule ((Standing.sublist_walkAll standings).subset htop) (hholds.tops top htop) hplace

/-- A declaration bears what some node has in the output. -/
private theorem exists_node {id : DeclId} {declaration : Declaration}
    (hget : tree.get? id = some declaration) : ∃ node ∈ MergedNode.walkAll (Standing.nodes standings),
      ∃ data, node.payloads.get output = some data ∧ declaration.Bears data := by
  obtain ⟨standing, hstanding, data, -, hdata, heq⟩ := hholds.exists_standing hget
  refine ⟨standing.node, ?_, data, ?_, Declaration.bears_of_data heq⟩
  · rw [Standing.walkAll_nodes]
    exact List.mem_map_of_mem hstanding
  · rwa [Standing.payloads_node]

/-- What is not a module rests in the place of the node above, and only that does. -/
private theorem exists_above {id : DeclId} {declaration : Declaration}
    (hget : tree.get? id = some declaration) :
    (declaration.kind ≠ .module ↔ declaration.container.isSome = true) ∧
    ∀ container, declaration.container = some container →
      ∃ node ∈ MergedNode.walkAll (Standing.nodes standings), ∃ child ∈ node.children,
        ∃ data owner around, child.payloads.get output = some data ∧
          node.payloads.get output = some owner ∧ tree.get? container = some around ∧
          declaration.Bears data ∧ around.Bears owner := by
  obtain ⟨standing, hstanding, data, hplace, hdata, heq⟩ := hholds.exists_standing hget
  have hbears := Declaration.bears_of_data heq
  obtain ⟨rested, hrests, habove⟩ := hholds.rests hstanding
  have hpoints := hrests.points id hplace
  rw [container?, hget, Option.bind_some] at hpoints
  subst hpoints
  refine ⟨?_, fun container hcontainer => ?_⟩
  · rw [hbears.kind, Option.isSome_iff_ne_none]
    exact (hrests.kind data hdata).not
  · obtain ⟨above, hwalked, hmember, howner⟩ := habove container hcontainer
    obtain ⟨around, owner, haround, hpayload, heq', -⟩ := hholds.exists_declaration hwalked howner
    refine ⟨above.node, ?_, standing.node, ?_, data, owner, around, ?_, ?_, haround, hbears,
      Declaration.bears_of_data heq'⟩
    · rw [Standing.walkAll_nodes]
      exact List.mem_map_of_mem hwalked
    · rw [Standing.node_children]
      exact List.mem_map_of_mem hmember
    · rwa [Standing.payloads_node]
    · rwa [Standing.payloads_node]

/-- What stands in a declaration of the output may stand there, as the nodes may. -/
private theorem mayContain (hnested : MergedNode.Nested (MergedNode.walkAll (Standing.nodes standings)))
    {id container : DeclId} {declaration : Declaration} (hget : tree.get? id = some declaration)
    (hcontainer : declaration.container = some container) : ∃ owner,
      tree.get? container = some owner ∧ owner.kind.mayContain declaration.kind = true := by
  obtain ⟨node, hnode, child, hchild, data, owner, around, hdata, howner, haround, hbears, hbears'⟩ :=
    (hholds.exists_above hget).2 container hcontainer
  obtain ⟨found, hfound, hmay⟩ := hnested.owned node hnode child hchild output data hdata
  cases howner.symm.trans hfound
  exact ⟨around, haround, by rwa [hbears.kind, hbears'.kind]⟩

/-- The names in the output follow its containers, as those of the nodes follow the nodes above. -/
private theorem titled
    (htitled : MergedNode.Titled (MergedNode.walkAll (Standing.nodes standings))) : tree.Titled := by
  refine ⟨fun id declaration hget hkind => ?_, fun id declaration hget hmodule hpackage => ?_⟩
  · obtain ⟨node, hnode, data, hdata, hbears⟩ := hholds.exists_node hget
    rw [hbears.kind] at hkind
    rw [hbears.qualifiedName, hbears.name]
    exact htitled.whole node hnode output data hdata hkind
  · obtain ⟨hcontained, habove⟩ := hholds.exists_above hget
    obtain ⟨container, hcontainer⟩ := Option.isSome_iff_exists.mp (hcontained.mp hmodule)
    obtain ⟨node, hnode, child, hchild, data, owner, around, hdata, howner, haround, hbears,
      hbears'⟩ := habove container hcontainer
    rw [hbears.kind] at hmodule hpackage
    obtain ⟨hsegment, hname⟩ :=
      htitled.nested node hnode child hchild output data owner hdata howner hmodule hpackage
    rw [hbears.name]
    refine ⟨hsegment, container, around, hcontainer, haround, ?_⟩
    rw [hbears.qualifiedName, hbears'.qualifiedName, hname]

theorem findsAll : tree.FindsAll :=
  fun id declaration hget hclassifier =>
    (hholds.index _ id).mpr ⟨declaration, hget, hclassifier, rfl⟩

/-- Every reference in the output leads where its name says. -/
theorem leads (hsealed : MergedNode.Sealed (MergedNode.walkAll (Standing.nodes standings)))
    {id : DeclId} {declaration : Declaration} (hget : tree.get? id = some declaration)
    {reference : ClassifierRef} (href : reference ∈ declaration.payload.refs) :
    tree.Leads reference := by
  obtain ⟨standing, hstanding, data, -, hdata, heq⟩ := hholds.exists_standing hget
  have hrefs : declaration.payload.refs = data.payload.refs.map tree.linkRef := by
    rw [Declaration.payload, heq]
    exact Payload.refs_mapRefs _ _
  rw [hrefs] at href
  obtain ⟨unlinked, hunlinked, rfl⟩ := List.mem_map.mp href
  obtain ⟨hunresolved, -⟩ := hholds.linked standing hstanding data hdata unlinked hunlinked
  cases unlinked with
  | resolved target => exact absurd rfl (hunresolved target)
  | symbolic name =>
    refine leads_linkRef (fun name id => (hholds.index name id).mp) (fun id declaration hget hkind => ?_)
      name
    rw [hholds.findsAll id declaration hget hkind, Option.isSome_some]
  | external name =>
    rintro other found hfound hclassifier rfl
    obtain ⟨node, hnode, data', hdata', hbears⟩ := hholds.exists_node hfound
    rw [hbears.kind] at hclassifier
    rw [hbears.qualifiedName] at hunlinked
    refine hsealed standing.node ?_ node hnode output data data' ?_ hdata' hclassifier hunlinked
    · rw [Standing.walkAll_nodes]
      exact List.mem_map_of_mem hstanding
    · rwa [Standing.payloads_node]
  | typeParameter name => trivial

/-- The output can be written as sources and read again. -/
theorem writable (hnested : MergedNode.Nested (MergedNode.walkAll (Standing.nodes standings)))
    (htitled : MergedNode.Titled (MergedNode.walkAll (Standing.nodes standings)))
    (hsealed : MergedNode.Sealed (MergedNode.walkAll (Standing.nodes standings))) :
    tree.Writable := by
  have hnamed (name : QualifiedName) (id : DeclId) := (hholds.index name id).mp
  refine ⟨hholds.rooted, fun id declaration => hholds.reachable, fun root hroot => ?_,
    fun id declaration container => hholds.mayContain hnested, hholds.titled htitled, hnamed,
    fun id declaration hget hkind => ?_, fun id declaration hget reference href => ?_⟩
  · obtain ⟨standing, hstanding, payload, hplace, hpayload, hmodule⟩ := hholds.mem_roots.mp hroot
    obtain ⟨declaration, found, hget, hfound, heq, -⟩ := hholds.exists_declaration hstanding hplace
    cases hpayload.symm.trans hfound
    exact ⟨declaration, hget, (Declaration.bears_of_data heq).kind.trans hmodule⟩
  · rw [hholds.findsAll id declaration hget hkind, Option.isSome_some]
  · exact (hholds.leads hsealed hget href).spells hnamed hholds.findsAll

end Tree.Holds

end Concord
