import Concord.Proofs.Merge.Accounting
import Concord.Proofs.Merge.Shared
import Concord.Proofs.Output.Orderly

namespace Concord

open Origin (walkAll)

namespace Kind

@[simp] theorem common_common (kind : Kind) : kind.common.common = kind.common := by
  cases kind <;> rfl

@[simp] theorem shares_common (kind other : Kind) :
    kind.common.shares other.common = kind.shares other := by
  cases kind <;> cases other <;> rfl

end Kind

/-- No two registered declarations of one name space have the same name. -/
def Tree.NamesUnique (tree : Tree) : Prop :=
  ∀ a b declaration other, tree.get? a = some declaration → tree.get? b = some other →
    declaration.data.Clashes other.data → a = b

/-- Names that are all different are unique. -/
theorem Tree.namesUnique_of_nodup {tree : Tree}
    (hnodup : (tree.entries.map (·.2.qualifiedName)).Nodup) : tree.NamesUnique := by
  rintro a b declaration other hget hget' ⟨-, -, hname⟩
  have hsame : (a, declaration) = (b, other) :=
    List.inj_on_of_nodup_map hnodup (Tree.mem_entries.mpr hget) (Tree.mem_entries.mpr hget') hname
  exact congrArg Prod.fst hsame

/-- Data that bears the name of a declaration and is of its kind, or of the one that is shared. -/
structure Data.StandsFor (data : Data) (declaration : Declaration) : Prop where
  name : data.qualifiedName = declaration.qualifiedName
  kind : data.kind.common = declaration.kind.common

namespace Data.Clashes

variable {data other : Data}

theorem symm (hclashes : data.Clashes other) : other.Clashes data := by
  obtain ⟨hregistered, hshares, hname⟩ := hclashes
  rw [Kind.shares_comm] at hshares
  exact ⟨Kind.isRegistered_of_shares hshares hregistered, hshares, hname.symm⟩

theorem trans {third : Data} (hclashes : data.Clashes other) (hother : other.Clashes third) :
    data.Clashes third :=
  ⟨hclashes.1, Kind.shares_trans hclashes.2.1 hother.2.1, hclashes.2.2.trans hother.2.2⟩

/-- Data clashes whatever its references lead to. -/
theorem mapRefs {f : ClassifierRef → ClassifierRef} (hclashes : data.Clashes other) :
    (data.mapRefs f).Clashes (other.mapRefs f) := by
  rwa [Clashes, Data.kind_mapRefs, Data.kind_mapRefs]

end Data.Clashes

namespace Data.StandsFor

variable {data other : Data} {declaration found : Declaration}

theorem isRegistered (hstands : data.StandsFor declaration) :
    data.kind.isRegistered = declaration.kind.isRegistered := by
  rw [← Kind.isRegistered_common, hstands.kind, Kind.isRegistered_common]

theorem isClassifier (hstands : data.StandsFor declaration) :
    data.kind.isClassifier = declaration.kind.isClassifier := by
  rw [← Kind.isClassifier_common, hstands.kind, Kind.isClassifier_common]

/-- What clashes stands for declarations that do. -/
theorem clashes (hstands : data.StandsFor declaration) (hother : other.StandsFor found)
    (hclashes : data.Clashes other) : declaration.data.Clashes found.data := by
  obtain ⟨hregistered, hshares, hname⟩ := hclashes
  refine ⟨hstands.isRegistered ▸ hregistered, ?_, ?_⟩
  · rw [← Kind.shares_common, ← Declaration.kind, ← Declaration.kind, ← hstands.kind,
      ← hother.kind, Kind.shares_common]
    exact hshares
  · exact hstands.name.symm.trans (hname.trans hother.name)

end Data.StandsFor

/-- The tree that the data of an output comes from. -/
def Sides.source (sides : Sides) : Output → Tree
  | .second => sides.second
  | .first | .common => sides.first

/-- The declaration that the data of an output stands for. -/
def Origin.source? (origin : Origin) : Output → Option DeclId
  | .second => origin.second?
  | .first | .common => origin.first?

namespace Sides

variable {sides : Sides} {origins : List Origin}
  {forest : MergedForest} {origin : Origin} {data : Data}

/-- What holds of both trees holds of the one that the data of an output comes from. -/
theorem of_both {P : Tree → Prop} (hfirst : P sides.first) (hsecond : P sides.second)
    (output : Output) : P (sides.source output) := by
  cases output with
  | first | common => exact hfirst
  | second => exact hsecond

/-- Each declaration that can be reached is the source of one node in an output. -/
theorem Accounts.sources (haccounts : sides.Accounts origins) (output : Output) :
    ((walkAll origins).filterMap (·.source? output)).Nodup ∧
      ∀ id, id ∈ (walkAll origins).filterMap (·.source? output) ↔
        (sides.source output).Reachable id := by
  cases output with
  | first | common => exact haccounts.firsts
  | second => exact haccounts.seconds

theorem Accounts.source_links (haccounts : sides.Accounts origins) (horigin : origin ∈ walkAll origins)
    (output : Output) : Origin.Links (·.source? output) (sides.source output) origin := by
  obtain ⟨hfirsts, hseconds⟩ := haccounts.links origin horigin
  cases output with
  | first | common => exact .of_eq hfirsts
  | second => exact hseconds

theorem Accounts.source_roots (haccounts : sides.Accounts origins) (output : Output) :
    (origins.filterMap (·.source? output)).Perm (sides.source output).roots := by
  obtain ⟨hfirsts, hseconds⟩ := haccounts.roots
  cases output with
  | first | common => exact .of_eq hfirsts
  | second => exact hseconds

private theorem detached_standsFor {tree : Tree} {id : Option DeclId}
    (hdata : id.bind tree.detached? = some data) : ∃ a declaration, id = some a ∧
      tree.get? a = some declaration ∧ data.StandsFor declaration ∧
      data.kind = declaration.kind := by
  obtain ⟨a, rfl, hdata⟩ := Option.bind_eq_some_iff.mp hdata
  obtain ⟨declaration, hget, rfl⟩ := Option.map_eq_some_iff.mp hdata
  have hkind : (declaration.data.mapRefs tree.detachRef).kind = declaration.kind :=
    Data.kind_mapRefs _ _
  exact ⟨a, declaration, rfl, hget, ⟨rfl, by rw [hkind]⟩, hkind⟩

section Links

variable {tree : Tree} {pick : Origin → Option DeclId} {below : Origin} (hregular : tree.Regular)
  (hlinks : Origin.Links pick tree origin) (hbelow : below ∈ origin.children)
include hregular hlinks hbelow

private theorem owner_of_links {c : DeclId} (hc : pick below = some c) :
    ∃ a owner declaration, pick origin = some a ∧ tree.get? a = some owner ∧
      tree.get? c = some declaration ∧ owner.kind.mayContain declaration.kind = true := by
  have hmem := hlinks.mem_iff.mp (List.mem_filterMap.mpr ⟨below, hbelow, hc⟩)
  cases ha : pick origin with
  | none =>
    rw [ha] at hmem
    cases hmem
  | some a =>
    rw [ha] at hmem
    obtain ⟨owner, declaration, howner, hget, hmay⟩ := hregular.child_placed hmem
    exact ⟨a, owner, declaration, rfl, howner, hget, hmay⟩

private theorem detached_owned (hdata : (pick below).bind tree.detached? = some data) :
    ∃ owner, (pick origin).bind tree.detached? = some owner ∧
      owner.kind.mayContain data.kind = true := by
  obtain ⟨c, declaration, hc, hget, -, hkind⟩ := detached_standsFor hdata
  obtain ⟨a, owner, declaration', ha, howner, hget', hmay⟩ :=
    owner_of_links hregular hlinks hbelow hc
  cases hget.symm.trans hget'
  refine ⟨owner.data.mapRefs tree.detachRef, ?_, ?_⟩
  · rw [ha, Option.bind_some, Tree.detached?, howner, Option.map_some]
  · rw [hkind, Data.kind_mapRefs]
    exact hmay

end Links

section Forest

variable (htraces : sides.Traces (fun a _ common => common.SharedOf sides.first a) origins forest)
  (hfirst : sides.first.Regular) (hsecond : sides.second.Regular)
include htraces

theorem Traces.mem_nodes {node : MergedNode} (hnode : node ∈ forest.nodes) :
    ∃ origin ∈ walkAll origins, origin.node sides = node := by
  rw [Origin.forest_nodes htraces.nodes] at hnode
  exact List.mem_map.mp hnode

/-- Where no two data of an output clash, the names of the tree that has all its declarations there
are unique. -/
private theorem Traces.namesUnique_of_distinct {tree : Tree} {pick : Origin → Option DeclId}
    {output : Output} (hregular : tree.Regular)
    (hdistinct : (forest.nodes.filterMap (·.payloads.get output)).Pairwise
      fun data other => ¬data.Clashes other)
    (hpayload : ∀ origin : Origin,
      (origin.node sides).payloads.get output = (pick origin).bind tree.detached?)
    (hpicked : ∀ id, tree.Reachable id → id ∈ (walkAll origins).filterMap pick) :
    tree.NamesUnique := by
  intro a b declaration other hget hget' hclashes
  obtain ⟨origin, horigin, ha⟩ :=
    List.mem_filterMap.mp (hpicked a (hregular.reachable a declaration hget))
  obtain ⟨below, hbelow, hb⟩ :=
    List.mem_filterMap.mp (hpicked b (hregular.reachable b other hget'))
  rw [Origin.forest_nodes htraces.nodes, List.filterMap_map, List.pairwise_filterMap] at hdistinct
  by_contra hne
  have hother : origin ≠ below := by
    rintro rfl
    exact hne (Option.some_inj.mp (ha.symm.trans hb))
  have hapart := @List.Pairwise.forall _ _ _ ⟨fun origin below happart data hdata found hfound
    hclashes => happart found hfound data hdata hclashes.symm⟩ hdistinct _ horigin _ hbelow hother
  have hdata {origin : Origin} {id : DeclId} {declaration : Declaration}
      (hid : pick origin = some id) (hget : tree.get? id = some declaration) :
      (origin.node sides).payloads.get output =
        some (declaration.data.mapRefs tree.detachRef) := by
    rw [hpayload, hid, Option.bind_some, Tree.detached?, hget, Option.map_some]
  exact hapart _ (hdata ha hget) _ (hdata hb hget') hclashes.mapRefs

include hfirst hsecond

/-- The data that is shared comes from a declaration of each side. -/
private theorem Traces.common (horigin : origin ∈ walkAll origins)
    (hdata : origin.common? = some data) : ∃ a b declaration, origin.first? = some a ∧
      origin.second? = some b ∧ sides.first.get? a = some declaration ∧
      data.StandsFor declaration ∧ data.kind = declaration.kind.common := by
  have haccounts := htraces.accounts hfirst.mergeable.rooted hsecond.mergeable.rooted
  have hsound := htraces.sound origin horigin
  have hboth := hsound.common
  rw [hdata, Option.isSome_some, eq_comm, Bool.and_eq_true, Option.isSome_iff_exists,
    Option.isSome_iff_exists] at hboth
  obtain ⟨⟨a, ha⟩, b, hb⟩ := hboth
  obtain ⟨declaration, hget⟩ := haccounts.known_first hfirst.mergeable.rooted horigin ha
  have hshared := hsound.good a b data ha hb hdata
  have hname := hshared.name
  have hkind := hshared.kind
  rw [Tree.declaration_of_get? hget] at hname hkind
  exact ⟨a, b, declaration, ha, hb, hget, ⟨hname, by rw [hkind, Kind.common_common]⟩, hkind⟩

/-- Data of an output stands for a declaration of the tree that it comes from. -/
theorem Traces.standsFor (horigin : origin ∈ walkAll origins) {output : Output}
    (hdata : (origin.node sides).payloads.get output = some data) :
    ∃ id declaration, origin.source? output = some id ∧
      (sides.source output).get? id = some declaration ∧ data.StandsFor declaration := by
  rw [Origin.node_payloads] at hdata
  cases output with
  | first =>
    obtain ⟨a, declaration, ha, hget, hstands, -⟩ := detached_standsFor hdata
    exact ⟨a, declaration, ha, hget, hstands⟩
  | common =>
    obtain ⟨a, -, declaration, ha, -, hget, hstands, -⟩ :=
      htraces.common hfirst hsecond horigin hdata
    exact ⟨a, declaration, ha, hget, hstands⟩
  | second =>
    obtain ⟨b, declaration, hb, hget, hstands, -⟩ := detached_standsFor hdata
    exact ⟨b, declaration, hb, hget, hstands⟩

/-- No declaration is the source of two nodes of an output. -/
private theorem Traces.sources_distinct (output : Output) :
    (walkAll origins).Pairwise fun origin other => ∀ a, origin.source? output = some a →
      ∀ b, other.source? output = some b → a ≠ b := by
  have haccounts := htraces.accounts hfirst.rooted hsecond.rooted
  exact List.pairwise_filterMap.mp (haccounts.sources output).1

/-- What stands below a node is owned by what the node stands for. -/
private theorem Traces.owned (horigin : origin ∈ walkAll origins)
    {below : Origin} (hbelow : below ∈ origin.children) {output : Output}
    (hdata : (below.node sides).payloads.get output = some data) :
    ∃ owner, (origin.node sides).payloads.get output = some owner ∧
      owner.kind.mayContain data.kind = true := by
  have hlinks := (htraces.accounts hfirst.mergeable.rooted hsecond.mergeable.rooted).links
    origin horigin
  have hfirsts : Origin.Links Origin.first? sides.first origin := .of_eq hlinks.1
  rw [Origin.node_payloads] at hdata ⊢
  cases output with
  | first => exact detached_owned hfirst hfirsts hbelow hdata
  | second => exact detached_owned hsecond hlinks.2 hbelow hdata
  | common =>
    obtain ⟨c, d, declaration, hc, hd, hget, -, hkind⟩ :=
      htraces.common hfirst hsecond (Origin.walkAll_closed origins horigin hbelow) hdata
    obtain ⟨a, owner, declaration', ha, howner, hget', hmay⟩ :=
      owner_of_links hfirst hfirsts hbelow hc
    obtain ⟨b, -, -, hb, -⟩ := owner_of_links hsecond hlinks.2 hbelow hd
    obtain ⟨common, hcommon⟩ : ∃ common, origin.common? = some common := by
      rw [← Option.isSome_iff_exists, (htraces.sound origin horigin).common, ha, hb]
      rfl
    obtain ⟨a', -, owner', ha', -, howner', -, hkind'⟩ :=
      htraces.common hfirst hsecond horigin hcommon
    cases ha.symm.trans ha'
    cases howner.symm.trans howner'
    cases hget.symm.trans hget'
    refine ⟨common, hcommon, ?_⟩
    rw [hkind, hkind']
    exact Kind.mayContain_common hmay

/-- Data of a node is of the kind of its declarations, or of the one that is shared. -/
private theorem Traces.kind_common (horigin : origin ∈ walkAll origins)
    {output : Output} (hdata : (origin.node sides).payloads.get output = some data) :
    (∀ a, origin.first? = some a → data.kind.common = (sides.first.declaration a).kind.common) ∧
      ∀ b, origin.second? = some b →
        data.kind.common = (sides.second.declaration b).kind.common := by
  obtain ⟨id, declaration, hid, hget, hstands⟩ :=
    htraces.standsFor hfirst hsecond horigin hdata
  have hkinds := (htraces.sound origin horigin).kinds
  have hkind : data.kind.common = ((sides.source output).declaration id).kind.common := by
    rw [hstands.kind, Tree.declaration_of_get? hget]
  have hfirsts (hid : origin.first? = some id)
      (hkind : data.kind.common = (sides.first.declaration id).kind.common) :
      (∀ a, origin.first? = some a → data.kind.common = (sides.first.declaration a).kind.common) ∧
        ∀ b, origin.second? = some b →
          data.kind.common = (sides.second.declaration b).kind.common := by
    refine ⟨fun a ha => ?_, fun b hb => by rw [hkind, hkinds id b hid hb]⟩
    cases hid.symm.trans ha
    exact hkind
  cases output with
  | first => exact hfirsts hid hkind
  | common => exact hfirsts hid hkind
  | second =>
    refine ⟨fun a ha => ?_, fun b hb => ?_⟩
    · rw [hkinds a id ha hid]
      exact hkind
    · cases hid.symm.trans hb
      exact hkind

/-- All data of a node is registered if some of it is. -/
private theorem Traces.registered (horigin : origin ∈ walkAll origins)
    {output : Output} (hdata : (origin.node sides).payloads.get output = some data) :
    data.kind.isRegistered = (origin.node sides).isRegistered := by
  obtain ⟨primary, hprimary⟩ := MergedNode.exists_primary? hdata
  obtain ⟨other, hother⟩ := MergedNode.primary?_get hprimary
  have hkind := htraces.kind_common hfirst hsecond horigin hdata
  have hkind' := htraces.kind_common hfirst hsecond horigin hother
  have hsame : data.kind.common = primary.kind.common := by
    obtain hsource | hsource := (htraces.sound origin horigin).source
    · obtain ⟨a, ha⟩ := Option.isSome_iff_exists.mp hsource
      rw [hkind.1 a ha, hkind'.1 a ha]
    · obtain ⟨b, hb⟩ := Option.isSome_iff_exists.mp hsource
      rw [hkind.2 b hb, hkind'.2 b hb]
  rw [MergedNode.isRegistered_of_primary? hprimary, ← Kind.isRegistered_common, hsame,
    Kind.isRegistered_common]

/-- In the outputs of a merge everything stands below what may own it. -/
theorem Traces.nested : MergedNode.Nested forest.nodes where
  owned node hnode child hchild output data hdata := by
    obtain ⟨origin, horigin, rfl⟩ := htraces.mem_nodes hnode
    rw [Origin.node_children] at hchild
    obtain ⟨below, hbelow, rfl⟩ := List.mem_map.mp hchild
    exact htraces.owned hfirst hsecond horigin hbelow hdata
  registered node hnode output data hdata := by
    obtain ⟨origin, horigin, rfl⟩ := htraces.mem_nodes hnode
    exact htraces.registered hfirst hsecond horigin hdata

/-- The data that two nodes have in an output stands for different declarations. -/
theorem Traces.different_sources (output : Output) :
    forest.nodes.Pairwise fun node other => ∀ data found, node.payloads.get output = some data →
      other.payloads.get output = some found → ∃ a b declaration declaration', a ≠ b ∧
        (sides.source output).get? a = some declaration ∧
        (sides.source output).get? b = some declaration' ∧
        data.StandsFor declaration ∧ found.StandsFor declaration' := by
  rw [Origin.forest_nodes htraces.nodes]
  refine List.pairwise_map.mpr ((htraces.sources_distinct hfirst hsecond output).imp_of_mem ?_)
  intro origin other horigin hother hdistinct data found hdata hfound
  obtain ⟨a, declaration, ha, hget, hstands⟩ :=
    htraces.standsFor hfirst hsecond horigin hdata
  obtain ⟨b, declaration', hb, hget', hstands'⟩ :=
    htraces.standsFor hfirst hsecond hother hfound
  exact ⟨a, b, declaration, declaration', hdistinct a ha b hb, hget, hget', hstands, hstands'⟩

/-- The forest of a merge of trees with unique names fits into the outputs. -/
theorem Traces.orderly (huniqueA : sides.first.NamesUnique)
    (huniqueB : sides.second.NamesUnique) : MergedNode.Orderly forest.nodes where
  toNested := htraces.nested hfirst hsecond
  distinct output := by
    have hunique : (sides.source output).NamesUnique := of_both huniqueA huniqueB output
    refine List.pairwise_filterMap.mpr
      ((htraces.different_sources hfirst hsecond output).imp ?_)
    intro node other hsources data hdata found hfound hclashes
    obtain ⟨a, b, declaration, declaration', hne, hget, hget', hstands, hstands'⟩ :=
      hsources data found hdata hfound
    exact hne (hunique a b declaration declaration' hget hget' (hstands.clashes hstands' hclashes))

/-- The forest of a merge fits into the outputs exactly when the names of both trees are
unique. -/
theorem Traces.orderly_iff : MergedNode.Orderly forest.nodes ↔
    sides.first.NamesUnique ∧ sides.second.NamesUnique := by
  have haccounts := htraces.accounts hfirst.mergeable.rooted hsecond.mergeable.rooted
  refine ⟨fun horderly => ⟨?_, ?_⟩, fun ⟨huniqueA, huniqueB⟩ =>
    htraces.orderly hfirst hsecond huniqueA huniqueB⟩
  · exact htraces.namesUnique_of_distinct hfirst (horderly.distinct .first)
      (fun origin => by rw [Origin.node_payloads]; rfl) fun a => (haccounts.firsts.2 a).mpr
  · exact htraces.namesUnique_of_distinct hsecond (horderly.distinct .second)
      (fun origin => by rw [Origin.node_payloads]; rfl) fun b => (haccounts.seconds.2 b).mpr

/-- The topmost nodes are modules in every output. -/
theorem Traces.roots_modules : ∀ root ∈ forest.roots, ∀ output data,
    root.payloads.get output = some data → data.kind = .module := by
  intro root hroot output data hdata
  rw [htraces.nodes, Origin.nodes_eq_map] at hroot
  obtain ⟨origin, horigin, rfl⟩ := List.mem_map.mp hroot
  have hwalked := Origin.mem_walkAll.mpr ⟨origin, horigin, Origin.mem_walk_self origin⟩
  obtain ⟨id, declaration, hid, hget, hstands⟩ :=
    htraces.standsFor hfirst hsecond hwalked hdata
  have haccounts := htraces.accounts hfirst.rooted hsecond.rooted
  have hroot := (haccounts.source_roots output).mem_iff.mp
    (List.mem_filterMap.mpr ⟨origin, horigin, hid⟩)
  have hregular : (sides.source output).Regular := of_both hfirst hsecond output
  obtain ⟨declaration', hget', hmodule, -⟩ := hregular.roots id hroot
  cases hget.symm.trans hget'
  have hkind := hstands.kind
  rw [hmodule] at hkind
  cases hdataKind : data.kind <;> rw [hdataKind] at hkind <;> first | rfl | cases hkind

end Forest

end Sides

end Concord
