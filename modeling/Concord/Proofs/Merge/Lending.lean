import Concord.Proofs.Merge.Orderly
import Concord.Proofs.Source.References

namespace Concord

open Origin (walkAll)

namespace Kind

theorem common_eq_module {kind : Kind} : kind.common = .module ↔ kind = .module := by
  cases kind <;> decide

theorem common_eq_package {kind : Kind} : kind.common = .package ↔ kind = .package := by
  cases kind <;> decide

end Kind

/-- What a declaration lends to its data in an output. In the output of its own side it lends all
that it has. -/
def Sides.Lends (sides : Sides) (output : Output) (id : DeclId) (payload : Payload ClassifierRef) :
    Prop :=
  (sides.source output).Lends id payload ∧
    (output ≠ .common → payload = ((sides.source output).declaration id).payload)

/-- The names of nodes follow the nodes above. -/
structure MergedNode.Titled (nodes : List MergedNode) : Prop where
  whole : ∀ node ∈ nodes, ∀ output data, node.payloads.get output = some data →
    data.kind = .module ∨ data.kind = .package → data.qualifiedName = ⟨data.name.text⟩
  nested : ∀ node ∈ nodes, ∀ child ∈ node.children, ∀ output data owner,
    child.payloads.get output = some data → node.payloads.get output = some owner →
    data.kind ≠ .module → data.kind ≠ .package →
    data.name.isSegment = true ∧ data.qualifiedName = owner.qualifiedName.child data.name

/-- What lies outside of an output is not the name of a classifier in it. -/
def MergedNode.Sealed (nodes : List MergedNode) : Prop :=
  ∀ node ∈ nodes, ∀ other ∈ nodes, ∀ output data found, node.payloads.get output = some data →
    other.payloads.get output = some found → found.kind.isClassifier = true →
    ClassifierRef.external found.qualifiedName ∉ data.payload.refs

namespace Sides

variable {sides : Sides} {origins : List Origin}
  {forest : MergedForest} {origin : Origin} {data : Data} {output : Output}

private theorem lent_of_detached {tree : Tree} {id : DeclId} (hdata : tree.detached? id = some data) :
    data.name = (tree.declaration id).name ∧
      data.payload = (tree.declaration id).payload.mapRefs tree.detachRef := by
  obtain ⟨declaration, hget, rfl⟩ := Option.map_eq_some_iff.mp hdata
  rw [Tree.declaration_of_get? hget]
  exact ⟨rfl, rfl⟩

variable (htraces : sides.Traces (fun a _ common => common.SharedOf sides.first a) origins forest)
  (hfirst : sides.first.Regular) (hsecond : sides.second.Regular)
include htraces

/-- The data of a node is called like its declaration, and has what this lends to it. -/
theorem Traces.lent (horigin : origin ∈ walkAll origins) {id : DeclId}
    (hid : origin.source? output = some id)
    (hdata : (origin.node sides).payloads.get output = some data) :
    data.name = ((sides.source output).declaration id).name ∧
      ∃ payload, sides.Lends output id payload ∧
        data.payload = payload.mapRefs (sides.source output).detachRef := by
  rw [Origin.node_payloads] at hdata
  cases output with
  | first =>
    have hdetached : origin.first?.bind sides.first.detached? = some data := hdata
    rw [show origin.first? = some id from hid, Option.bind_some] at hdetached
    obtain ⟨hname, hpayload⟩ := lent_of_detached hdetached
    exact ⟨hname, _, ⟨.own, fun _ => rfl⟩, hpayload⟩
  | common =>
    have hboth := (htraces.sound origin horigin).common
    rw [show origin.common? = some data from hdata, Option.isSome_some, eq_comm, Bool.and_eq_true,
      Option.isSome_iff_exists, Option.isSome_iff_exists] at hboth
    obtain ⟨-, b, hb⟩ := hboth
    have hshared := (htraces.sound origin horigin).good id b data hid hb hdata
    obtain ⟨payload, hlends, hpayload⟩ := hshared.lent
    exact ⟨hshared.called, payload, ⟨hlends, fun hside => absurd rfl hside⟩, hpayload⟩
  | second =>
    have hdetached : origin.second?.bind sides.second.detached? = some data := hdata
    rw [show origin.second? = some id from hid, Option.bind_some] at hdetached
    obtain ⟨hname, hpayload⟩ := lent_of_detached hdetached
    exact ⟨hname, _, ⟨.own, fun _ => rfl⟩, hpayload⟩

include hfirst hsecond

/-- Data of an output names nothing that the tree it comes from does not name. -/
theorem Traces.mentions {node : MergedNode} (hnode : node ∈ forest.nodes)
    (hdata : node.payloads.get output = some data) {reference : ClassifierRef}
    (href : reference ∈ data.payload.refs) : (sides.source output).Mentions reference := by
  obtain ⟨origin, horigin, rfl⟩ := htraces.mem_nodes hnode
  obtain ⟨id, -, hid, -⟩ := htraces.standsFor hfirst hsecond horigin hdata
  obtain ⟨-, payload, ⟨hlends, -⟩, hpayload⟩ := htraces.lent horigin hid hdata
  rw [hpayload, Payload.refs_mapRefs] at href
  obtain ⟨bound, hbound, rfl⟩ := List.mem_map.mp href
  exact hlends.mentions hbound

/-- What stands below a node stands for a child of what the node stands for. -/
private theorem Traces.source_child (horigin : origin ∈ walkAll origins) {below : Origin}
    (hbelow : below ∈ origin.children) {id : DeclId} (hid : below.source? output = some id) :
    ∃ owner, origin.source? output = some owner ∧ id ∈ (sides.source output).children owner := by
  have hlinks := (htraces.accounts hfirst.rooted hsecond.rooted).source_links horigin output
  have hmem : id ∈ (origin.source? output).elim [] (sides.source output).children :=
    hlinks.mem_iff.mp (List.mem_filterMap.mpr ⟨below, hbelow, hid⟩)
  cases howner : origin.source? output with
  | none =>
    rw [howner] at hmem
    cases hmem
  | some owner =>
    rw [howner] at hmem
    exact ⟨owner, rfl, hmem⟩

/-- The names of nodes follow each other, since those of the declarations do. -/
theorem Traces.titled (htitledA : sides.first.Titled) (htitledB : sides.second.Titled) :
    MergedNode.Titled forest.nodes := by
  have htitled (output : Output) : (sides.source output).Titled := of_both htitledA htitledB output
  have hregular (output : Output) : (sides.source output).Regular := of_both hfirst hsecond output
  -- shared data may be a class for an alias, but a module or package is one on each side
  have hkinds {kind other : Kind} (hsame : kind.common = other.common) :
      (kind = .module ↔ other = .module) ∧ (kind = .package ↔ other = .package) := by
    rw [← Kind.common_eq_module, ← Kind.common_eq_package, hsame, Kind.common_eq_module,
      Kind.common_eq_package]
    exact ⟨Iff.rfl, Iff.rfl⟩
  refine ⟨fun node hnode output data hdata hkind => ?_,
    fun node hnode child hchild output data owner hdata howner hmodule hpackage => ?_⟩
  · obtain ⟨origin, horigin, rfl⟩ := htraces.mem_nodes hnode
    obtain ⟨id, declaration, hid, hget, hstands⟩ :=
      htraces.standsFor hfirst hsecond horigin hdata
    obtain ⟨hname, -⟩ := htraces.lent horigin hid hdata
    obtain ⟨hmodules, hpackages⟩ := hkinds hstands.kind
    rw [hmodules, hpackages] at hkind
    rw [Tree.declaration_of_get? hget] at hname
    rw [hstands.name, hname, (htitled output).whole id declaration hget hkind]
  · obtain ⟨origin, horigin, rfl⟩ := htraces.mem_nodes hnode
    rw [Origin.node_children] at hchild
    obtain ⟨below, hbelow, rfl⟩ := List.mem_map.mp hchild
    have hwalked := Origin.walkAll_closed origins horigin hbelow
    obtain ⟨id, declaration, hid, hget, hstands⟩ :=
      htraces.standsFor hfirst hsecond hwalked hdata
    obtain ⟨hname, -⟩ := htraces.lent hwalked hid hdata
    obtain ⟨above, around, habove, hgetA, hstandsA⟩ :=
      htraces.standsFor hfirst hsecond horigin howner
    obtain ⟨hmodules, hpackages⟩ := hkinds hstands.kind
    obtain ⟨hsegment, container, found, hcontainer, hfound, hqualified⟩ :=
      (htitled output).nested id declaration hget (mt hmodules.mpr hmodule)
        (mt hpackages.mpr hpackage)
    obtain ⟨parent, hparent, hlisted⟩ := htraces.source_child hfirst hsecond horigin hbelow hid
    cases habove.symm.trans hparent
    have howned := (hregular output).owned.listed above id hlisted
    rw [Tree.container?, hget, Option.bind_some, hcontainer] at howned
    cases howned
    cases hgetA.symm.trans hfound
    rw [Tree.declaration_of_get? hget] at hname
    rw [hname, hstands.name, hstandsA.name]
    exact ⟨hsegment, hqualified⟩

omit hfirst hsecond in
/-- What lies outside of an output is not the name of a classifier in it, for it lies outside of the
tree that the data comes from. -/
theorem Traces.sealed {firsts seconds : List Source}
    (hfirst : Tree.ofSources firsts = .ok sides.first)
    (hsecond : Tree.ofSources seconds = .ok sides.second) : MergedNode.Sealed forest.nodes := by
  have hregularA := Tree.regular_of_ofSources hfirst
  have hregularB := Tree.regular_of_ofSources hsecond
  intro node hnode other hother output data found hdata hfound hclassifier href
  obtain ⟨place, declaration, hget, bound, hbound, hdetached⟩ :=
    htraces.mentions hregularA hregularB hnode hdata href
  obtain ⟨origin, horigin, rfl⟩ := htraces.mem_nodes hother
  obtain ⟨id, named, -, hnamed, hstands⟩ :=
    htraces.standsFor hregularA hregularB horigin hfound
  obtain ⟨sources, hread⟩ : ∃ sources, Tree.ofSources sources = .ok (sides.source output) :=
    of_both (P := fun tree => ∃ sources, Tree.ofSources sources = .ok tree) ⟨firsts, hfirst⟩
      ⟨seconds, hsecond⟩ output
  have hleads := Tree.ofSources_leads hread hget hbound
  cases bound with
  | external name =>
    cases hdetached
    exact hleads id named hnamed (hstands.isClassifier ▸ hclassifier) hstands.name.symm
  | resolved target =>
    obtain ⟨target', htarget, -⟩ := hleads
    rw [Tree.detachRef, htarget] at hdetached
    cases hdetached
  | symbolic name => exact hleads
  | typeParameter name => cases hdetached

end Sides

end Concord
