import Concord.Proofs.Declaration.References
import Concord.Proofs.Merge.Orderly
import Concord.Proofs.Output.Completion
import Concord.Proofs.Output.Copying

namespace Concord

namespace MergedForest

variable (forest : MergedForest) (options : CompiledOptions) (output : Output)

/-- Whether a reference can be bound in an output: a name that is built in or that a classifier with
data in the output bears, or a reference that needs no binding. -/
def Covers : ClassifierRef → Prop
  | .symbolic name => options.isBuiltin name = true ∨ ∃ node ∈ forest.nodes, ∃ data,
      node.payloads.get output = some data ∧ data.kind.isClassifier = true ∧
      data.qualifiedName = name
  | .resolved _ => False
  | .external _ | .typeParameter _ => True

/-- Every reference in an output can be bound there. -/
def Closed : Prop :=
  ∀ node ∈ forest.nodes, ∀ data, node.payloads.get output = some data →
    ∀ reference ∈ data.payload.refs, forest.Covers options output reference

end MergedForest

namespace Binding

variable {binding : Binding} {output : Output}

/-- Data can be bound when every reference can. -/
theorem data_succeeds {data : Data} : (binding.data output data).Succeeds ↔
    ∀ reference ∈ data.payload.refs,
      (binding.ref data.qualifiedName output reference).Succeeds :=
  Except.succeeds_map.trans (Payload.succeeds_mapRefsM _ _)

/-- Binding data fails as it does at a reference. -/
theorem data_error {data : Data} {error : RunError} (herror : binding.data output data = .error error) :
    ∃ reference ∈ data.payload.refs,
      binding.ref data.qualifiedName output reference = .error error := by
  obtain herror | ⟨_, -, ⟨⟩⟩ := Except.bind_eq_error.mp herror
  exact Payload.mapRefsM_error herror

/-- What cannot be bound is a name that nothing bears, or leads into another tree. -/
theorem ref_error {owner : QualifiedName} {reference : ClassifierRef} {error : RunError}
    (herror : binding.ref owner output reference = .error error) :
    (∃ name, reference = .symbolic name ∧ error = .missingClassifier name output .filling) ∨
      ∃ id, reference = .resolved id := by
  cases reference with
  | symbolic name =>
    refine .inl ⟨name, rfl, ?_⟩
    rw [ref] at herror
    split at herror
    · cases herror
    · split at herror
      · cases herror
      · exact (Except.error.inj herror).symm
  | resolved id => exact .inr ⟨id, rfl⟩
  | external name => cases herror
  | typeParameter name => cases herror

theorem ref_symbolic_succeeds {owner name : QualifiedName} :
    (binding.ref owner output (.symbolic name)).Succeeds ↔
      binding.options.isBuiltin name = true ∨
        ∃ id, binding.registry.find? .classType name output = some id := by
  rw [ref, Registry.classifier?]
  cases binding.registry.find? .classType name output with
  | some id => simp [Except.Succeeds]
  | none =>
    cases hbuiltin : binding.options.isBuiltin name with
    | true => simp [Except.Succeeds]
    | false => simp [Except.Succeeds]

end Binding

namespace Filling

variable {binding : Binding}

mutual
private theorem visit_bound : ∀ (node : MergedNode) {filling after : Filling} {containers : Places},
    filling.visit binding containers node = .ok after →
    ∀ below ∈ node.walk, ∀ output data, below.payloads.get output = some data →
      (binding.data output data).Succeeds
  | ⟨payloads, children⟩, filling, after, containers, hrun, below, hbelow, output, data, hdata => by
    rw [visit] at hrun
    obtain ⟨⟨middle, places⟩, hmiddle, hrun⟩ := Except.bind_eq_ok.mp hrun
    rw [MergedNode.walk] at hbelow
    obtain rfl | hbelow := List.mem_cons.mp hbelow
    · obtain ⟨bound, -, -, -, hbound, -⟩ := (placeIn_output output hmiddle).2 data hdata
      exact ⟨bound, hbound⟩
    · exact visitAll_bound children hrun below hbelow output data hdata
/-- What was put into an output could be bound there. -/
theorem visitAll_bound : ∀ (nodes : List MergedNode) {filling after : Filling} {containers : Places},
    filling.visitAll binding containers nodes = .ok after →
    ∀ below ∈ MergedNode.walkAll nodes, ∀ output data, below.payloads.get output = some data →
      (binding.data output data).Succeeds
  | [], _, _, _, _, below, hbelow, _, _, _ => by
    rw [MergedNode.walkAll] at hbelow
    cases hbelow
  | node :: nodes, filling, after, containers, hrun, below, hbelow, output, data, hdata => by
    rw [visitAll] at hrun
    obtain ⟨middle, hmiddle, hrun⟩ := Except.bind_eq_ok.mp hrun
    rw [MergedNode.walkAll] at hbelow
    obtain hbelow | hbelow := List.mem_append.mp hbelow
    · exact visit_bound node hmiddle below hbelow output data hdata
    · exact visitAll_bound nodes hrun below hbelow output data hdata
end

end Filling

namespace Placement

variable {forest : MergedForest} {placement : Placement} {options : CompiledOptions}
  {output : Output}

/-- Where the classifiers of a forest are all entered, a reference can be bound when it is covered. -/
private theorem ref_succeeds (hplacement : ofForest forest = .ok placement)
    (hentered : ∀ node ∈ forest.nodes, ∀ output data, node.payloads.get output = some data →
      data.kind.isRegistered = true →
      ∃ id, placement.registry.find? data.kind data.qualifiedName output = some id)
    {owner : QualifiedName} {reference : ClassifierRef} :
    (Binding.ref ⟨placement.registry, options⟩ owner output reference).Succeeds ↔
      forest.Covers options output reference := by
  cases reference with
  | symbolic name =>
    rw [Binding.ref_symbolic_succeeds, MergedForest.Covers]
    refine or_congr Iff.rfl ⟨?_, ?_⟩
    · rintro ⟨id, hfind⟩
      obtain hempty | ⟨node, hnode, data, hdata, hshares, hname⟩ :=
        visitAll_enters hplacement _ _ _ _ hfind
      · rw [empty, Registry.find?_empty] at hempty
        cases hempty
      · refine ⟨node, hnode, data, hdata, ?_, hname.symm⟩
        obtain hkind | ⟨-, hkind⟩ := Kind.shares_iff.mp hshares
        · rw [← hkind]
          rfl
        · exact hkind
    · rintro ⟨node, hnode, data, hdata, hclassifier, rfl⟩
      have hshares : Kind.classType.shares data.kind = true :=
        Kind.shares_iff.mpr (.inr ⟨rfl, hclassifier⟩)
      rw [Registry.find?_of_shares hshares]
      exact hentered node hnode output data hdata (Kind.isRegistered_of_isClassifier hclassifier)
  | resolved id => exact iff_of_false (by rintro ⟨_, ⟨⟩⟩) not_false
  | external name => exact iff_of_true ⟨_, rfl⟩ trivial
  | typeParameter name => exact iff_of_true ⟨_, rfl⟩ trivial

section Forest

variable (horderly : MergedNode.Orderly forest.nodes)
  (hroots : ∀ root ∈ forest.roots, ∀ output data, root.payloads.get output = some data →
    data.kind = .module)
include horderly hroots

/-- The registered declarations of an orderly forest are all entered. -/
private theorem ofForest_entered (hplacement : ofForest forest = .ok placement) :
    ∀ node ∈ forest.nodes, ∀ output data, node.payloads.get output = some data →
      data.kind.isRegistered = true →
      ∃ id, placement.registry.find? data.kind data.qualifiedName output = some id := by
  obtain ⟨placement', hplacement', hallots⟩ := ofForest_succeeds horderly hroots
  cases hplacement.symm.trans hplacement'
  intro node hnode output data hdata hregistered
  obtain ⟨root, hroot, hnode⟩ := MergedNode.mem_walkAll.mp hnode
  have hwalk := horderly.toNested.of_mem hroot
  cases hkind : root.isRegistered with
  | true => exact (hallots root hroot hkind).entered hwalk node hnode output data hdata hregistered
  | false =>
    have hnothing := hwalk.unregistered root (fun output data hdata => by
      rw [hwalk.registered root root.mem_walk_self output data hdata, hkind]) node hnode output data
      hdata
    rw [hregistered] at hnothing
    cases hnothing

variable (options) in
/-- Filling the placeholders of an orderly forest fails only at a reference that is not covered. -/
theorem fill_ends (hplacement : ofForest forest = .ok placement) :
    (placement.fill options forest).Succeeds ∨ ∃ error,
      placement.fill options forest = .error error ∧ ∃ node ∈ forest.nodes, ∃ output data,
        node.payloads.get output = some data ∧ ∃ reference ∈ data.payload.refs,
          ¬forest.Covers options output reference ∧
          Binding.ref ⟨placement.registry, options⟩ data.qualifiedName output reference =
            .error error := by
  have hbare := ofForest_bare hplacement
  have hentered := ofForest_entered horderly hroots hplacement
  obtain ⟨placement', hplacement', hallots⟩ := ofForest_succeeds horderly hroots
  cases hplacement.symm.trans hplacement'
  have hprepared : (⟨placement.trees, []⟩ : Filling).Prepared placement forest.nodes :=
    ⟨fun output => (hbare output).steady, fun _ _ _ hget _ => hget,
      fun output id hmeant hsettled => nomatch hsettled.2 (hmeant.index_lt (hbare output))⟩
  obtain ⟨filling, hfilling, -⟩ | ⟨error, hfails, node, hnode, output, data, hdata, hunbound⟩ :=
    Filling.visitAll_ends hbare forest.roots horderly hallots hprepared
      fun root hroot output data hdata =>
        .inl ⟨hroots root hroot output data hdata, PerOutput.get_replicate none output⟩
  · exact .inl ⟨filling.trees, Except.bind_eq_ok.mpr ⟨filling, hfilling, rfl⟩⟩
  · obtain ⟨reference, href, herror⟩ := Binding.data_error hunbound
    refine .inr ⟨error, Except.bind_eq_error.mpr (.inl hfails), node, hnode, output, data, hdata,
      reference, href, fun hcovers => ?_, herror⟩
    obtain ⟨bound, hbound⟩ := (ref_succeeds hplacement hentered).mpr hcovers
    cases herror.symm.trans hbound

/-- The outputs of an orderly forest, topped by modules, can be written exactly when each of them is
closed. -/
theorem fill_succeeds_iff :
    (∃ placement trees, ofForest forest = .ok placement ∧
      placement.fill options forest = .ok trees) ↔ ∀ output, forest.Closed options output := by
  constructor
  · rintro ⟨placement, trees, hplacement, hfill⟩ output node hnode data hdata reference href
    obtain ⟨filling, hfilling, -⟩ := Except.bind_eq_ok.mp hfill
    have hbound := Filling.visitAll_bound forest.roots hfilling node hnode output data hdata
    exact (ref_succeeds hplacement (ofForest_entered horderly hroots hplacement)).mp
      (Binding.data_succeeds.mp hbound reference href)
  · intro hclosed
    obtain ⟨placement, hplacement, -⟩ := ofForest_succeeds horderly hroots
    obtain ⟨trees, hfill⟩ |
        ⟨_, -, node, hnode, output, data, hdata, reference, href, huncovered, -⟩ :=
      fill_ends options horderly hroots hplacement
    · exact ⟨placement, trees, hplacement, hfill⟩
    · exact absurd (hclosed output node hnode data hdata reference href) huncovered

end Forest

end Placement

namespace Sides

open Origin (walkAll)

variable {sides : Sides} {origins : List Origin}
  {forest : MergedForest} {output : Output}

/-- An output that holds all classifiers of a tree that is read from sources holds what the tree
mentions. -/
theorem covers_of_mentions {tree : Tree} {sources : List Source} {options : CompiledOptions}
    (hread : Tree.ofSources sources = .ok tree)
    (hheld : ∀ id declaration, tree.get? id = some declaration →
      declaration.kind.isClassifier = true → ∃ node ∈ forest.nodes, ∃ data,
        node.payloads.get output = some data ∧ data.kind.isClassifier = true ∧
          data.qualifiedName = declaration.qualifiedName)
    {reference : ClassifierRef} (hmentions : tree.Mentions reference) :
    forest.Covers options output reference := by
  obtain ⟨id, declaration, hget, hkind, rfl⟩ | ⟨name, rfl⟩ | ⟨name, rfl⟩ :=
    (Tree.ofSources_bound hread).mentions hmentions
  · exact .inr (hheld id declaration hget hkind)
  · trivial
  · trivial

/-- An output whose nodes hold all declarations of a tree that is read from sources names nothing
that it does not hold. -/
private theorem closed_of_detached {tree : Tree} {sources : List Source} {options : CompiledOptions}
    {pick : Origin → Option DeclId} (hread : Tree.ofSources sources = .ok tree)
    (hnodes : forest.nodes = (walkAll origins).map (Origin.node sides))
    (hpayload : ∀ origin : Origin,
      (origin.node sides).payloads.get output = (pick origin).bind tree.detached?)
    (hpicked : ∀ id, tree.Reachable id → id ∈ (walkAll origins).filterMap pick) :
    forest.Closed options output := by
  have hregular := Tree.regular_of_ofSources hread
  intro node hnode data hdata reference href
  obtain ⟨origin, horigin, rfl⟩ := List.mem_map.mp (hnodes ▸ hnode)
  rw [hpayload] at hdata
  obtain ⟨id, hid, hdetached⟩ := Option.bind_eq_some_iff.mp hdata
  obtain ⟨declaration, hget, rfl⟩ := Option.map_eq_some_iff.mp hdetached
  refine covers_of_mentions hread (fun named found hfound hkind => ?_) ?_
  · -- A classifier can be reached, so it has a node of its own.
    obtain ⟨other, hother, hnamed⟩ :=
      List.mem_filterMap.mp (hpicked named (hregular.reachable named found hfound))
    refine ⟨other.node sides, hnodes ▸ List.mem_map_of_mem hother, found.data.mapRefs tree.detachRef,
      ?_, ?_, rfl⟩
    · rw [hpayload, hnamed, Option.bind_some, Tree.detached?, hfound, Option.map_some]
    · rwa [Data.kind_mapRefs]
  · rw [Data.mapRefs, Payload.refs_mapRefs] at href
    obtain ⟨bound, hbound, rfl⟩ := List.mem_map.mp href
    exact ⟨id, declaration, hget, bound, hbound, rfl⟩

/-- What either side declares in a merge of trees that are read from sources can be written. -/
theorem Traces.closed {good : DeclId → DeclId → Data → Prop}
    (htraces : sides.Traces good origins forest) {firsts seconds : List Source}
    (hfirst : Tree.ofSources firsts = .ok sides.first)
    (hsecond : Tree.ofSources seconds = .ok sides.second) (options : CompiledOptions)
    (hside : output ≠ .common) : forest.Closed options output := by
  have haccounts := htraces.accounts (Tree.regular_of_ofSources hfirst).mergeable.rooted
    (Tree.regular_of_ofSources hsecond).mergeable.rooted
  have hnodes := Origin.forest_nodes htraces.nodes
  cases output with
  | first =>
    exact closed_of_detached hfirst hnodes (fun origin => by rw [Origin.node_payloads]; rfl)
      fun a => (haccounts.firsts.2 a).mpr
  | common => exact absurd rfl hside
  | second =>
    exact closed_of_detached hsecond hnodes (fun origin => by rw [Origin.node_payloads]; rfl)
      fun b => (haccounts.seconds.2 b).mpr

end Sides

end Concord
