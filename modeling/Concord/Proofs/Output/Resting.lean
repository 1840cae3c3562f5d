import Concord.Proofs.Output.Seating
import Concord.Proofs.Output.Standing

namespace Concord

open Standing (walkAll)

/-- The registered data that some nodes have in an output. -/
def MergedNode.registered (output : Output) (nodes : List MergedNode) : List Data :=
  nodes.filterMap fun node => (node.payloads.get output).filter (·.kind.isRegistered)

namespace MergedNode

variable {output : Output} {nodes others : List MergedNode} {data : Data}

theorem registered_append : registered output (nodes ++ others) =
    registered output nodes ++ registered output others :=
  List.filterMap_append

theorem mem_registered : data ∈ registered output nodes ↔ data.kind.isRegistered = true ∧
    ∃ node ∈ nodes, node.payloads.get output = some data := by
  simp only [registered, List.mem_filterMap, Option.filter_eq_some_iff]
  constructor
  · rintro ⟨node, hnode, hdata, hkind⟩
    exact ⟨hkind, node, hnode, hdata⟩
  · rintro ⟨hkind, node, hnode, hdata⟩
    exact ⟨node, hnode, hdata, hkind⟩

theorem registered_sublist (output : Output) (hsublist : nodes.Sublist others) :
    (registered output nodes).Sublist (registered output others) :=
  hsublist.filterMap _

/-- If the nodes that are not passed over have all registered data of some nodes, they have all of
the first and of the others. -/
theorem registered_split {node : MergedNode}
    (hsame : registered output (MergedNode.walkAll (node :: nodes)) =
      registered output (visitedAll (node :: nodes))) :
    registered output node.walk = registered output node.visited ∧
      registered output (MergedNode.walkAll nodes) = registered output (visitedAll nodes) := by
  rw [MergedNode.walkAll, visitedAll, registered_append, registered_append] at hsame
  have hfirst := (registered_sublist output node.visited_sublist).length_le
  have hrest := (registered_sublist output (visitedAll_sublist nodes)).length_le
  have hlength := congrArg List.length hsame
  rw [List.length_append, List.length_append] at hlength
  exact List.append_inj hsame (by omega)

theorem registered_tail {node : MergedNode}
    (hsame : registered output (node :: nodes) = registered output (node :: others)) :
    registered output nodes = registered output others := by
  have hsplit : registered output ([node] ++ nodes) = registered output ([node] ++ others) := hsame
  rw [registered_append, registered_append] at hsplit
  exact List.append_cancel_left hsplit

end MergedNode

namespace Standing

variable {binding : Binding} {output : Output} {base tree : Tree} {standings : List Standing}
  {container : Option DeclId} {standing : Standing}

/-- A node rests in a container and points at it. Only modules rest in none. -/
structure Rests (output : Output) (tree : Tree) (container : Option DeclId) (standing : Standing) :
    Prop where
  points : ∀ id, standing.place = some id → tree.container? id = container
  kind : ∀ payload, standing.payloads.get output = some payload →
    (payload.kind = .module ↔ container = none)

/-- What hangs in a container rests there, provided that its placeholder does. -/
private theorem Hangs.rests (hhangs : standing.Hangs output base tree container)
    (hnothing : standing.payloads.get output = none → standing.place = none)
    (hplaced : ∀ payload, standing.payloads.get output = some payload →
      payload.kind.isRegistered = true → (payload.kind = .module ∨ container.isSome = true) ∧
        ∀ id, standing.place = some id →
          base.container? id = if payload.kind = .module then none else container) :
    standing.Rests output tree container := by
  have hkind (payload : Data) (hpayload : standing.payloads.get output = some payload) :
      payload.kind = .module ↔ container = none := by
    obtain ⟨hmodule, hunregistered⟩ := hhangs.kind payload hpayload
    cases hcontainer : container with
    | some owner =>
      have hother : payload.kind ≠ .module := hmodule (by rw [hcontainer]; rfl)
      simp [hother]
    | none =>
      rw [hcontainer] at hunregistered hplaced
      cases hregistered : payload.kind.isRegistered with
      | true => simpa using (hplaced payload hpayload hregistered).1
      | false => cases hunregistered hregistered
  refine ⟨fun id hid => ?_, hkind⟩
  rw [hhangs.points id hid]
  cases hcontainer : container with
  | some owner => rfl
  | none =>
    cases hpayload : standing.payloads.get output with
    | none =>
      rw [hnothing hpayload] at hid
      cases hid
    | some payload =>
      have hmodule := (hkind payload hpayload).mpr hcontainer
      have hregistered : payload.kind.isRegistered = true := by
        rw [hmodule]
        rfl
      rw [(hplaced payload hpayload hregistered).2 id hid, if_pos hmodule]
      rfl

/-- What is not registered rests where it hangs. -/
private theorem Hangs.rests_of_unregistered (hhangs : standing.Hangs output base tree container)
    (hnothing : standing.payloads.get output = none → standing.place = none)
    (hregistered : ∀ payload, standing.payloads.get output = some payload →
      payload.kind.isRegistered = false) : standing.Rests output tree container := by
  refine hhangs.rests hnothing fun payload hpayload htrue => ?_
  rw [hregistered payload hpayload] at htrue
  cases htrue

mutual
private theorem walk_node : ∀ standing : Standing, standing.node.walk = (walk standing).map node
  | mk payloads place members => by
    rw [node, MergedNode.walk, walkAll_nodes members, walk, List.map_cons, node]
/-- The nodes below some standing nodes are those that stand below them, one by one. -/
theorem walkAll_nodes : ∀ standings : List Standing,
    MergedNode.walkAll (nodes standings) = (walkAll standings).map node
  | [] => rfl
  | standing :: standings => by
    rw [nodes, MergedNode.walkAll, walk_node standing, walkAll_nodes standings, walkAll,
      List.map_append]
end

@[simp] theorem payloads_node (standing : Standing) : standing.node.payloads = standing.payloads := by
  cases standing
  rfl

/-- The placeholder of what a node has in an output is its place. -/
private theorem Fits.place_eq {placement : Placement} {options : CompiledOptions}
    (hfits : standing.Fits ⟨placement.registry, options⟩ output base tree)
    (hplaced : ∀ data, standing.payloads.get output = some data →
      ∃ id, placement.placeholder? output data = some id) :
    standing.place = (standing.payloads.get output).bind (placement.placeholder? output) := by
  cases hpayload : standing.payloads.get output with
  | none => rw [hfits.nothing hpayload, Option.bind_none]
  | some payload =>
    obtain ⟨id, hfind⟩ := hplaced payload hpayload
    obtain ⟨place, -, hplace, -, -, hregistered⟩ := hfits.content payload hpayload
    rw [hplace, Option.bind_some]
    exact (hregistered (Registry.isRegistered_of_find? hfind)).symm

section Seats

variable {placement : Placement} {options : CompiledOptions}

/-- Below a node that is passed over nothing is registered, so that everything rests where it hangs. -/
private theorem rests_of_passed
    (hnone : MergedNode.registered output standing.node.walk = [])
    (hfits : ∀ other ∈ walk standing,
      other.Fits ⟨placement.registry, options⟩ output (placement.trees.get output) tree)
    (hhangs : standing.Hangs output (placement.trees.get output) tree container) :
    standing.Rests output tree container ∧ ∀ other ∈ walk standing, ∀ child ∈ other.members,
      child.Rests output tree other.place := by
  have hunregistered (other : Standing) (hother : other ∈ walk standing) (payload : Data)
      (hpayload : other.payloads.get output = some payload) : payload.kind.isRegistered = false := by
    refine Bool.eq_false_iff.mpr fun htrue => ?_
    have hmem : payload ∈ MergedNode.registered output standing.node.walk := by
      refine MergedNode.mem_registered.mpr ⟨htrue, other.node, ?_, ?_⟩
      · rw [walk_node]
        exact List.mem_map_of_mem hother
      · rw [payloads_node, hpayload]
    rw [hnone] at hmem
    cases hmem
  have hself := mem_walk_self standing
  refine ⟨hhangs.rests_of_unregistered (hfits standing hself).nothing (hunregistered standing hself),
    fun other hother child hchild => ?_⟩
  have hbelow : child ∈ walk standing := (members_sublist_walk standing hother).subset hchild
  exact ((hfits other hother).members child hchild).rests_of_unregistered (hfits child hbelow).nothing
    (hunregistered child hbelow)

mutual
/-- Where the placeholders of a node and the nodes below it are seated, and no other node has
registered data, everything rests in the place of the node above. -/
private theorem walk_rests : ∀ (standing : Standing) {container : Option DeclId},
    (∀ other ∈ walk standing,
      other.Fits ⟨placement.registry, options⟩ output (placement.trees.get output) tree) →
    standing.Hangs output (placement.trees.get output) tree container →
    (standing.node.isRegistered = true → placement.Seated output container standing.node) →
    MergedNode.registered output standing.node.walk =
      MergedNode.registered output standing.node.visited →
    standing.Rests output tree container ∧ ∀ other ∈ walk standing, ∀ child ∈ other.members,
      child.Rests output tree other.place
  | mk payloads place members, container, hfits, hhangs, hseated, hsame => by
    cases hregistered : (node (mk payloads place members)).isRegistered with
    | false =>
      rw [node, MergedNode.visited_of_unregistered hregistered] at hsame
      exact rests_of_passed (by rw [node]; exact hsame) hfits hhangs
    | true =>
      have hseats := hseated hregistered
      rw [node] at hseats hsame hregistered
      rw [MergedNode.visited_of_registered hregistered, MergedNode.walk] at hsame
      rw [walk] at hfits ⊢
      obtain ⟨hself, hbelow⟩ := List.forall_mem_cons.mp hfits
      cases hseats with
      | node hplaced hchildren =>
        have hplace : place = (payloads.get output).bind (placement.placeholder? output) :=
          hself.place_eq fun data hdata =>
            let ⟨id, hid, _⟩ := hplaced data hdata
            ⟨id, hid.entered⟩
        rw [← hplace] at hchildren
        have hmembers := walkAll_rests members hbelow hself.members hchildren
          (MergedNode.registered_tail hsame)
        refine ⟨hhangs.rests hself.nothing fun payload hpayload _ => ?_,
          List.forall_mem_cons.mpr ⟨hmembers.1, hmembers.2⟩⟩
        obtain ⟨id, ⟨hentered, declaration, hget, -, -, hcontainer⟩, howner⟩ :=
          hplaced payload hpayload
        refine ⟨howner, fun found hfound => ?_⟩
        have hid : found = id := by
          have hplace' : place = some id := by
            rw [hplace, show payloads.get output = some payload from hpayload]
            exact hentered
          exact Option.some.inj (hfound.symm.trans hplace')
        rw [hid, Tree.container?, hget, Option.bind_some, hcontainer]
/-- Where no node that is passed over has registered data, everything rests in the place of the node
above. -/
theorem walkAll_rests : ∀ (standings : List Standing) {container : Option DeclId},
    (∀ other ∈ walkAll standings,
      other.Fits ⟨placement.registry, options⟩ output (placement.trees.get output) tree) →
    (∀ standing ∈ standings,
      standing.Hangs output (placement.trees.get output) tree container) →
    (∀ node ∈ nodes standings, node.isRegistered = true →
      placement.Seated output container node) →
    MergedNode.registered output (MergedNode.walkAll (nodes standings)) =
      MergedNode.registered output (MergedNode.visitedAll (nodes standings)) →
    (∀ standing ∈ standings, standing.Rests output tree container) ∧
      ∀ other ∈ walkAll standings, ∀ child ∈ other.members, child.Rests output tree other.place
  | [], _, _, _, _, _ => by
    refine ⟨fun standing hmem => ?_, fun standing hmem => ?_⟩
    · cases hmem
    · cases hmem
  | standing :: standings, container, hfits, hhangs, hseated, hsame => by
    rw [walkAll] at hfits ⊢
    obtain ⟨hfirst, hrest⟩ := List.forall_mem_append.mp hfits
    obtain ⟨hhang, hhangs⟩ := List.forall_mem_cons.mp hhangs
    obtain ⟨hseat, hseats⟩ := List.forall_mem_cons.mp hseated
    obtain ⟨hself, hothers⟩ := MergedNode.registered_split hsame
    obtain ⟨hrests, hbelow⟩ := walk_rests standing hfirst hhang hseat hself
    obtain ⟨hrestsAll, hbelowAll⟩ := walkAll_rests standings hrest hhangs hseats hothers
    exact ⟨List.forall_mem_cons.mpr ⟨hrests, hrestsAll⟩,
      List.forall_mem_append.mpr ⟨hbelow, hbelowAll⟩⟩
end

/-- The nodes that are not passed over have all registered data of a forest: each placeholder was
allocated for one of them, and filled for no other. -/
theorem registered_visited {start : Placement}
    (hallocates : Placement.Allocates output
      (Placement.dataOf output (MergedNode.visitedAll (nodes standings))) start placement)
    (hstart : (start.trees.get output).size = 0) (hbare : placement.Bare output)
    (hfits : ∀ standing ∈ walkAll standings,
      standing.Fits ⟨placement.registry, options⟩ output (placement.trees.get output) tree)
    (hdistinct : ((walkAll standings).filterMap place).Nodup) :
    MergedNode.registered output (MergedNode.walkAll (nodes standings)) =
      MergedNode.registered output (MergedNode.visitedAll (nodes standings)) := by
  have hsublist := MergedNode.registered_sublist output
    (MergedNode.visitedAll_sublist (nodes standings))
  have hall : MergedNode.registered output (MergedNode.walkAll (nodes standings)) =
      (walkAll standings).filterMap fun standing =>
        (standing.payloads.get output).filter (·.kind.isRegistered) := by
    rw [MergedNode.registered, walkAll_nodes, List.filterMap_map]
    simp only [Function.comp_def, payloads_node]
  have hplace (standing : Standing) (hstanding : standing ∈ walkAll standings) (data : Data)
      (hdata : standing.payloads.get output = some data) (hregistered : data.kind.isRegistered = true) :
      ∃ id, standing.place = some id ∧ placement.placeholder? output data = some id := by
    obtain ⟨id, -, hid, -, -, hfind⟩ := (hfits standing hstanding).content data hdata
    exact ⟨id, hid, hfind hregistered⟩
  -- The placeholders of all registered data are places, and so are distinct.
  have hplaces : (MergedNode.registered output (MergedNode.walkAll (nodes standings))).filterMap
      (placement.placeholder? output) = ((walkAll standings).filter fun standing =>
        (standing.payloads.get output).any (·.kind.isRegistered)).filterMap place := by
    rw [hall, List.filterMap_filterMap, List.filterMap_filter]
    refine List.filterMap_congr fun standing hstanding => ?_
    cases hdata : standing.payloads.get output with
    | none => rfl
    | some data =>
      cases hregistered : data.kind.isRegistered with
      | false => simp [Option.filter, hregistered]
      | true =>
        obtain ⟨id, hid, hfind⟩ := hplace standing hstanding data hdata hregistered
        simp [Option.filter, hregistered, hid, hfind]
  have hnodup : ((MergedNode.registered output (MergedNode.walkAll (nodes standings))).filterMap
      (placement.placeholder? output)).Nodup := by
    rw [hplaces]
    exact hdistinct.sublist (List.filter_sublist.filterMap place)
  -- Every placeholder belongs to a node that is not passed over.
  have hcovered : (MergedNode.registered output (MergedNode.walkAll (nodes standings))).filterMap
      (placement.placeholder? output) ⊆
      (MergedNode.registered output (MergedNode.visitedAll (nodes standings))).filterMap
        (placement.placeholder? output) := by
    intro id hid
    obtain ⟨data, -, hfind⟩ := List.mem_filterMap.mp hid
    obtain hbefore | ⟨data', hdata', hfind'⟩ := hallocates.covered id (hbare.index_lt hfind)
    · omega
    · obtain ⟨node, hnode, hpayload⟩ := List.mem_filterMap.mp hdata'
      exact List.mem_filterMap.mpr ⟨data', MergedNode.mem_registered.mpr
        ⟨Registry.isRegistered_of_find? hfind', node, hnode, hpayload⟩, hfind'⟩
  have hcount := hnodup.length_le_of_subset hcovered
  have hfull : ((MergedNode.registered output (MergedNode.walkAll (nodes standings))).filterMap
      (placement.placeholder? output)).length =
      (MergedNode.registered output (MergedNode.walkAll (nodes standings))).length := by
    rw [List.length_filterMap_eq_countP, List.countP_eq_length]
    intro data hdata
    rw [hall] at hdata
    obtain ⟨standing, hstanding, hdata⟩ := List.mem_filterMap.mp hdata
    obtain ⟨hdata, hregistered⟩ := Option.filter_eq_some_iff.mp hdata
    obtain ⟨id, -, hfind⟩ := hplace standing hstanding data hdata hregistered
    rw [hfind]
    rfl
  refine (hsublist.eq_of_length_le ?_).symm
  rw [← hfull]
  exact Nat.le_trans hcount (List.length_filterMap_le _ _)

end Seats

end Standing

end Concord
