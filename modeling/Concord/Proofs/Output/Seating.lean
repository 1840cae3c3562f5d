import Concord.Proofs.Output.Allotment
import Mathlib.Data.List.Basic

namespace Concord

namespace MergedNode

mutual
/-- The nodes from a node on that are not passed over. -/
def visited : MergedNode → List MergedNode
  | ⟨payloads, children⟩ =>
    if (MergedNode.kind? ⟨payloads, []⟩).any (·.isRegistered) then
      ⟨payloads, children⟩ :: visitedAll children
    else []
/-- The nodes from some nodes on that are not passed over. -/
def visitedAll : List MergedNode → List MergedNode
  | [] => []
  | node :: nodes => visited node ++ visitedAll nodes
end

variable {payloads : PerOutput (Option Data)} {children : List MergedNode}

theorem visited_of_registered (hregistered : (mk payloads children).isRegistered = true) :
    visited ⟨payloads, children⟩ = ⟨payloads, children⟩ :: visitedAll children := by
  rw [visited]
  exact if_pos hregistered

theorem visited_of_unregistered (hregistered : (mk payloads children).isRegistered = false) :
    visited ⟨payloads, children⟩ = [] := by
  rw [visited]
  exact if_neg (Bool.eq_false_iff.mp hregistered)

mutual
theorem visited_sublist : ∀ node : MergedNode, node.visited.Sublist node.walk
  | ⟨payloads, children⟩ => by
    rw [visited, walk]
    split
    · exact (visitedAll_sublist children).cons_cons _
    · exact List.nil_sublist _
theorem visitedAll_sublist : ∀ nodes : List MergedNode, (visitedAll nodes).Sublist (walkAll nodes)
  | [] => .slnil
  | node :: nodes => (visited_sublist node).append (visitedAll_sublist nodes)
end

end MergedNode

namespace Placement

open MergedNode (visitedAll)

variable {placement before middle after : Placement} {output : Output} {container : Option DeclId}
  {data : Data} {datas others : List Data}

/-- The placeholder under which a declaration is registered. -/
def placeholder? (placement : Placement) (output : Output) (data : Data) : Option DeclId :=
  placement.registry.find? data.kind data.qualifiedName output

/-- In an output, placeholders were allocated for these declarations, one after the other. -/
structure Allocates (output : Output) (datas : List Data) (before after : Placement) : Prop where
  keeps : before.Keeps after
  entered : ∀ data ∈ datas, (after.placeholder? output data).isSome = true
  covered : ∀ id, id.index < (after.trees.get output).size →
    id.index < (before.trees.get output).size ∨ ∃ data ∈ datas, after.placeholder? output data = some id
  roots : (after.trees.get output).roots = (before.trees.get output).roots ++
    (datas.filter (·.kind == .module)).filterMap (after.placeholder? output)

namespace Allocates

theorem refl (output : Output) (placement : Placement) :
    Allocates output [] placement placement where
  keeps := ⟨fun _ _ _ _ hfind => hfind, fun _ _ _ hget => hget⟩
  entered _ hdata := absurd hdata List.not_mem_nil
  covered _ hid := .inl hid
  roots := by simp

theorem trans (hfirst : Allocates output datas before middle)
    (hsecond : Allocates output others middle after) :
    Allocates output (datas ++ others) before after := by
  -- What is registered for the first declarations stays registered.
  have hsame (data : Data) (hdata : data ∈ datas) :
      after.placeholder? output data = middle.placeholder? output data := by
    obtain ⟨id, hid⟩ := Option.isSome_iff_exists.mp (hfirst.entered data hdata)
    rw [hid]
    exact hsecond.keeps.entered _ _ _ _ hid
  refine ⟨hfirst.keeps.trans hsecond.keeps, fun data hdata => ?_, fun id hid => ?_, ?_⟩
  · obtain hdata | hdata := List.mem_append.mp hdata
    · rw [hsame data hdata]
      exact hfirst.entered data hdata
    · exact hsecond.entered data hdata
  · obtain hmiddle | ⟨data, hdata, hplace⟩ := hsecond.covered id hid
    · refine (hfirst.covered id hmiddle).imp_right ?_
      rintro ⟨data, hdata, hplace⟩
      exact ⟨data, List.mem_append_left _ hdata, (hsame data hdata).trans hplace⟩
    · exact .inr ⟨data, List.mem_append_right _ hdata, hplace⟩
  · have hroots : (datas.filter (·.kind == .module)).filterMap (after.placeholder? output) =
        (datas.filter (·.kind == .module)).filterMap (middle.placeholder? output) :=
      List.filterMap_congr fun data hdata => hsame data (List.mem_of_mem_filter hdata)
    rw [hsecond.roots, hfirst.roots, List.filter_append, List.filterMap_append, hroots,
      List.append_assoc]

/-- Allocating one placeholder. -/
theorem alloc {id : DeclId} (halloc : before.alloc output container data = .ok (id, after)) :
    Allocates output [data] before after := by
  obtain ⟨hid, hregister, grown, htrees, hgrown⟩ := alloc_eq_ok halloc
  have hplace : after.placeholder? output data = some id := by
    rw [placeholder?, Registry.find?_register hregister, if_pos ⟨rfl, rfl, Kind.shares_self _⟩]
  have hsize : (after.trees.get output).size = (before.trees.get output).size + 1 := by
    rw [htrees, PerOutput.get_set_self]
    obtain ⟨-, rfl⟩ | ⟨-, rfl⟩ := hgrown
    · exact Tree.size_alloc data.placeholder none
    · exact Tree.size_alloc data.placeholder container
  refine ⟨alloc_keeps halloc, fun other hother => ?_, fun found hfound => ?_, ?_⟩
  · rw [List.mem_singleton.mp hother, hplace]
    rfl
  · by_cases hnew : found = id
    · exact .inr ⟨data, List.mem_singleton_self _, hnew ▸ hplace⟩
    · have hindex : found.index ≠ (before.trees.get output).size := fun heq => hnew (by
        rw [hid, ← heq])
      exact .inl (by omega)
  · rw [htrees, PerOutput.get_set_self]
    obtain ⟨hmodule, rfl⟩ | ⟨hkind, rfl⟩ := hgrown
    · simp [hmodule, hplace, hid, Tree.addRoot, Tree.alloc]
    · simp [hkind]

/-- Only what belongs to an output counts. -/
theorem congr {first last : Placement} (hallocates : Allocates output datas before after)
    (hkeeps : first.Keeps last) (htree : first.trees.get output = before.trees.get output)
    (htree' : last.trees.get output = after.trees.get output)
    (hfind : ∀ kind name,
      last.registry.find? kind name output = after.registry.find? kind name output) :
    Allocates output datas first last := by
  have hsame : last.placeholder? output = after.placeholder? output := funext fun data =>
    hfind data.kind data.qualifiedName
  refine ⟨hkeeps, ?_, ?_, ?_⟩
  · rw [hsame]
    exact hallocates.entered
  · rw [htree, htree', hsame]
    exact hallocates.covered
  · rw [htree, htree', hsame]
    exact hallocates.roots

end Allocates

/-- Only a module is allocated without a container. -/
private theorem alloc_container {id : DeclId}
    (halloc : before.alloc output container data = .ok (id, after)) :
    data.kind = .module ∨ container.isSome = true := by
  by_cases hmodule : data.kind = .module
  · exact .inl hmodule
  · cases container with
    | none =>
      simp only [Placement.alloc, if_neg hmodule] at halloc
      cases halloc
    | some owner => exact .inr rfl

/-- Every placeholder but that of a module has a container. -/
theorem ofForest_contained {forest : MergedForest} {placement : Placement}
    (hplacement : ofForest forest = .ok placement) (output : Output) (id : DeclId)
    (declaration : Declaration) (hget : (placement.trees.get output).get? id = some declaration)
    (hkind : declaration.kind ≠ .module) : declaration.container.isSome = true := by
  refine visitAll_induction (P := fun placement => ∀ id declaration,
      (placement.trees.get output).get? id = some declaration → declaration.kind ≠ .module →
        declaration.container.isSome = true) forest.roots ?_ ?_ hplacement id declaration hget hkind
  · intro _ _ before after other container data allocated hbefore _ halloc id declaration hget hkind
    by_cases hother : output = other
    · subst hother
      rw [alloc_get? halloc] at hget
      split at hget
      · cases hget
        have hmodule : data.kind ≠ .module := by
          rwa [Declaration.kind, Data.kind_placeholder] at hkind
        rw [if_neg hmodule]
        exact (alloc_container halloc).resolve_left hmodule
      · exact hbefore id declaration hget hkind
    · rw [alloc_other halloc hother] at hget
      exact hbefore id declaration hget hkind
  · intro id declaration hget
    rw [empty, PerOutput.get_replicate] at hget
    cases hget

/-- The data of a node, and of the nodes below it that are not passed over, has its placeholders in
an output: a module in no container, anything else in the placeholder of the node above. -/
inductive Seated (placement : Placement) (output : Output) : Option DeclId → MergedNode → Prop
  | node {container : Option DeclId} {payloads : PerOutput (Option Data)}
      {children : List MergedNode}
      (hself : ∀ data, payloads.get output = some data → ∃ id,
        placement.HasPlace output container data.kind data.qualifiedName id ∧
          (data.kind = .module ∨ container.isSome = true))
      (hbelow : ∀ child ∈ children, child.isRegistered = true →
        Seated placement output ((payloads.get output).bind (placement.placeholder? output)) child) :
      Seated placement output container ⟨payloads, children⟩

theorem Seated.mono {node : MergedNode} (hseated : before.Seated output container node)
    (hkeeps : before.Keeps after) : after.Seated output container node := by
  induction hseated with
  | @node container payloads children hself hbelow ih =>
    have hsame : (payloads.get output).bind (after.placeholder? output) =
        (payloads.get output).bind (before.placeholder? output) := by
      cases hdata : payloads.get output with
      | none => rfl
      | some data =>
        obtain ⟨id, hplace, -⟩ := hself data hdata
        rw [Option.bind_some, Option.bind_some, placeholder?, placeholder?, hplace.entered,
          (hplace.mono hkeeps).entered]
    refine .node (fun data hdata => ?_) (hsame ▸ ih)
    obtain ⟨id, hplace, hcontainer⟩ := hself data hdata
    exact ⟨id, hplace.mono hkeeps, hcontainer⟩

variable (output) in
/-- What allocating the placeholders of one node does to one output. -/
private theorem allocIn_output {payloads : PerOutput (Option Data)} {containers places : Places}
    (hrun : Output.all.foldlM (allocIn payloads containers) (before, .replicate none) =
      .ok (after, places)) :
    Allocates output (payloads.get output).toList before after ∧
      (∀ data, payloads.get output = some data → ∃ id,
        after.HasPlace output (containers.get output) data.kind data.qualifiedName id ∧
          (data.kind = .module ∨ (containers.get output).isSome = true)) ∧
      places.get output = (payloads.get output).bind (after.placeholder? output) := by
  have hkeeps : before.Keeps after :=
    allocIn_induction (P := before.Keeps) (fun hmiddle _ halloc => hmiddle.trans (alloc_keeps halloc))
      ⟨fun _ _ _ _ hfind => hfind, fun _ _ _ hget => hget⟩ hrun
  obtain ⟨⟨middle, noted⟩, ⟨done, placed⟩, hmiddle, hstep, hafter⟩ :=
    Output.foldlM_all output allocIn_other hrun
  obtain ⟨htree, hrest⟩ := Prod.mk.inj hmiddle
  obtain ⟨hfind, hnoted⟩ := Prod.mk.inj hrest
  obtain ⟨htree', hrest'⟩ := Prod.mk.inj hafter
  obtain ⟨hfind', hplaced⟩ := Prod.mk.inj hrest'
  have hsame (kind : Kind) (name : QualifiedName) :
      after.registry.find? kind name output = done.registry.find? kind name output :=
    congrFun (congrFun hfind' kind) name
  cases hpayload : payloads.get output with
  | none =>
    simp only [allocIn, hpayload] at hstep
    cases hstep
    refine ⟨(Allocates.refl output middle).congr hkeeps htree.symm htree' hsame,
      fun _ hdata => (Option.some_ne_none _ hdata.symm).elim, ?_⟩
    exact hplaced.trans (hnoted.trans (PerOutput.get_replicate none output))
  | some data =>
    simp only [allocIn, hpayload] at hstep
    obtain ⟨⟨id, allocated⟩, halloc, heq⟩ := Except.bind_eq_ok.mp hstep
    cases heq
    have hallocates := (Allocates.alloc halloc).congr hkeeps htree.symm htree' hsame
    have hplace : after.placeholder? output data = some id := by
      obtain ⟨-, hregister, -⟩ := alloc_eq_ok halloc
      rw [placeholder?, hsame, Registry.find?_register hregister,
        if_pos ⟨rfl, rfl, Kind.shares_self _⟩]
    refine ⟨hallocates, ?_, ?_⟩
    · rintro _ ⟨⟩
      refine ⟨id, ⟨hplace, ?_⟩, ?_⟩
      · rw [show after.trees.get output = allocated.trees.get output from htree',
          alloc_get? halloc, if_pos rfl]
        exact ⟨_, rfl, data.kind_placeholder, data.qualifiedName_placeholder, rfl⟩
      · exact alloc_container halloc
    · rw [Option.bind_some, hplace]
      exact hplaced.trans (PerOutput.get_set_self _ _ _)

/-- The data that some nodes have in an output. -/
def dataOf (output : Output) (nodes : List MergedNode) : List Data :=
  nodes.filterMap (·.payloads.get output)

theorem dataOf_cons (output : Output) (node : MergedNode) (nodes : List MergedNode) :
    dataOf output (node :: nodes) = (node.payloads.get output).toList ++ dataOf output nodes := by
  rw [dataOf, List.filterMap_cons]
  cases node.payloads.get output with
  | none => rfl
  | some data => rfl

theorem dataOf_append (output : Output) (nodes others : List MergedNode) :
    dataOf output (nodes ++ others) = dataOf output nodes ++ dataOf output others :=
  List.filterMap_append

mutual
theorem visit_allocates (output : Output) : ∀ (node : MergedNode) {before after : Placement}
    {containers : Places}, before.visit containers node = .ok after →
    Allocates output (dataOf output node.visited) before after ∧
      (node.isRegistered = true → after.Seated output (containers.get output) node)
  | ⟨payloads, children⟩, before, after, containers, hrun => by
    rw [visit] at hrun
    rw [MergedNode.visited]
    by_cases hkind : (MergedNode.kind? ⟨payloads, []⟩).any (·.isRegistered) = true
    · rw [if_pos hkind] at hrun ⊢
      obtain ⟨⟨middle, places⟩, hself, hchildren⟩ := Except.bind_eq_ok.mp hrun
      obtain ⟨hallocates, hplaced, hplaces⟩ := allocIn_output output hself
      obtain ⟨hbelow, hseated⟩ := visitAll_allocates output children hchildren
      have hsame : (payloads.get output).bind (after.placeholder? output) = places.get output := by
        rw [hplaces]
        cases hdata : payloads.get output with
        | none => rfl
        | some data =>
          obtain ⟨id, hplace, -⟩ := hplaced data hdata
          rw [Option.bind_some, Option.bind_some, placeholder?, placeholder?, hplace.entered,
            (hplace.mono hbelow.keeps).entered]
      refine ⟨?_, fun _ => .node (fun data hdata => ?_) (hsame ▸ hseated)⟩
      · rw [dataOf_cons]
        exact hallocates.trans hbelow
      · obtain ⟨id, hplace, hcontainer⟩ := hplaced data hdata
        exact ⟨id, hplace.mono hbelow.keeps, hcontainer⟩
    · rw [if_neg hkind] at hrun ⊢
      cases hrun
      exact ⟨.refl output before, fun hregistered => absurd hregistered hkind⟩
/-- Allocating the placeholders of some nodes allocates those of the nodes that are not passed over. -/
theorem visitAll_allocates (output : Output) : ∀ (nodes : List MergedNode)
    {before after : Placement} {containers : Places},
    before.visitAll containers nodes = .ok after →
    Allocates output (dataOf output (visitedAll nodes)) before after ∧
      ∀ node ∈ nodes, node.isRegistered = true →
        after.Seated output (containers.get output) node
  | [], before, after, containers, hrun => by
    cases hrun
    exact ⟨.refl output before, fun _ hnode => absurd hnode List.not_mem_nil⟩
  | node :: nodes, before, after, containers, hrun => by
    rw [visitAll] at hrun
    obtain ⟨middle, hnode, hnodes⟩ := Except.bind_eq_ok.mp hrun
    obtain ⟨hfirst, hseated⟩ := visit_allocates output node hnode
    obtain ⟨hrest, hseatedAll⟩ := visitAll_allocates output nodes hnodes
    refine ⟨?_, List.forall_mem_cons.mpr ⟨fun hkind => ?_, hseatedAll⟩⟩
    · rw [MergedNode.visitedAll, dataOf_append]
      exact hfirst.trans hrest
    · exact (hseated hkind).mono hrest.keeps
end

end Placement

end Concord
