import Concord.Output.Placement
import Concord.Proofs.Output.Registry
import Concord.Proofs.Tree.Lookup

namespace Concord

theorem MergedNode.mem_walkAll {node : MergedNode} {nodes : List MergedNode} :
    node ∈ walkAll nodes ↔ ∃ top ∈ nodes, node ∈ top.walk := by
  induction nodes with
  | nil => simp [walkAll]
  | cons top nodes ih => simp [walkAll, ih]

theorem MergedNode.mem_walk_self (node : MergedNode) : node ∈ node.walk := by
  cases node
  rw [walk]
  exact List.mem_cons_self

@[simp] theorem Data.qualifiedName_placeholder (data : Data) :
    data.placeholder.qualifiedName = data.qualifiedName := by
  rw [placeholder]
  split <;> rfl

@[simp] theorem Data.kind_placeholder (data : Data) : data.placeholder.kind = data.kind := by
  rw [placeholder]
  split
  · next info hpayload => rw [kind, kind, hpayload]; rfl
  · rfl

namespace Placement

variable {placement before after : Placement} {output : Output} {id : DeclId} {data : Data}

/-- The placeholder of a module is a root, and any other one stands in a container. -/
theorem alloc_eq_ok {container : Option DeclId}
    (halloc : before.alloc output container data = .ok (id, after)) :
    id = ⟨(before.trees.get output).size⟩ ∧
      before.registry.register data output id = .ok after.registry ∧
      ∃ grown, after.trees = before.trees.set output grown ∧
        ((data.kind = .module ∧ grown = ((before.trees.get output).addRoot data.placeholder).2) ∨
          (data.kind ≠ .module ∧
            grown = ((before.trees.get output).alloc data.placeholder container).2)) := by
  by_cases hkind : data.kind = .module
  · simp only [alloc, if_pos hkind, pure_bind] at halloc
    obtain ⟨registry, hregistry, heq⟩ := Except.bind_eq_ok.mp halloc
    cases heq
    exact ⟨rfl, hregistry, _, rfl, .inl ⟨hkind, rfl⟩⟩
  · cases container with
    | none =>
      simp only [alloc, if_neg hkind] at halloc
      cases halloc
    | some owner =>
      simp only [alloc, if_neg hkind, pure_bind] at halloc
      obtain ⟨registry, hregistry, heq⟩ := Except.bind_eq_ok.mp halloc
      cases heq
      exact ⟨rfl, hregistry, _, rfl, .inr ⟨hkind, rfl⟩⟩

/-- What is allocated is found, and what was there is there as before. -/
theorem alloc_get? {container : Option DeclId}
    (halloc : before.alloc output container data = .ok (id, after)) (other : DeclId) :
    (after.trees.get output).get? other =
      if other = id then
        some ⟨data.placeholder, if data.kind = .module then none else container, []⟩
      else (before.trees.get output).get? other := by
  obtain ⟨rfl, -, grown, htrees, ⟨hkind, rfl⟩ | ⟨hkind, rfl⟩⟩ := alloc_eq_ok halloc
  · rw [htrees, PerOutput.get_set_self, Tree.get?_addRoot, if_pos hkind]
  · rw [htrees, PerOutput.get_set_self, Tree.get?_alloc, if_neg hkind]

theorem alloc_other {container : Option DeclId} {other : Output}
    (halloc : before.alloc output container data = .ok (id, after)) (hne : other ≠ output) :
    after.trees.get other = before.trees.get other := by
  obtain ⟨-, -, grown, htrees, -⟩ := alloc_eq_ok halloc
  rw [htrees, PerOutput.get_set_ne _ _ hne]

/-- Allocation leaves what is registered. -/
theorem alloc_find? {container : Option DeclId}
    (halloc : before.alloc output container data = .ok (id, after)) {kind : Kind}
    {name : QualifiedName} {other : Output} {found : DeclId}
    (hfind : before.registry.find? kind name other = some found) :
    after.registry.find? kind name other = some found := by
  obtain ⟨-, hregister, -⟩ := alloc_eq_ok halloc
  rw [Registry.find?_register hregister]
  split
  · next hsame =>
    obtain ⟨rfl, rfl, hshares⟩ := hsame
    obtain ⟨-, hfree, -⟩ := Registry.register_eq_ok.mp hregister
    rw [Registry.find?_of_shares hshares, hfree] at hfind
    cases hfind
  · exact hfind

section Induction

variable {P : Placement → Prop}

theorem allocIn_induction {payloads : PerOutput (Option Data)} {containers : Places}
    (hstep : ∀ {before after : Placement} {output : Output} {container : Option DeclId}
      {data : Data} {id : DeclId}, P before → payloads.get output = some data →
      before.alloc output container data = .ok (id, after) → P after)
    {before after : Placement × Places} (hbefore : P before.1)
    (hrun : Output.all.foldlM (allocIn payloads containers) before = .ok after) : P after.1 := by
  refine Except.foldlM_keeps (P := fun state => P state.1) ?_ hbefore hrun
  rintro ⟨placement, places⟩ output ⟨next, noted⟩ - hplacement hrun
  cases hpayload : payloads.get output with
  | none =>
    simp only [allocIn, hpayload] at hrun
    cases hrun
    exact hplacement
  | some data =>
    simp only [allocIn, hpayload] at hrun
    obtain ⟨⟨id, allocated⟩, halloc, heq⟩ := Except.bind_eq_ok.mp hrun
    cases heq
    exact hstep hplacement hpayload halloc

mutual
theorem visit_induction : ∀ (node : MergedNode) {before after : Placement}
    {containers : Places},
    (∀ below ∈ node.walk, ∀ {before after : Placement} {output : Output}
      {container : Option DeclId} {data : Data} {id : DeclId}, P before →
      below.payloads.get output = some data →
      before.alloc output container data = .ok (id, after) → P after) →
    P before → before.visit containers node = .ok after → P after
  | ⟨payloads, children⟩, before, after, containers, hstep, hbefore, hrun => by
    rw [MergedNode.walk] at hstep
    obtain ⟨hself, hbelow⟩ := List.forall_mem_cons.mp hstep
    rw [visit] at hrun
    split at hrun
    · obtain ⟨⟨middle, places⟩, hmiddle, hrun⟩ := Except.bind_eq_ok.mp hrun
      have hmiddle := allocIn_induction (fun hp => hself hp) hbefore hmiddle
      exact visitAll_induction children hbelow hmiddle hrun
    · cases hrun
      exact hbefore
/-- What the allocation of the placeholders of some nodes keeps holds after visiting them. -/
theorem visitAll_induction : ∀ (nodes : List MergedNode) {before after : Placement}
    {containers : Places},
    (∀ below ∈ MergedNode.walkAll nodes, ∀ {before after : Placement} {output : Output}
      {container : Option DeclId} {data : Data} {id : DeclId}, P before →
      below.payloads.get output = some data →
      before.alloc output container data = .ok (id, after) → P after) →
    P before → before.visitAll containers nodes = .ok after → P after
  | [], before, after, containers, hstep, hbefore, hrun => by
    cases hrun
    exact hbefore
  | node :: nodes, before, after, containers, hstep, hbefore, hrun => by
    rw [MergedNode.walkAll] at hstep
    obtain ⟨hnode, hnodes⟩ := List.forall_mem_append.mp hstep
    rw [visitAll] at hrun
    obtain ⟨middle, hmiddle, hrun⟩ := Except.bind_eq_ok.mp hrun
    exact visitAll_induction nodes hnodes (visit_induction node hnode hbefore hmiddle) hrun
end

end Induction

/-- The placeholders of an output bear their names and list nothing yet. -/
structure Bare (placement : Placement) (output : Output) : Prop where
  named : ∀ kind name id, placement.registry.find? kind name output = some id →
    ∃ declaration, (placement.trees.get output).get? id = some declaration ∧
      kind.shares declaration.kind = true ∧ declaration.qualifiedName = name
  childless : ∀ id, (placement.trees.get output).children id = []

theorem visitAll_find? {nodes : List MergedNode} {containers : Places}
    (hrun : before.visitAll containers nodes = .ok after) {kind : Kind} {name : QualifiedName}
    (hfind : before.registry.find? kind name output = some id) :
    after.registry.find? kind name output = some id :=
  visitAll_induction nodes (fun _ _ _ _ _ _ _ _ hfind _ halloc => alloc_find? halloc hfind)
    hfind hrun

private theorem Bare.alloc (hbare : before.Bare output) {other : Output}
    {container : Option DeclId} (halloc : before.alloc other container data = .ok (id, after)) :
    after.Bare output := by
  obtain ⟨hid, hregister, -⟩ := alloc_eq_ok halloc
  by_cases hother : output = other
  · subst hother
    refine ⟨fun kind name found hfind => ?_, fun found => ?_⟩
    · rw [Registry.find?_register hregister] at hfind
      rw [alloc_get? halloc]
      split at hfind
      · next hsame =>
        cases hfind
        refine ⟨_, if_pos rfl, ?_, by rw [hsame.2.1]; exact data.qualifiedName_placeholder⟩
        rw [Declaration.kind, Data.kind_placeholder]
        exact hsame.2.2
      · obtain ⟨declaration, hget, hnamed⟩ := hbare.named kind name found hfind
        refine ⟨declaration, ?_, hnamed⟩
        rw [if_neg, hget]
        rintro rfl
        exact absurd (Tree.lt_size_of_get? hget) (by rw [hid]; exact Nat.lt_irrefl _)
    · have hchildless := hbare.childless found
      rw [Tree.children_eq_getD] at hchildless ⊢
      rw [alloc_get? halloc]
      split
      · rfl
      · exact hchildless
  · have htree := alloc_other halloc hother
    refine ⟨fun kind name found hfind => ?_, fun found => ?_⟩
    · rw [Registry.find?_register hregister, if_neg fun hsame => hother hsame.1] at hfind
      rw [htree]
      exact hbare.named kind name found hfind
    · rw [htree]
      exact hbare.childless found

/-- The placeholders of a forest bear their names and list nothing yet. -/
theorem ofForest_bare {forest : MergedForest} (hplacement : ofForest forest = .ok placement)
    (output : Output) : placement.Bare output := by
  refine visitAll_induction (P := fun placement => placement.Bare output) forest.roots
    (fun _ _ _ _ _ _ _ _ hbare _ halloc => hbare.alloc halloc)
    ⟨fun kind name id hfind => ?_, fun id => ?_⟩ hplacement
  · rw [empty, Registry.find?_empty] at hfind
    cases hfind
  · rw [empty, PerOutput.get_replicate, Tree.children_eq_getD]
    rfl

/-- Nodes that are no modules add no roots. -/
private theorem visitAll_roots {nodes : List MergedNode} {containers : Places}
    (hkinds : ∀ node ∈ MergedNode.walkAll nodes, ∀ data, node.payloads.get output = some data →
      data.kind ≠ .module)
    (hrun : before.visitAll containers nodes = .ok after) :
    (after.trees.get output).roots = (before.trees.get output).roots := by
  refine visitAll_induction (P := fun placement =>
    (placement.trees.get output).roots = (before.trees.get output).roots) nodes
    (fun node hnode middle next other container data id hmiddle hpayload halloc => ?_) rfl hrun
  by_cases hother : output = other
  · subst hother
    obtain ⟨-, -, grown, htrees, ⟨hkind, -⟩ | ⟨-, rfl⟩⟩ := alloc_eq_ok halloc
    · exact absurd hkind (hkinds node hnode data hpayload)
    · rw [htrees, PerOutput.get_set_self, Tree.roots_alloc, hmiddle]
  · rw [alloc_other halloc hother, hmiddle]

/-- What is seen of one output while placeholders are allocated. -/
def seen (state : Placement × Places) (output : Output) :
    Tree × (Kind → QualifiedName → Option DeclId) × Option DeclId :=
  (state.1.trees.get output, fun kind name => state.1.registry.find? kind name output,
    state.2.get output)

theorem allocIn_other {payloads : PerOutput (Option Data)} {containers : Places}
    {before after : Placement × Places} {output other : Output}
    (hrun : allocIn payloads containers before other = .ok after) (hne : other ≠ output) :
    seen after output = seen before output := by
  obtain ⟨placement, noted⟩ := before
  cases hpayload : payloads.get other with
  | none =>
    simp only [allocIn, hpayload] at hrun
    cases hrun
    rfl
  | some data =>
    simp only [allocIn, hpayload] at hrun
    obtain ⟨⟨id, allocated⟩, halloc, heq⟩ := Except.bind_eq_ok.mp hrun
    cases heq
    obtain ⟨-, hregister, -⟩ := alloc_eq_ok halloc
    refine Prod.ext (alloc_other halloc (Ne.symm hne)) (Prod.ext ?_ ?_)
    · funext kind name
      show allocated.registry.find? kind name output = _
      rw [Registry.find?_register hregister, if_neg fun hsame => hne hsame.1.symm]
      rfl
    · exact PerOutput.get_set_ne _ _ (Ne.symm hne)

/-- A module is a root of the outputs that have it. -/
private theorem allocIn_roots {payloads : PerOutput (Option Data)} {containers places : Places}
    (hkind : ∀ data, payloads.get output = some data → data.kind = .module)
    (hrun : Output.all.foldlM (allocIn payloads containers) (before, .replicate none) =
      .ok (after, places)) :
    (after.trees.get output).roots.map some = (before.trees.get output).roots.map some ++
      (payloads.get output).toList.map fun data =>
        after.registry.find? .module data.qualifiedName output := by
  obtain ⟨⟨middle, noted⟩, ⟨done, placed⟩, hmiddle, hstep, hafter⟩ :=
    Output.foldlM_all output allocIn_other hrun
  obtain ⟨htree, -⟩ := Prod.mk.inj hmiddle
  obtain ⟨htree', hrest⟩ := Prod.mk.inj hafter
  obtain ⟨hfind, -⟩ := Prod.mk.inj hrest
  rw [show after.trees.get output = done.trees.get output from htree',
    ← show middle.trees.get output = before.trees.get output from htree]
  cases hpayload : payloads.get output with
  | none =>
    simp only [allocIn, hpayload] at hstep
    cases hstep
    simp
  | some data =>
    simp only [allocIn, hpayload] at hstep
    obtain ⟨⟨id, allocated⟩, halloc, heq⟩ := Except.bind_eq_ok.mp hstep
    cases heq
    have hmodule := hkind data hpayload
    obtain ⟨rfl, hregister, grown, htrees, ⟨-, rfl⟩ | ⟨hne, -⟩⟩ := alloc_eq_ok halloc
    · have hfound : after.registry.find? .module data.qualifiedName output =
          some ⟨(middle.trees.get output).size⟩ := by
        refine (congrFun (congrFun hfind .module) data.qualifiedName).trans ?_
        show allocated.registry.find? .module data.qualifiedName output = _
        rw [Registry.find?_register hregister, if_pos ⟨rfl, rfl, by rw [hmodule]; rfl⟩]
      simp only [htrees, PerOutput.get_set_self, Option.toList_some, List.map_cons, List.map_nil,
        hfound, Tree.addRoot, List.map_append]
      rfl
    · exact absurd hmodule hne

private theorem visitAll_modules {nodes : List MergedNode} {containers : Places}
    (htop : ∀ node ∈ nodes, ∀ data, node.payloads.get output = some data →
      data.kind = .module ∧ node.kind? = some .module)
    (hbelow : ∀ node ∈ nodes, ∀ below ∈ MergedNode.walkAll node.children, ∀ data,
      below.payloads.get output = some data → data.kind ≠ .module)
    (hrun : before.visitAll containers nodes = .ok after) :
    (after.trees.get output).roots.map some = (before.trees.get output).roots.map some ++
      (nodes.filterMap (·.payloads.get output)).map fun data =>
        after.registry.find? .module data.qualifiedName output := by
  induction nodes generalizing before with
  | nil =>
    cases hrun
    simp
  | cons node nodes ih =>
    obtain ⟨payloads, children⟩ := node
    obtain ⟨htop, htops⟩ := List.forall_mem_cons.mp htop
    obtain ⟨hbelow, hbelows⟩ := List.forall_mem_cons.mp hbelow
    rw [visitAll] at hrun
    obtain ⟨middle, hnode, hnodes⟩ := Except.bind_eq_ok.mp hrun
    have hmiddle : (middle.trees.get output).roots.map some =
        (before.trees.get output).roots.map some ++ (payloads.get output).toList.map fun data =>
          after.registry.find? .module data.qualifiedName output := by
      rw [visit] at hnode
      split at hnode
      · obtain ⟨⟨placed, places⟩, hplaced, hchildren⟩ := Except.bind_eq_ok.mp hnode
        have hroots := allocIn_roots (fun data hdata => (htop data hdata).1) hplaced
        rw [visitAll_roots hbelow hchildren, hroots]
        congr 1
        refine List.map_congr_left fun data hdata => ?_
        -- a module that is registered stays so while the rest is visited
        have hfound : ∃ id, placed.registry.find? .module data.qualifiedName output = some id := by
          have hmem : placed.registry.find? .module data.qualifiedName output ∈
              (placed.trees.get output).roots.map some := by
            rw [hroots]
            exact List.mem_append_right _ (List.mem_map_of_mem hdata)
          obtain ⟨id, -, hid⟩ := List.mem_map.mp hmem
          exact ⟨id, hid.symm⟩
        obtain ⟨id, hid⟩ := hfound
        rw [hid, visitAll_find? hnodes (visitAll_find? hchildren hid)]
      · next hskipped =>
        cases hnode
        cases hpayload : payloads.get output with
        | none => simp
        | some data =>
          have hkind := (htop data hpayload).2
          exact absurd (by rw [show (MergedNode.mk payloads []).kind? = _ from hkind]; rfl) hskipped
    rw [ih htops hbelows hnodes, hmiddle, List.append_assoc, ← List.map_append]
    congr 2
    cases hpayload : payloads.get output with
    | none => simp [hpayload]
    | some data => simp [hpayload]

/-- The roots of an output are the placeholders of its modules, in the order of the forest. -/
theorem ofForest_roots {forest : MergedForest} (hplacement : ofForest forest = .ok placement)
    (htop : ∀ node ∈ forest.roots, ∀ data, node.payloads.get output = some data →
      data.kind = .module ∧ node.kind? = some .module)
    (hbelow : ∀ node ∈ forest.roots, ∀ below ∈ MergedNode.walkAll node.children, ∀ data,
      below.payloads.get output = some data → data.kind ≠ .module) :
    (placement.trees.get output).roots.map some =
      (forest.roots.filterMap (·.payloads.get output)).map fun data =>
        placement.registry.find? .module data.qualifiedName output := by
  have hroots := visitAll_modules htop hbelow hplacement
  rwa [empty, PerOutput.get_replicate] at hroots

end Placement

end Concord
