import Concord.Proofs.Output.Orderly

namespace Concord

namespace Placement

variable {placement before middle after : Placement}

/-- What is entered and allocated stays as it is. -/
structure Keeps (before after : Placement) : Prop where
  entered : ∀ kind name output id, before.registry.find? kind name output = some id →
    after.registry.find? kind name output = some id
  allocated : ∀ output id declaration, (before.trees.get output).get? id = some declaration →
    (after.trees.get output).get? id = some declaration

theorem Keeps.trans (hfirst : before.Keeps middle) (hsecond : middle.Keeps after) :
    before.Keeps after where
  entered kind name output id hfind :=
    hsecond.entered kind name output id (hfirst.entered kind name output id hfind)
  allocated output id declaration hget :=
    hsecond.allocated output id declaration (hfirst.allocated output id declaration hget)

theorem alloc_keeps {output : Output} {container : Option DeclId} {data : Data} {id : DeclId}
    (halloc : before.alloc output container data = .ok (id, after)) : before.Keeps after where
  entered _ _ _ _ := alloc_find? halloc
  allocated other found declaration hget := by
    by_cases hother : other = output
    · subst hother
      rw [alloc_get? halloc, if_neg, hget]
      rintro rfl
      obtain ⟨hid, -⟩ := alloc_eq_ok halloc
      exact absurd (Tree.lt_size_of_get? hget) (by rw [hid]; exact Nat.lt_irrefl _)
    · rw [alloc_other halloc hother, hget]

private theorem Keeps.refl (placement : Placement) : placement.Keeps placement :=
  ⟨fun _ _ _ _ h => h, fun _ _ _ h => h⟩

theorem allocIn_keeps {payloads : PerOutput (Option Data)} {containers places : Places}
    (hrun : Output.all.foldlM (allocIn payloads containers) (before, .replicate none) =
      .ok (after, places)) : before.Keeps after :=
  allocIn_induction (P := before.Keeps) (fun hkeeps _ halloc => hkeeps.trans (alloc_keeps halloc))
    (.refl before) hrun

theorem visit_keeps {node : MergedNode} {containers : Places}
    (hrun : before.visit containers node = .ok after) : before.Keeps after :=
  visit_induction (P := before.Keeps) node
    (fun _ _ _ _ _ _ _ _ hkeeps _ halloc => hkeeps.trans (alloc_keeps halloc)) (.refl before) hrun

theorem visitAll_keeps {nodes : List MergedNode} {containers : Places}
    (hrun : before.visitAll containers nodes = .ok after) : before.Keeps after :=
  visitAll_induction (P := before.Keeps) nodes
    (fun _ _ _ _ _ _ _ _ hkeeps _ halloc => hkeeps.trans (alloc_keeps halloc)) (.refl before) hrun

/-- Some of the nodes has a declaration of this name space and name. -/
def Names (nodes : List MergedNode) (kind : Kind) (name : QualifiedName) (output : Output) : Prop :=
  ∃ node ∈ nodes, ∃ data, node.payloads.get output = some data ∧
    kind.shares data.kind = true ∧ name = data.qualifiedName

/-- What is entered was entered before or is named by a node. -/
def Enters (nodes : List MergedNode) (before after : Placement) : Prop :=
  ∀ kind name output id, after.registry.find? kind name output = some id →
    before.registry.find? kind name output = some id ∨ Names nodes kind name output

private theorem Enters.alloc {nodes : List MergedNode} {node : MergedNode} {output : Output}
    {container : Option DeclId} {data : Data} {id : DeclId} (henters : Enters nodes before middle)
    (hnode : node ∈ nodes) (hdata : node.payloads.get output = some data)
    (halloc : middle.alloc output container data = .ok (id, after)) :
    Enters nodes before after := by
  intro kind name other found hfind
  obtain ⟨-, hregister, -⟩ := alloc_eq_ok halloc
  rw [Registry.find?_register hregister] at hfind
  split at hfind
  · next hsame =>
    obtain ⟨rfl, rfl, hshares⟩ := hsame
    exact .inr ⟨node, hnode, data, hdata, hshares, rfl⟩
  · exact henters kind name other found hfind

theorem allocIn_enters {payloads : PerOutput (Option Data)} {containers places : Places}
    (hrun : Output.all.foldlM (allocIn payloads containers) (before, .replicate none) =
      .ok (after, places)) (children : List MergedNode) :
    Enters [.mk payloads children] before after :=
  allocIn_induction (P := Enters [.mk payloads children] before)
    (fun henters hdata halloc => henters.alloc (List.mem_singleton_self _) hdata halloc)
    (fun _ _ _ _ h => .inl h) hrun

theorem visit_enters {node : MergedNode} {containers : Places}
    (hrun : before.visit containers node = .ok after) : Enters node.walk before after :=
  visit_induction (P := Enters node.walk before) node
    (fun _ hbelow _ _ _ _ _ _ henters hdata halloc => henters.alloc hbelow hdata halloc)
    (fun _ _ _ _ h => .inl h) hrun

theorem visitAll_enters {nodes : List MergedNode} {containers : Places}
    (hrun : before.visitAll containers nodes = .ok after) :
    Enters (MergedNode.walkAll nodes) before after :=
  visitAll_induction (P := Enters (MergedNode.walkAll nodes) before) nodes
    (fun _ hbelow _ _ _ _ _ _ henters hdata halloc => henters.alloc hbelow hdata halloc)
    (fun _ _ _ _ h => .inl h) hrun

section Allotted

/-- A placeholder for a registered declaration of this kind and name, in the given container. -/
structure HasPlace (placement : Placement) (output : Output) (container : Option DeclId) (kind : Kind)
    (name : QualifiedName) (id : DeclId) : Prop where
  entered : placement.registry.find? kind name output = some id
  allocated : ∃ declaration, (placement.trees.get output).get? id = some declaration ∧
    declaration.kind = kind ∧ declaration.qualifiedName = name ∧
    declaration.container = if kind = .module then none else container

/-- A registered node and the registered nodes below it have their placeholders, each in that of its
owner. -/
inductive Allots (placement : Placement) : Places → MergedNode → Prop
  | node {containers places : Places} {payloads : PerOutput (Option Data)}
      {children : List MergedNode}
      (hself : ∀ output data, payloads.get output = some data → data.kind.isRegistered = true →
        ∃ id, places.get output = some id ∧
          placement.HasPlace output (containers.get output) data.kind data.qualifiedName id)
      (hbelow : ∀ child ∈ children, child.isRegistered = true → Allots placement places child) :
      Allots placement containers ⟨payloads, children⟩

theorem HasPlace.mono {output : Output} {container : Option DeclId} {kind : Kind}
    {name : QualifiedName} {id : DeclId} (hplace : before.HasPlace output container kind name id)
    (hkeeps : before.Keeps after) : after.HasPlace output container kind name id := by
  obtain ⟨hentered, declaration, hget, hfits⟩ := hplace
  exact ⟨hkeeps.entered _ _ _ _ hentered, declaration, hkeeps.allocated _ _ _ hget, hfits⟩

/-- Only the containers of what is registered count. -/
theorem Allots.congr {containers others : Places} {node : MergedNode}
    (hallots : placement.Allots containers node)
    (hsame : ∀ output data, node.payloads.get output = some data →
      data.kind.isRegistered = true → containers.get output = others.get output) :
    placement.Allots others node := by
  cases hallots with
  | node hself hbelow =>
    refine .node (fun output data hdata hregistered => ?_) hbelow
    rw [← hsame output data hdata hregistered]
    exact hself output data hdata hregistered

theorem Allots.mono {containers : Places} {node : MergedNode}
    (hallots : before.Allots containers node) (hkeeps : before.Keeps after) :
    after.Allots containers node := by
  induction hallots with
  | node hself _ ih =>
    refine .node (fun output data hdata hregistered => ?_) ih
    obtain ⟨id, hid, hplace⟩ := hself output data hdata hregistered
    exact ⟨id, hid, hplace.mono hkeeps⟩

private theorem alloc_succeeds {output : Output} {container : Option DeclId} {data : Data}
    (hcontainer : data.kind = .module ∨ container.isSome = true)
    (hregistered : data.kind.isRegistered = true)
    (hfree : before.registry.find? data.kind data.qualifiedName output = none) :
    ∃ id after, before.alloc output container data = .ok (id, after) ∧
      after.HasPlace output container data.kind data.qualifiedName id := by
  obtain ⟨names, hnames⟩ := before.registry.exists_names? hregistered
  have hregister : before.registry.register data output ⟨(before.trees.get output).size⟩ = .ok _ :=
    Registry.register_eq_ok.mpr ⟨hregistered, hfree, names, hnames, rfl⟩
  obtain ⟨id, after, halloc⟩ : ∃ id after, before.alloc output container data = .ok (id, after) := by
    by_cases hmodule : data.kind = .module
    · simp only [alloc, if_pos hmodule, pure_bind]
      exact ⟨_, _, Except.bind_eq_ok.mpr ⟨_, hregister, rfl⟩⟩
    · obtain ⟨owner, rfl⟩ := Option.isSome_iff_exists.mp (hcontainer.resolve_left hmodule)
      simp only [alloc, if_neg hmodule, pure_bind]
      exact ⟨_, _, Except.bind_eq_ok.mpr ⟨_, hregister, rfl⟩⟩
  refine ⟨id, after, halloc, ?_, ?_⟩
  · obtain ⟨-, hentered, -⟩ := alloc_eq_ok halloc
    rw [Registry.find?_register hentered, if_pos ⟨rfl, rfl, Kind.shares_self _⟩]
  · rw [alloc_get? halloc, if_pos rfl]
    exact ⟨_, rfl, data.kind_placeholder, data.qualifiedName_placeholder, rfl⟩

/-- A declaration that is registered under a name that is still free, and stands in a container. -/
private def Placeable (container : Option DeclId) (payload : Option Data)
    (seen : Tree × (Kind → QualifiedName → Option DeclId) × Option DeclId) : Prop :=
  ∀ data, payload = some data → data.kind.isRegistered = true ∧
    (data.kind = .module ∨ container.isSome = true) ∧
    seen.2.1 data.kind data.qualifiedName = none

/-- A declaration that got its placeholder. -/
private def Allotted (container : Option DeclId) (payload : Option Data)
    (seen : Tree × (Kind → QualifiedName → Option DeclId) × Option DeclId) : Prop :=
  ∀ data, payload = some data → ∃ id, seen.2.2 = some id ∧
    seen.2.1 data.kind data.qualifiedName = some id ∧
    ∃ declaration, seen.1.get? id = some declaration ∧ declaration.kind = data.kind ∧
      declaration.qualifiedName = data.qualifiedName ∧
      declaration.container = if data.kind = .module then none else container

private theorem allocIn_allots {payloads : PerOutput (Option Data)} {containers : Places}
    (state : Placement × Places) (output : Output)
    (hready : Placeable (containers.get output) (payloads.get output) (seen state output)) :
    ∃ state', allocIn payloads containers state output = .ok state' ∧
      Allotted (containers.get output) (payloads.get output) (seen state' output) := by
  obtain ⟨placement, noted⟩ := state
  cases hpayload : payloads.get output with
  | none =>
    refine ⟨(placement, noted), ?_, fun _ hdata => by cases hdata⟩
    simp only [allocIn, hpayload]
    rfl
  | some data =>
    obtain ⟨hregistered, hcontainer, hfree⟩ := hready data hpayload
    obtain ⟨id, allocated, halloc, hplace⟩ := alloc_succeeds hcontainer hregistered hfree
    refine ⟨(allocated, noted.set output (some id)), ?_, fun _ hdata => ?_⟩
    · simp only [allocIn, hpayload]
      exact Except.bind_eq_ok.mpr ⟨_, halloc, rfl⟩
    · cases hdata
      exact ⟨id, PerOutput.get_set_self _ _ _, hplace.entered, hplace.allocated⟩

private theorem allocIn_succeeds {payloads : PerOutput (Option Data)} {containers : Places}
    (hready : ∀ output data, payloads.get output = some data → data.kind.isRegistered = true ∧
      (data.kind = .module ∨ (containers.get output).isSome = true) ∧
      before.registry.find? data.kind data.qualifiedName output = none) :
    ∃ after places,
      Output.all.foldlM (allocIn payloads containers) (before, .replicate none) =
        .ok (after, places) ∧
      ∀ output data, payloads.get output = some data → ∃ id, places.get output = some id ∧
        after.HasPlace output (containers.get output) data.kind data.qualifiedName id := by
  obtain ⟨⟨after, places⟩, hrun, hdone⟩ | ⟨_, _, -, ⟨⟩⟩ := Output.foldlM_all_ends
    (fun output => Placeable (containers.get output) (payloads.get output))
    (fun output _ => Allotted (containers.get output) (payloads.get output)) (fun _ _ => False)
    allocIn_other (fun state output hready => .inl (allocIn_allots state output hready))
    (before, .replicate none) hready
  refine ⟨after, places, hrun, fun output data hdata => ?_⟩
  obtain ⟨id, hid, hentered, hallocated⟩ := hdone output data hdata
  exact ⟨id, hid, hentered, hallocated⟩

/-- The names of some nodes are free. -/
def Free (placement : Placement) (nodes : List MergedNode) : Prop :=
  ∀ node ∈ nodes, ∀ output data, node.payloads.get output = some data →
    data.kind.isRegistered = true →
    placement.registry.find? data.kind data.qualifiedName output = none

/-- Names stay free while other names are entered. -/
private theorem Free.onward {nodes others : List MergedNode} (hfree : before.Free others)
    (henters : Enters nodes before after) (horderly : MergedNode.Orderly (nodes ++ others)) :
    after.Free others := by
  intro node hnode output data hdata hregistered
  refine Option.eq_none_iff_forall_ne_some.mpr fun id hfind => ?_
  obtain hbefore | ⟨other, hother, data', hdata', hshares, hname⟩ := henters _ _ _ _ hfind
  · rw [hfree node hnode output data hdata hregistered] at hbefore
    cases hbefore
  · rw [Kind.shares_comm] at hshares
    exact horderly.apart hother hnode hdata' hdata
      ⟨Kind.isRegistered_of_shares hshares hregistered, hshares, hname.symm⟩

private theorem visit_unregistered {node : MergedNode} {containers : Places}
    (hregistered : node.isRegistered = false) : before.visit containers node = .ok before := by
  obtain ⟨payloads, children⟩ := node
  have hkind : (MergedNode.kind? ⟨payloads, []⟩).any (·.isRegistered) = false := hregistered
  rw [visit, hkind]
  rfl

private theorem visit_registered {payloads : PerOutput (Option Data)} {children : List MergedNode}
    {containers places : Places}
    (hregistered : (MergedNode.mk payloads children).isRegistered = true)
    (hself : Output.all.foldlM (allocIn payloads containers) (before, .replicate none) =
      .ok (middle, places))
    (hbelow : middle.visitAll places children = .ok after) :
    before.visit containers ⟨payloads, children⟩ = .ok after := by
  have hkind : (MergedNode.kind? ⟨payloads, []⟩).any (·.isRegistered) = true := hregistered
  rw [visit, if_pos hkind]
  exact Except.bind_eq_ok.mpr ⟨_, hself, hbelow⟩

mutual
/-- The placeholders of an orderly node whose names are free can be allocated. -/
theorem visit_succeeds : ∀ (node : MergedNode) {before : Placement} {containers : Places},
    MergedNode.Orderly node.walk → before.Free node.walk →
    (∀ output data, node.payloads.get output = some data → data.kind.isRegistered = true →
      data.kind = .module ∨ (containers.get output).isSome = true) →
    ∃ after, before.visit containers node = .ok after ∧
      (node.isRegistered = true → after.Allots containers node)
  | ⟨payloads, children⟩, before, containers, horderly, hfree, hcontainers => by
    rw [MergedNode.walk] at horderly hfree
    obtain ⟨hself, hbelow⟩ := List.forall_mem_cons.mp hfree
    cases hregistered : (MergedNode.mk payloads children).isRegistered with
    | false => exact ⟨before, visit_unregistered hregistered, nofun⟩
    | true =>
      have hall (output : Output) (data : Data) (hdata : payloads.get output = some data) :
          data.kind.isRegistered = true :=
        (horderly.registered _ List.mem_cons_self output data hdata).trans hregistered
      obtain ⟨middle, places, hmiddle, hplaces⟩ := allocIn_succeeds fun output data hdata =>
        ⟨hall output data hdata, hcontainers output data hdata (hall output data hdata),
          hself output data hdata (hall output data hdata)⟩
      obtain ⟨after, hafter, hallots⟩ := visitAll_succeeds children horderly.tail
        (Free.onward hbelow (allocIn_enters hmiddle children) horderly)
        fun child hchild output data hdata hregistered => by
          obtain ⟨owner, howner, -⟩ :=
            horderly.child_registered List.mem_cons_self hchild hdata hregistered
          obtain ⟨id, hid, -⟩ := hplaces output owner howner
          exact .inr (Option.isSome_iff_exists.mpr ⟨id, hid⟩)
      refine ⟨after, visit_registered hregistered hmiddle hafter, fun _ => ?_⟩
      refine .node (fun output data hdata _ => ?_) hallots
      obtain ⟨id, hid, hplace⟩ := hplaces output data hdata
      exact ⟨id, hid, hplace.mono (visitAll_keeps hafter)⟩
theorem visitAll_succeeds : ∀ (nodes : List MergedNode) {before : Placement} {containers : Places},
    MergedNode.Orderly (MergedNode.walkAll nodes) → before.Free (MergedNode.walkAll nodes) →
    (∀ node ∈ nodes, ∀ output data, node.payloads.get output = some data →
      data.kind.isRegistered = true →
      data.kind = .module ∨ (containers.get output).isSome = true) →
    ∃ after, before.visitAll containers nodes = .ok after ∧
      ∀ node ∈ nodes, node.isRegistered = true → after.Allots containers node
  | [], before, containers, _, _, _ => ⟨before, rfl, nofun⟩
  | node :: nodes, before, containers, horderly, hfree, hcontainers => by
    rw [MergedNode.walkAll] at horderly hfree
    obtain ⟨hnode, hnodes⟩ := List.forall_mem_append.mp hfree
    obtain ⟨hcontainer, hcontainers⟩ := List.forall_mem_cons.mp hcontainers
    obtain ⟨middle, hmiddle, hallots⟩ :=
      visit_succeeds node horderly.append_left hnode hcontainer
    obtain ⟨after, hafter, hrest⟩ := visitAll_succeeds nodes horderly.append_right
      (Free.onward hnodes (visit_enters hmiddle) horderly) hcontainers
    refine ⟨after, ?_, List.forall_mem_cons.mpr ⟨fun hregistered => ?_, hrest⟩⟩
    · rw [visitAll]
      exact Except.bind_eq_ok.mpr ⟨middle, hmiddle, hafter⟩
    · exact (hallots hregistered).mono (visitAll_keeps hafter)
end

/-- Every registered declaration of a node has its placeholder. -/
theorem Allots.entered {containers : Places} {node : MergedNode}
    (hallots : placement.Allots containers node) (hnested : MergedNode.Nested node.walk) :
    ∀ below ∈ node.walk, ∀ output data, below.payloads.get output = some data →
      data.kind.isRegistered = true →
      ∃ id, placement.registry.find? data.kind data.qualifiedName output = some id := by
  induction hallots with
  | node hself hchildren ih =>
    intro below hbelow output data hdata hregistered
    rw [MergedNode.walk] at hnested hbelow
    obtain rfl | hbelow := List.mem_cons.mp hbelow
    · obtain ⟨id, -, hplace⟩ := hself output data hdata hregistered
      exact ⟨id, hplace.entered⟩
    · obtain ⟨child, hchild, hbelow⟩ := MergedNode.mem_walkAll.mp hbelow
      have hnested := hnested.tail.of_mem hchild
      cases hkind : child.isRegistered with
      | true => exact ih child hchild hkind hnested below hbelow output data hdata hregistered
      | false =>
        have hnothing := hnested.unregistered child (fun output data hdata => by
          rw [hnested.registered child child.mem_walk_self output data hdata, hkind]) below hbelow
          output data hdata
        rw [hregistered] at hnothing
        cases hnothing

end Allotted

/-- The placeholders of an orderly forest, topped by modules, can be allocated. -/
theorem ofForest_succeeds {forest : MergedForest} (horderly : MergedNode.Orderly forest.nodes)
    (hroots : ∀ root ∈ forest.roots, ∀ output data, root.payloads.get output = some data →
      data.kind = .module) :
    ∃ placement, ofForest forest = .ok placement ∧
      ∀ root ∈ forest.roots, root.isRegistered = true → placement.Allots (.replicate none) root :=
  visitAll_succeeds forest.roots horderly
    (fun _ _ output _ _ _ => by rw [empty, Registry.find?_empty])
    fun root hroot output data hdata _ => .inl (hroots root hroot output data hdata)

end Placement

end Concord
