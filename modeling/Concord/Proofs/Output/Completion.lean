import Concord.Proofs.Output.Allotment
import Concord.Proofs.Output.Growth
import Concord.Proofs.Output.Rebinding

namespace Concord

namespace Part

/-- The placeholders that are not filled yet are as they were allocated. -/
def Awaits (base : Tree) (part : Part) : Prop :=
  ∀ id declaration, base.get? id = some declaration → ¬part.Settled base.size id →
    part.tree.get? id = some declaration

/-- Data of a kind can be put into a container: a module into none, anything else into a settled
declaration that may own it. -/
def Accepts (base : Tree) (part : Part) (container : Option DeclId) (kind : Kind) : Prop :=
  kind = .module ∧ container = none ∨ ∃ owner declaration, container = some owner ∧
    part.Settled base.size owner ∧ part.tree.get? owner = some declaration ∧
    declaration.kind.mayContain kind = true

/-- From one state of an output to a later one, only new placeholders were filled. -/
structure Adds (base : Tree) (new : DeclId → Prop) (before after : Part) : Prop where
  steady : after.Steady base.size
  settled : ∀ id, before.Settled base.size id → after.Settled base.size id
  kept : ∀ id declaration, before.Settled base.size id → before.tree.get? id = some declaration →
    ∃ declaration', after.tree.get? id = some declaration' ∧ declaration'.kind = declaration.kind
  only : ∀ id, id.index < base.size → after.Settled base.size id →
    before.Settled base.size id ∨ new id
  untouched : ∀ id, ¬after.Settled base.size id → after.tree.get? id = before.tree.get? id

variable {base : Tree} {new more all : DeclId → Prop} {before middle after : Part}

namespace Adds

theorem refl (hsteady : before.Steady base.size) : Adds base new before before where
  steady := hsteady
  settled _ h := h
  kept _ declaration _ hget := ⟨declaration, hget, rfl⟩
  only _ _ h := .inl h
  untouched _ _ := rfl

theorem mono (hadds : Adds base new before after) (hnew : ∀ id, new id → all id) :
    Adds base all before after :=
  { hadds with only := fun id hbound hsettled => (hadds.only id hbound hsettled).imp_right (hnew id) }

theorem trans (hfirst : Adds base new before middle) (hsecond : Adds base more middle after)
    (hnew : ∀ id, new id → all id) (hmore : ∀ id, more id → all id) :
    Adds base all before after where
  steady := hsecond.steady
  settled id hsettled := hsecond.settled id (hfirst.settled id hsettled)
  kept id declaration hsettled hget := by
    obtain ⟨declaration', hget', hkind⟩ := hfirst.kept id declaration hsettled hget
    obtain ⟨declaration'', hget'', hkind'⟩ :=
      hsecond.kept id declaration' (hfirst.settled id hsettled) hget'
    exact ⟨declaration'', hget'', hkind'.trans hkind⟩
  only id hbound hsettled := by
    obtain hmiddle | hid := hsecond.only id hbound hsettled
    · exact (hfirst.only id hbound hmiddle).imp_right (hnew id)
    · exact .inr (hmore id hid)
  untouched id hpending := by
    rw [hsecond.untouched id hpending,
      hfirst.untouched id fun hmiddle => hpending (hsecond.settled id hmiddle)]

theorem of_grows {container : Option DeclId} {tops places : List DeclId}
    (hgrows : Grows base.size container tops places before after)
    (hplaces : ∀ id ∈ places, id.index < base.size → new id) : Adds base new before after where
  steady := hgrows.steady
  settled := hgrows.settled
  kept id declaration hsettled hget := by
    have hcontent := hgrows.content id hsettled
    rw [Tree.content?_of_get? hget, Option.map_some] at hcontent
    obtain ⟨declaration', hget', hdata, -⟩ := Tree.content?_eq_some.mp hcontent
    exact ⟨declaration', hget', by rw [Declaration.kind, hdata]; rfl⟩
  only id hbound hsettled :=
    (hgrows.only id hsettled).imp_right fun hid => hplaces id hid hbound
  untouched := hgrows.untouched

theorem awaits (hadds : Adds base new before after) (hawaits : before.Awaits base) :
    after.Awaits base := by
  intro id declaration hget hpending
  rw [hadds.untouched id hpending]
  exact hawaits id declaration hget fun hbefore => hpending (hadds.settled id hbefore)

theorem accepts (hadds : Adds base new before after) {container : Option DeclId} {kind : Kind}
    (haccepts : before.Accepts base container kind) : after.Accepts base container kind := by
  obtain hmodule | ⟨owner, declaration, hcontainer, hsettled, hget, hmay⟩ := haccepts
  · exact .inl hmodule
  · obtain ⟨declaration', hget', hkind⟩ := hadds.kept owner declaration hsettled hget
    exact .inr ⟨owner, declaration', hcontainer, hadds.settled owner hsettled, hget', hkind ▸ hmay⟩

end Adds

end Part

namespace Filling

variable {filling : Filling} {placement : Placement} {options : CompiledOptions} {output : Output}
  {container : Option DeclId} {data : Data}

private theorem fill_succeeds {id : DeclId} {placeholder : Declaration}
    (hfind : placement.registry.find? data.kind data.qualifiedName output = some id)
    (hfresh : (output, id) ∉ filling.filled)
    (hget : (filling.trees.get output).get? id = some placeholder)
    (hkind : placeholder.kind = data.kind) (hname : placeholder.qualifiedName = data.qualifiedName)
    (hattach : ∀ owner, container = some owner →
      (((filling.trees.get output).setData id data).attach owner id).Succeeds) :
    (filling.fill ⟨placement.registry, options⟩ output container data).Succeeds := by
  cases container with
  | none =>
    simp [Except.Succeeds, fill, hfind, hfresh, Tree.fetch, hget, hkind, hname,
      bind, Except.bind, pure, Except.pure]
  | some owner =>
    obtain ⟨grown, hgrown⟩ := hattach owner rfl
    simp [Except.Succeeds, fill, hfind, hfresh, Tree.fetch, hget, hkind, hname, hgrown,
      bind, Except.bind, pure, Except.pure]

/-- Data can be put into a container that accepts it; what is registered needs a placeholder of its
name in the container that is not filled yet. -/
theorem place_succeeds
    (hsteady : (filling.part output).Steady (placement.trees.get output).size)
    (hawaits : (filling.part output).Awaits (placement.trees.get output))
    (haccepts : (filling.part output).Accepts (placement.trees.get output) container data.kind)
    (hplace : data.kind.isRegistered = true → ∃ id,
      placement.HasPlace output container data.kind data.qualifiedName id ∧
      ¬(filling.part output).Settled (placement.trees.get output).size id) :
    (filling.place ⟨placement.registry, options⟩ output container data).Succeeds := by
  rw [place]
  split
  · next hregistered =>
    obtain ⟨id, ⟨hfind, placeholder, hallocated, hkind, hname, hlink⟩, hpending⟩ :=
      hplace hregistered
    have hget := hawaits id placeholder hallocated hpending
    have hfresh : (output, id) ∉ filling.filled := fun hfilled =>
      hpending ⟨Tree.lt_size_of_get? hget, fun _ => hfilled⟩
    refine fill_succeeds hfind hfresh hget hkind hname fun owner hcontainer => ?_
    obtain ⟨-, hnone⟩ | ⟨other, declaration, hother, hsettled, howner, hmay⟩ := haccepts
    · rw [hnone] at hcontainer
      cases hcontainer
    · rw [hcontainer] at hother
      cases hother
      have hne : owner ≠ id := by
        rintro rfl
        exact hpending hsettled
      have hmodule : data.kind ≠ .module := by
        intro hmodule
        rw [hmodule] at hmay
        cases hmay
      have howner' : ((filling.trees.get output).setData id data).get? owner = some declaration := by
        rw [Tree.setData, Tree.get?_modify, if_neg hne]
        exact howner
      have hself : ((filling.trees.get output).setData id data).get? id =
          some { placeholder with data } := by
        rw [Tree.setData, Tree.get?_modify, if_pos rfl]
        exact congrArg (Option.map _) hget
      rw [if_neg hmodule, hcontainer] at hlink
      refine Tree.attach_succeeds howner' hself hmay hlink fun hlisted => hpending ?_
      rw [Tree.children_of_get? howner'] at hlisted
      exact hsteady.listed owner _ _ (Tree.content?_of_get? howner) id hlisted
  · next hregistered =>
    obtain ⟨hmodule, -⟩ | ⟨owner, declaration, rfl, -, howner, hmay⟩ := haccepts
    · rw [hmodule] at hregistered
      exact absurd rfl hregistered
    · obtain ⟨⟨id, grown⟩, hinsert⟩ := Tree.insert_succeeds howner hmay
      have hinsert : (filling.trees.get output).insert owner data = .ok (id, grown) := hinsert
      simp [Except.Succeeds, insert, hinsert, bind, Except.bind, pure, Except.pure]

section Visit

variable (placement options)

/-- The placeholders of the nodes in an output. -/
def Meant (nodes : List MergedNode) (output : Output) (id : DeclId) : Prop :=
  ∃ node ∈ nodes, ∃ data, node.payloads.get output = some data ∧
    data.kind.isRegistered = true ∧
    placement.registry.find? data.kind data.qualifiedName output = some id

/-- Data that can be put into an output next. -/
private def Placeable (payloads : PerOutput (Option Data)) (containers : Places) (output : Output)
    (seen : Part × Option DeclId) : Prop :=
  seen.1.Steady (placement.trees.get output).size ∧
  seen.1.Awaits (placement.trees.get output) ∧
  ∀ data, payloads.get output = some data →
    seen.1.Accepts (placement.trees.get output) (containers.get output) data.kind ∧
    (data.kind.isRegistered = true → ∃ id,
      placement.HasPlace output (containers.get output) data.kind data.qualifiedName id ∧
      ¬seen.1.Settled (placement.trees.get output).size id)

/-- Data that cannot be put into an output, since a reference of it cannot be bound there. -/
private def Blocked (payloads : PerOutput (Option Data)) (output : Output) (error : RunError) : Prop :=
  ∃ data, payloads.get output = some data ∧
    Binding.data ⟨placement.registry, options⟩ output data = .error error

/-- Data that was put into an output. -/
private def Placed (payloads : PerOutput (Option Data)) (output : Output)
    (before after : Part × Option DeclId) : Prop :=
  before.1.Adds (placement.trees.get output) (fun id => ∃ data,
    payloads.get output = some data ∧ data.kind.isRegistered = true ∧
    placement.registry.find? data.kind data.qualifiedName output = some id) after.1 ∧
  ∀ data, payloads.get output = some data → ∃ id declaration, after.2 = some id ∧
    after.1.Settled (placement.trees.get output).size id ∧
    after.1.tree.get? id = some declaration ∧ declaration.kind = data.kind ∧
    (data.kind.isRegistered = true →
      placement.registry.find? data.kind data.qualifiedName output = some id)

variable {placement options}

private theorem placeIn_ends (hbare : ∀ output, placement.Bare output)
    {payloads : PerOutput (Option Data)} {containers : Places} (state : Filling × Places)
    (output : Output) (hready : Placeable placement payloads containers output (seen state output)) :
    (∃ state',
      placeIn ⟨placement.registry, options⟩ payloads containers state output = .ok state' ∧
      Placed placement payloads output (seen state output) (seen state' output)) ∨
    ∃ error, placeIn ⟨placement.registry, options⟩ payloads containers state output = .error error ∧
      Blocked placement options payloads output error := by
  obtain ⟨filling, noted⟩ := state
  obtain ⟨hsteady, hawaits, hdata⟩ := hready
  cases hpayload : payloads.get output with
  | none =>
    refine .inl ⟨(filling, noted), ?_, .refl hsteady, fun data hdata => ?_⟩
    · simp only [placeIn, hpayload]
      rfl
    · rw [hpayload] at hdata
      cases hdata
  | some data =>
    obtain ⟨haccepts, hplace⟩ := hdata data hpayload
    cases hbound : Binding.data ⟨placement.registry, options⟩ output data with
    | error error =>
      refine .inr ⟨error, ?_, data, hpayload, hbound⟩
      simp only [placeIn, hpayload]
      exact Except.bind_eq_error.mpr (.inl hbound)
    | ok bound =>
      let placed := { bound with
        expectation := expectationOf payloads.common.isSome output bound.kind }
      have hsame := Binding.data_kind hbound
      have hkind : placed.kind = data.kind := hsame
      have hcalled := congrArg Data.qualifiedName (Binding.data_eq_ok hbound).2
      have hname : placed.qualifiedName = data.qualifiedName := hcalled
      rw [← hkind] at haccepts hplace
      rw [← hname] at hplace
      have hplaced : (filling.place ⟨placement.registry, options⟩ output (containers.get output)
          placed).Succeeds := place_succeeds hsteady hawaits haccepts hplace
      obtain ⟨⟨id, done⟩, hdone⟩ := hplaced
      have hcontainer (owner : DeclId) (howner : containers.get output = some owner) :
          (filling.part output).Settled (placement.trees.get output).size owner := by
        obtain ⟨-, hnone⟩ | ⟨other, -, hother, hsettled, -⟩ := haccepts
        · rw [hnone] at howner
          cases howner
        · rw [howner] at hother
          cases hother
          exact hsettled
      obtain ⟨hgrows, hcontent⟩ :=
        place_grows hsteady hcontainer (fun _ _ _ => (hbare output).index_lt) hdone
      have hfound (hregistered : placed.kind.isRegistered = true) := place_find? hdone hregistered
      refine .inl ⟨(done, noted.set output (some id)), ?_, .of_grows hgrows fun other hother hlt => ?_,
        fun data' hdata' => ?_⟩
      · simp only [placeIn, hpayload]
        exact Except.bind_eq_ok.mpr ⟨bound, hbound, Except.bind_eq_ok.mpr ⟨_, hdone, rfl⟩⟩
      · obtain rfl := List.mem_singleton.mp hother
        by_cases hregistered : placed.kind.isRegistered = true
        · refine ⟨data, hpayload, hkind ▸ hregistered, ?_⟩
          rw [← hkind, ← hname]
          exact hfound hregistered
        · rw [place, if_neg hregistered] at hdone
          obtain ⟨owner, grown, -, hinsert, -⟩ := insert_eq_ok hdone
          rw [Tree.id_of_insert hinsert] at hlt
          exact absurd hlt (Nat.not_lt.mpr hsteady.size)
      · rw [hpayload] at hdata'
        cases hdata'
        obtain ⟨declaration, hget, hdata, -⟩ := Tree.content?_eq_some.mp hcontent
        refine ⟨id, declaration, PerOutput.get_set_self _ _ _, ?_, hget, ?_, fun hregistered => ?_⟩
        · exact (hgrows.fresh id (List.mem_singleton_self id)).2
        · rw [Declaration.kind, hdata]
          exact hkind
        · rw [← hkind] at hregistered ⊢
          rw [← hname]
          exact hfound hregistered

/-- The outputs before some nodes are put into them. -/
structure Prepared (placement : Placement) (nodes : List MergedNode) (filling : Filling) : Prop where
  steady : ∀ output, (filling.part output).Steady (placement.trees.get output).size
  awaits : ∀ output, (filling.part output).Awaits (placement.trees.get output)
  pending : ∀ output id, Meant placement nodes output id →
    ¬(filling.part output).Settled (placement.trees.get output).size id

/-- Nodes of an orderly forest do not share placeholders. -/
private theorem Meant.apart (hbare : ∀ output, placement.Bare output)
    {nodes others : List MergedNode} (horderly : MergedNode.Orderly (nodes ++ others)) {id : DeclId}
    (hmeant : Meant placement nodes output id) : ¬Meant placement others output id := by
  rintro ⟨later, hlater, other, hother, hregistered, hfind'⟩
  obtain ⟨earlier, hearlier, data, hdata, -, hfind⟩ := hmeant
  obtain ⟨declaration, hget, hshares, hname⟩ := (hbare output).named _ _ _ hfind
  obtain ⟨declaration', hget', hshares', hname'⟩ := (hbare output).named _ _ _ hfind'
  rw [hget] at hget'
  cases hget'
  have hsame : data.kind.shares other.kind = true :=
    Kind.shares_trans hshares (Kind.shares_comm _ _ ▸ hshares')
  exact horderly.apart hearlier hlater hdata hother
    ⟨Kind.isRegistered_of_shares hsame hregistered, hsame, hname.symm.trans hname'⟩

theorem Meant.index_lt {nodes : List MergedNode} {id : DeclId}
    (hmeant : Meant placement nodes output id) (hbare : placement.Bare output) :
    id.index < (placement.trees.get output).size := by
  obtain ⟨_, _, _, _, _, hfind⟩ := hmeant
  exact hbare.index_lt hfind

private theorem Meant.append_left {nodes others : List MergedNode} {id : DeclId}
    (hmeant : Meant placement nodes output id) : Meant placement (nodes ++ others) output id := by
  obtain ⟨node, hnode, hdata⟩ := hmeant
  exact ⟨node, List.mem_append_left _ hnode, hdata⟩

private theorem Meant.append_right {nodes others : List MergedNode} {id : DeclId}
    (hmeant : Meant placement others output id) : Meant placement (nodes ++ others) output id := by
  obtain ⟨node, hnode, hdata⟩ := hmeant
  exact ⟨node, List.mem_append_right _ hnode, hdata⟩

private theorem Prepared.onward (hbare : ∀ output, placement.Bare output)
    {nodes others : List MergedNode} (horderly : MergedNode.Orderly (nodes ++ others))
    {before after : Filling} (hprepared : before.Prepared placement (nodes ++ others))
    (hadds : ∀ output, (before.part output).Adds (placement.trees.get output)
      (Meant placement nodes output) (after.part output)) :
    after.Prepared placement others where
  steady output := (hadds output).steady
  awaits output := (hadds output).awaits (hprepared.awaits output)
  pending output id hmeant hsettled := by
    have hbound := hmeant.index_lt (hbare output)
    obtain hbefore | hnew := (hadds output).only id hbound hsettled
    · exact hprepared.pending output id hmeant.append_right hbefore
    · exact hnew.apart hbare horderly hmeant

private theorem Prepared.left {nodes others : List MergedNode}
    (hprepared : filling.Prepared placement (nodes ++ others)) :
    filling.Prepared placement nodes where
  steady := hprepared.steady
  awaits := hprepared.awaits
  pending output id hmeant := hprepared.pending output id hmeant.append_left

variable (options) in
private theorem allPlaced_ends (hbare : ∀ output, placement.Bare output)
    {payloads : PerOutput (Option Data)} {containers : Places} {filling : Filling}
    (hready : ∀ output, Placeable placement payloads containers output
      (filling.part output, none)) :
    (∃ after places, Output.all.foldlM (placeIn ⟨placement.registry, options⟩ payloads containers)
        (filling, .replicate none) = .ok (after, places) ∧
      ∀ output, Placed placement payloads output (filling.part output, none)
        (after.part output, places.get output)) ∨
    ∃ output error, Output.all.foldlM (placeIn ⟨placement.registry, options⟩ payloads containers)
        (filling, .replicate none) = .error error ∧
      Blocked placement options payloads output error := by
  have hseen (output : Output) : seen (filling, .replicate none) output =
      (filling.part output, none) := by
    rw [seen, PerOutput.get_replicate]
  obtain ⟨⟨after, places⟩, hrun, hdone⟩ | hfails := Output.foldlM_all_ends
    (fun output => Placeable placement payloads containers output)
    (fun output => Placed placement payloads output)
    (fun output => Blocked placement options payloads output)
    placeIn_other (placeIn_ends hbare) (filling, .replicate none) fun output => by
      rw [hseen]
      exact hready output
  · refine .inl ⟨after, places, hrun, fun output => ?_⟩
    have hplaced := hdone output
    rwa [hseen] at hplaced
  · exact .inr hfails

variable (placement options) in
/-- Some data of the nodes has a reference that cannot be bound, and the error is that of binding
it. -/
def Unbound (nodes : List MergedNode) (error : RunError) : Prop :=
  ∃ node ∈ nodes, ∃ output data, node.payloads.get output = some data ∧
    Binding.data ⟨placement.registry, options⟩ output data = .error error

private theorem Unbound.mono {nodes others : List MergedNode} {error : RunError}
    (hunbound : Unbound placement options nodes error) (hsubset : nodes ⊆ others) :
    Unbound placement options others error := by
  obtain ⟨node, hnode, hfails⟩ := hunbound
  exact ⟨node, hsubset hnode, hfails⟩

mutual
/-- A node whose placeholders are pending can be put into the outputs, unless a reference cannot be
bound. -/
theorem visit_ends (hbare : ∀ output, placement.Bare output) : ∀ (node : MergedNode)
    {filling : Filling} {containers : Places}, MergedNode.Orderly node.walk →
    (node.isRegistered = true → placement.Allots containers node) →
    filling.Prepared placement node.walk →
    (∀ output data, node.payloads.get output = some data →
      (filling.part output).Accepts (placement.trees.get output) (containers.get output)
        data.kind) →
    (∃ after, filling.visit ⟨placement.registry, options⟩ containers node = .ok after ∧
      ∀ output, (filling.part output).Adds (placement.trees.get output)
        (Meant placement node.walk output) (after.part output)) ∨
    ∃ error, filling.visit ⟨placement.registry, options⟩ containers node = .error error ∧
      Unbound placement options node.walk error
  | ⟨payloads, children⟩, filling, containers, horderly, hallots, hprepared, haccepts => by
    rw [MergedNode.walk] at horderly hprepared ⊢
    rw [visit]
    have hregistered {output : Output} {data : Data} (hdata : payloads.get output = some data)
        (h : data.kind.isRegistered = true) : (MergedNode.mk payloads children).isRegistered = true :=
      (horderly.registered _ List.mem_cons_self output data hdata).symm.trans h
    have hready (output : Output) : Placeable placement payloads containers output
        (filling.part output, none) := by
      refine ⟨hprepared.steady output, hprepared.awaits output, fun data hdata =>
        ⟨haccepts output data hdata, fun h => ?_⟩⟩
      cases hallots (hregistered hdata h) with
      | node hstands _ =>
        obtain ⟨id, -, hplace⟩ := hstands output data hdata h
        exact ⟨id, hplace, hprepared.pending output id
          ⟨_, List.mem_cons_self, data, hdata, h, hplace.entered⟩⟩
    obtain ⟨middle, places, hmiddle, hplaced⟩ | ⟨output, error, hfails, data, hdata, hunbound⟩ :=
      allPlaced_ends options hbare hready
    · have hadds (output : Output) : (filling.part output).Adds (placement.trees.get output)
          (Meant placement [.mk payloads children] output) (middle.part output) :=
        (hplaced output).1.mono fun id ⟨data, hdata⟩ => ⟨_, List.mem_singleton_self _, data, hdata⟩
      have hchildren (child : MergedNode) (hchild : child ∈ children) (output : Output)
          (data : Data) (hdata : child.payloads.get output = some data) :
          (middle.part output).Accepts (placement.trees.get output) (places.get output)
            data.kind := by
        obtain ⟨owner, howner, hmay⟩ :=
          horderly.owned _ List.mem_cons_self child hchild output data hdata
        obtain ⟨id, declaration, hid, hsettled, hget, hkind, -⟩ := (hplaced output).2 owner howner
        exact .inr ⟨id, declaration, hid, hsettled, hget, hkind ▸ hmay⟩
      -- the containers of the placeholders are the places of the declarations that own them
      have hallotted (child : MergedNode) (hchild : child ∈ children)
          (hkind : child.isRegistered = true) : placement.Allots places child := by
        have howned {output : Output} {data : Data} (hdata : child.payloads.get output = some data)
            (h : data.kind.isRegistered = true) :=
          horderly.child_registered List.mem_cons_self hchild hdata h
        obtain ⟨output, data, hdata, h⟩ := MergedNode.exists_registered hkind
        obtain ⟨owner, howner, h, -⟩ := howned hdata h
        cases hallots (hregistered howner h) with
        | node hstands hbelow =>
          refine (hbelow child hchild hkind).congr fun output data hdata h => ?_
          obtain ⟨owner, howner, h, -⟩ := howned hdata h
          obtain ⟨id, hid, hplace⟩ := hstands output owner howner h
          obtain ⟨id', -, hid', -, -, -, hfind⟩ := (hplaced output).2 owner howner
          exact hid.trans ((hplace.entered.symm.trans (hfind h)).trans hid'.symm)
      obtain ⟨after, hafter, hrest⟩ | ⟨error, hfails, hunbound⟩ := visitAll_ends hbare children
        horderly.tail hallotted (hprepared.onward hbare horderly hadds) hchildren
      · refine .inl ⟨after, Except.bind_eq_ok.mpr ⟨_, hmiddle, hafter⟩, fun output => ?_⟩
        rw [← List.singleton_append]
        exact (hadds output).trans (hrest output) (fun _ h => h.append_left) fun _ h => h.append_right
      · exact .inr ⟨error, Except.bind_eq_error.mpr (.inr ⟨_, hmiddle, hfails⟩),
          hunbound.mono (List.subset_cons_self _ _)⟩
    · exact .inr ⟨error, Except.bind_eq_error.mpr (.inl hfails), _, List.mem_cons_self, output, data,
        hdata, hunbound⟩
/-- Nodes whose placeholders are pending can be put into the outputs, unless a reference cannot be
bound. -/
theorem visitAll_ends (hbare : ∀ output, placement.Bare output) : ∀ (nodes : List MergedNode)
    {filling : Filling} {containers : Places},
    MergedNode.Orderly (MergedNode.walkAll nodes) →
    (∀ node ∈ nodes, node.isRegistered = true → placement.Allots containers node) →
    filling.Prepared placement (MergedNode.walkAll nodes) →
    (∀ node ∈ nodes, ∀ output data, node.payloads.get output = some data →
      (filling.part output).Accepts (placement.trees.get output) (containers.get output)
        data.kind) →
    (∃ after, filling.visitAll ⟨placement.registry, options⟩ containers nodes = .ok after ∧
      ∀ output, (filling.part output).Adds (placement.trees.get output)
        (Meant placement (MergedNode.walkAll nodes) output) (after.part output)) ∨
    ∃ error, filling.visitAll ⟨placement.registry, options⟩ containers nodes = .error error ∧
      Unbound placement options (MergedNode.walkAll nodes) error
  | [], filling, containers, _, _, hprepared, _ =>
    .inl ⟨filling, rfl, fun output => .refl (hprepared.steady output)⟩
  | node :: nodes, filling, containers, horderly, hallots, hprepared, haccepts => by
    rw [MergedNode.walkAll] at horderly hprepared ⊢
    rw [visitAll]
    obtain ⟨hallot, hallots⟩ := List.forall_mem_cons.mp hallots
    obtain ⟨haccept, haccepts⟩ := List.forall_mem_cons.mp haccepts
    obtain ⟨middle, hmiddle, hadds⟩ | ⟨error, hfails, hunbound⟩ :=
      visit_ends hbare node horderly.append_left hallot hprepared.left haccept
    · obtain ⟨after, hafter, hrest⟩ | ⟨error, hfails, hunbound⟩ := visitAll_ends hbare nodes
        horderly.append_right hallots (hprepared.onward hbare horderly hadds)
        fun node hnode output data hdata => (hadds output).accepts (haccepts node hnode output data hdata)
      · refine .inl ⟨after, Except.bind_eq_ok.mpr ⟨middle, hmiddle, hafter⟩, fun output => ?_⟩
        exact (hadds output).trans (hrest output) (fun _ h => h.append_left) fun _ h => h.append_right
      · exact .inr ⟨error, Except.bind_eq_error.mpr (.inr ⟨middle, hmiddle, hfails⟩),
          hunbound.mono (List.subset_append_right _ _)⟩
    · exact .inr ⟨error, Except.bind_eq_error.mpr (.inl hfails),
        hunbound.mono (List.subset_append_left _ _)⟩
end

end Visit

end Filling

end Concord
