import Concord.Proofs.Output.Completion
import Concord.Proofs.Output.Copying

namespace Concord

/-- A merged node with its place in an output. -/
inductive Standing where
  | mk (payloads : PerOutput (Option Data)) (place : Option DeclId) (members : List Standing)

namespace Standing

def payloads : Standing → PerOutput (Option Data)
  | mk payloads _ _ => payloads

def place : Standing → Option DeclId
  | mk _ place _ => place

def members : Standing → List Standing
  | mk _ _ members => members

mutual
/-- The node without its places. -/
def node : Standing → MergedNode
  | mk payloads _ members => ⟨payloads, nodes members⟩
/-- Some nodes without their places. -/
def nodes : List Standing → List MergedNode
  | [] => []
  | standing :: standings => node standing :: nodes standings
end

mutual
/-- A standing node and those below it, every one before what stands below it. -/
def walk : Standing → List Standing
  | mk payloads place members => mk payloads place members :: walkAll members
/-- Some standing nodes and those below them, in order. -/
def walkAll : List Standing → List Standing
  | [] => []
  | standing :: standings => walk standing ++ walkAll standings
end

variable {standings others : List Standing}

theorem walkAll_append : walkAll (standings ++ others) = walkAll standings ++ walkAll others := by
  induction standings with
  | nil => rfl
  | cons standing standings ih => simp only [walkAll, List.cons_append, ih, List.append_assoc]

theorem mem_walk_self (standing : Standing) : standing ∈ walk standing := by
  cases standing
  exact List.mem_cons_self

theorem sublist_walkAll : ∀ standings : List Standing, standings.Sublist (walkAll standings)
  | [] => .slnil
  | mk payloads place members :: standings => by
    rw [walkAll, walk, List.cons_append]
    exact ((sublist_walkAll standings).trans (List.sublist_append_right _ _)).cons_cons _

mutual
theorem members_sublist_walk {standing : Standing} : ∀ top : Standing,
    standing ∈ walk top → standing.members.Sublist (walk top)
  | mk payloads place members, hstanding => by
    rw [walk] at hstanding ⊢
    obtain rfl | hstanding := List.mem_cons.mp hstanding
    · exact (sublist_walkAll members).cons _
    · exact (members_sublist_walkAll members hstanding).cons _
/-- What stands below a walked node is walked, in the same order. -/
theorem members_sublist_walkAll {standing : Standing} : ∀ standings : List Standing,
    standing ∈ walkAll standings → standing.members.Sublist (walkAll standings)
  | [], hstanding => by cases hstanding
  | top :: standings, hstanding => by
    rw [walkAll] at hstanding ⊢
    obtain hstanding | hstanding := List.mem_append.mp hstanding
    · exact (members_sublist_walk top hstanding).trans (List.sublist_append_left _ _)
    · exact (members_sublist_walkAll standings hstanding).trans (List.sublist_append_right _ _)
end

mutual
private theorem mem_walk_cases {standing : Standing} : ∀ top : Standing, standing ∈ walk top →
    standing = top ∨ ∃ above ∈ walk top, standing ∈ above.members
  | mk payloads place members, hstanding => by
    rw [walk] at hstanding ⊢
    obtain rfl | hstanding := List.mem_cons.mp hstanding
    · exact .inl rfl
    · obtain hmember | ⟨above, habove, hmember⟩ := mem_walkAll_cases members hstanding
      · exact .inr ⟨_, List.mem_cons_self, hmember⟩
      · exact .inr ⟨above, List.mem_cons_of_mem _ habove, hmember⟩
/-- What is walked is topmost or stands below something that is walked. -/
theorem mem_walkAll_cases {standing : Standing} : ∀ standings : List Standing,
    standing ∈ walkAll standings →
    standing ∈ standings ∨ ∃ above ∈ walkAll standings, standing ∈ above.members
  | [], hstanding => by cases hstanding
  | top :: standings, hstanding => by
    rw [walkAll] at hstanding ⊢
    obtain hstanding | hstanding := List.mem_append.mp hstanding
    · obtain rfl | ⟨above, habove, hmember⟩ := mem_walk_cases top hstanding
      · exact .inl List.mem_cons_self
      · exact .inr ⟨above, List.mem_append_left _ habove, hmember⟩
    · obtain hmember | ⟨above, habove, hmember⟩ := mem_walkAll_cases standings hstanding
      · exact .inl (List.mem_cons_of_mem _ hmember)
      · exact .inr ⟨above, List.mem_append_right _ habove, hmember⟩
end

mutual
private theorem walk_all (P : Standing → Prop) : ∀ top : Standing,
    (∀ standing ∈ walk top, P standing → ∀ child ∈ standing.members, P child) →
    P top → ∀ standing ∈ walk top, P standing
  | mk payloads place members, hdown, htop, standing, hstanding => by
    rw [walk] at hdown hstanding
    obtain ⟨hself, hbelow⟩ := List.forall_mem_cons.mp hdown
    obtain rfl | hstanding := List.mem_cons.mp hstanding
    · exact htop
    · exact walkAll_all P members hbelow (hself htop) standing hstanding
/-- A property that goes from a standing node to those in it holds of all that stand below some. -/
theorem walkAll_all (P : Standing → Prop) : ∀ standings : List Standing,
    (∀ standing ∈ walkAll standings, P standing → ∀ child ∈ standing.members, P child) →
    (∀ top ∈ standings, P top) → ∀ standing ∈ walkAll standings, P standing
  | [], _, _, _, hstanding => by cases hstanding
  | top :: standings, hdown, htops, standing, hstanding => by
    rw [walkAll] at hdown hstanding
    obtain ⟨hone, hothers⟩ := List.forall_mem_append.mp hdown
    obtain ⟨htop, htops⟩ := List.forall_mem_cons.mp htops
    obtain hstanding | hstanding := List.mem_append.mp hstanding
    · exact walk_all P top hone htop standing hstanding
    · exact walkAll_all P standings hothers htops standing hstanding
end

variable (binding : Binding) (output : Output) (base tree : Tree)

/-- A node takes a placeholder of its kind and name, which points at no container but the one that
the node gets, or a place of its own behind the placeholders. -/
structure Takes (container : Option DeclId) (standing : Standing) : Prop where
  placeholder : ∀ payload id, standing.payloads.get output = some payload →
    standing.place = some id → payload.kind.isRegistered = true → ∃ declaration,
      base.get? id = some declaration ∧ declaration.kind = payload.kind ∧
        declaration.qualifiedName = payload.qualifiedName ∧
          ∀ owner other, container = some owner → declaration.container = some other → other = owner
  beyond : ∀ payload id, standing.payloads.get output = some payload →
    standing.place = some id → payload.kind.isRegistered = false → base.size ≤ id.index

/-- A node stands in a container: it points at it, or else still at that of its placeholder. Modules
stand in no container, and what has no placeholder stands in one. -/
structure Hangs (container : Option DeclId) (standing : Standing) : Prop where
  points : ∀ id, standing.place = some id →
    tree.container? id = container.or (base.container? id)
  kind : ∀ payload, standing.payloads.get output = some payload →
    (container.isSome = true → payload.kind ≠ .module) ∧
      (payload.kind.isRegistered = false → container.isSome = true)
  takes : standing.Takes output base container

/-- What a node has in an output stands at its place, with what the nodes below it have. -/
structure Fits (standing : Standing) : Prop where
  nothing : standing.payloads.get output = none → standing.place = none
  content : ∀ payload, standing.payloads.get output = some payload → ∃ id bound,
    standing.place = some id ∧ binding.data output payload = .ok bound ∧
      tree.content? id = some ({ bound with
          expectation := expectationOf standing.payloads.common.isSome output payload.kind },
        standing.members.filterMap place) ∧
      (payload.kind.isRegistered = true →
        binding.registry.find? payload.kind payload.qualifiedName output = some id)
  members : ∀ child ∈ standing.members, child.Hangs output base tree standing.place

end Standing

open Standing (walkAll)

/-- From one state of an output to a later one, what some nodes have in it was put in. -/
structure Part.Put (binding : Binding) (output : Output) (base : Tree) (container : Option DeclId)
    (before after : Part) (standings : List Standing) : Prop where
  grows : Grows base.size container (standings.filterMap Standing.place)
    ((walkAll standings).filterMap Standing.place) before after
  contained : ∀ id, before.Settled base.size id → after.tree.container? id = before.tree.container? id
  index : after.tree.classifiers = before.tree.classifiers
  fits : ∀ standing ∈ walkAll standings, standing.Fits binding output base after.tree
  hangs : ∀ standing ∈ standings, standing.Hangs output base after.tree container

/-- The placeholders that are left wait as before. -/
theorem Part.Grows.awaits {base : Tree} {container : Option DeclId} {tops places : List DeclId}
    {before after : Part} (hgrows : Grows base.size container tops places before after)
    (hawaits : before.Awaits base) : after.Awaits base := by
  intro id declaration hget hpending
  rw [hgrows.untouched id hpending]
  exact hawaits id declaration hget fun hbefore => hpending (hgrows.settled id hbefore)

namespace Part.Put

variable {binding : Binding} {output : Output} {base : Tree} {container : Option DeclId}
  {before middle after : Part} {standings others : List Standing}

/-- What stands somewhere stays there while more is put in elsewhere. -/
private theorem hangs_onward {owner : Option DeclId} {standing : Standing}
    (hhangs : standing.Hangs output base middle.tree container)
    (hsettled : ∀ id, standing.place = some id → middle.Settled base.size id)
    (hput : Put binding output base owner middle after others) :
    standing.Hangs output base after.tree container where
  points id hid := by
    rw [hput.contained id (hsettled id hid)]
    exact hhangs.points id hid
  kind := hhangs.kind
  takes := hhangs.takes

private theorem fits_onward {owner : Option DeclId} {standing : Standing}
    (hfits : standing.Fits binding output base middle.tree)
    (hsettled : ∀ id, standing.place = some id → middle.Settled base.size id ∧ owner ≠ some id)
    (hmembers : ∀ child ∈ standing.members, ∀ id, child.place = some id →
      middle.Settled base.size id)
    (hput : Put binding output base owner middle after others) :
    standing.Fits binding output base after.tree where
  nothing := hfits.nothing
  content payload hpayload := by
    obtain ⟨id, bound, hid, hbound, hcontent, hfind⟩ := hfits.content payload hpayload
    refine ⟨id, bound, hid, hbound, ?_, hfind⟩
    rw [hput.grows.content_of_ne (hsettled id hid).1 (hsettled id hid).2, hcontent]
  members child hchild := hangs_onward (hfits.members child hchild) (hmembers child hchild) hput

/-- Putting in the nodes behind others of the same container. -/
theorem append (hfirst : Put binding output base container before middle standings)
    (hsecond : Put binding output base container middle after others)
    (hcontainer : ∀ owner, container = some owner → before.Settled base.size owner) :
    Put binding output base container before after (standings ++ others) where
  grows := by
    rw [Standing.walkAll_append, List.filterMap_append, List.filterMap_append]
    exact hfirst.grows.append hsecond.grows
  contained id hsettled := by
    rw [hsecond.contained id (hfirst.grows.settled id hsettled), hfirst.contained id hsettled]
  index := hsecond.index.trans hfirst.index
  fits standing hstanding := by
    rw [Standing.walkAll_append] at hstanding
    obtain hstanding | hstanding := List.mem_append.mp hstanding
    · have hfresh (other : Standing) (hother : other ∈ walkAll standings) (id : DeclId)
          (hid : other.place = some id) :
          ¬before.Settled base.size id ∧ middle.Settled base.size id :=
        hfirst.grows.fresh id (List.mem_filterMap.mpr ⟨other, hother, hid⟩)
      refine fits_onward (hfirst.fits standing hstanding) (fun id hid => ?_)
        (fun child hchild id hid => ?_) hsecond
      · obtain ⟨hnew, hmiddle⟩ := hfresh standing hstanding id hid
        exact ⟨hmiddle, fun heq => hnew (hcontainer id heq)⟩
      · exact (hfresh child ((Standing.members_sublist_walkAll standings hstanding).subset hchild) id hid).2
    · exact hsecond.fits standing hstanding
  hangs standing hstanding := by
    obtain hstanding | hstanding := List.mem_append.mp hstanding
    · refine hangs_onward (hfirst.hangs standing hstanding) (fun id hid => ?_) hsecond
      exact (hfirst.grows.fresh id (List.mem_filterMap.mpr
        ⟨standing, (Standing.sublist_walkAll standings).subset hstanding, hid⟩)).2
    · exact hsecond.hangs standing hstanding

/-- Putting in a node and then what stands below it. -/
theorem below {payloads : PerOutput (Option Data)} {id : DeclId} {payload bound : Data}
    (hpayload : payloads.get output = some payload) (hbound : binding.data output payload = .ok bound)
    (hfind : payload.kind.isRegistered = true →
      binding.registry.find? payload.kind payload.qualifiedName output = some id)
    (hfirst : Grows base.size container [id] [id] before middle)
    (hcontained : ∀ id, before.Settled base.size id →
      middle.tree.container? id = before.tree.container? id)
    (hindex : middle.tree.classifiers = before.tree.classifiers)
    (hcontent : middle.tree.content? id = some ({ bound with
      expectation := expectationOf payloads.common.isSome output payload.kind }, []))
    (hhangs : (Standing.mk payloads (some id) standings).Hangs output base middle.tree container)
    (hsecond : Put binding output base (some id) middle after standings) :
    Put binding output base container before after [.mk payloads (some id) standings] where
  grows := by
    simpa [walkAll, Standing.walk, Standing.place] using hfirst.below hsecond.grows
  contained other hsettled := by
    rw [hsecond.contained other (hfirst.settled other hsettled), hcontained other hsettled]
  index := hsecond.index.trans hindex
  fits standing hstanding := by
    simp only [walkAll, Standing.walk, List.append_nil] at hstanding
    obtain rfl | hstanding := List.mem_cons.mp hstanding
    · refine ⟨fun hnone => ?_, fun payload' hpayload' => ?_, hsecond.hangs⟩
      · rw [Standing.payloads, hpayload] at hnone
        cases hnone
      · rw [Standing.payloads, hpayload] at hpayload'
        cases hpayload'
        obtain ⟨-, hsettled⟩ := hfirst.fresh id List.mem_cons_self
        refine ⟨id, bound, rfl, hbound, ?_, hfind⟩
        rw [hsecond.grows.content id hsettled, hcontent]
        simp [Standing.members, Standing.payloads]
    · exact hsecond.fits standing hstanding
  hangs standing hstanding := by
    rw [List.mem_singleton.mp hstanding]
    exact hangs_onward hhangs (fun id hid => (hfirst.fresh id (by
      rw [Standing.place] at hid
      cases hid
      exact List.mem_cons_self)).2) hsecond

/-- Where an output has nothing of a node, what stands below it has no container. -/
theorem nothing {payloads : PerOutput (Option Data)} (hpayload : payloads.get output = none)
    (hput : Put binding output base none before after standings) :
    Put binding output base container before after [.mk payloads none standings] where
  grows := by
    have htops : [Standing.mk payloads none standings].filterMap Standing.place = [] := rfl
    have hplaces : (walkAll [Standing.mk payloads none standings]).filterMap Standing.place =
        (walkAll standings).filterMap Standing.place := by
      rw [walkAll, Standing.walk, walkAll, List.append_nil]
      exact List.filterMap_cons_none rfl
    rw [htops, hplaces]
    refine { hput.grows with content := fun id hsettled => ?_ }
    rw [hput.grows.content id hsettled]
    simp
  contained := hput.contained
  index := hput.index
  fits standing hstanding := by
    simp only [walkAll, Standing.walk, List.append_nil] at hstanding
    obtain rfl | hstanding := List.mem_cons.mp hstanding
    · refine ⟨fun _ => rfl, fun payload hsome => ?_, hput.hangs⟩
      rw [Standing.payloads, hpayload] at hsome
      cases hsome
    · exact hput.fits standing hstanding
  hangs standing hstanding := by
    rw [List.mem_singleton.mp hstanding]
    refine ⟨fun id hid => ?_, fun payload hsome => ?_, ⟨?_, ?_⟩⟩
    · rw [Standing.place] at hid
      cases hid
    · rw [Standing.payloads, hpayload] at hsome
      cases hsome
    · rintro payload id - ⟨⟩
    · rintro payload id - ⟨⟩

end Part.Put

namespace Filling

variable {binding : Binding} {output : Output} {base : Tree} {filling after : Filling}
  {container : Option DeclId} {data : Data} {id : DeclId}

private theorem not_mayContain_module {owner kind : Kind} (hmay : owner.mayContain kind = true) :
    kind ≠ .module := by
  rintro rfl
  cases hmay

/-- What is put in points at its container, or still at the one of its placeholder. No container and
no classifier changes besides. -/
theorem place_points (hregistry : ∀ kind name id,
      binding.registry.find? kind name output = some id → ∃ declaration, base.get? id = some declaration)
    (hawaits : (filling.part output).Awaits base)
    (hplace : filling.place binding output container data = .ok (id, after)) :
    (∀ other, (filling.part output).Settled base.size other →
      (after.part output).tree.container? other = (filling.part output).tree.container? other) ∧
    (after.part output).tree.classifiers = (filling.part output).tree.classifiers ∧
    (after.part output).tree.container? id = container.or (base.container? id) ∧
    (container.isSome = true → data.kind ≠ .module) ∧
    (data.kind.isRegistered = false → container.isSome = true) := by
  rw [place] at hplace
  split at hplace
  · next hregistered =>
    obtain ⟨hfind, hfresh, placeholder, grown, hget, -, -, rfl, hgrown⟩ := fill_eq_ok hplace
    obtain ⟨declaration, hbase⟩ := hregistry _ _ _ hfind
    have hnew : ¬(filling.part output).Settled base.size id := fun hsettled =>
      hfresh (hsettled.2 (Tree.lt_size_of_get? hbase))
    have hsame : (filling.trees.get output).container? id = base.container? id := by
      rw [Tree.container?, Tree.container?, hbase, ← hawaits id declaration hbase hnew]
      rfl
    have hother (other : DeclId) (hsettled : (filling.part output).Settled base.size other) :
        other ≠ id := fun heq => hnew (heq ▸ hsettled)
    simp only [part, PerOutput.get_set_self]
    have hdata (other : DeclId) : ((filling.trees.get output).setData id data).container? other =
        (filling.trees.get output).container? other := by
      refine Tree.container?_modify ?_ other
      exact fun _ => rfl
    obtain ⟨rfl, rfl⟩ | ⟨owner, rfl, hattach⟩ := hgrown
    · refine ⟨fun other _ => hdata other, rfl, (hdata id).trans hsame, fun hnone => ?_,
        fun hfalse => ?_⟩
      · cases hnone
      · exact absurd hregistered (Bool.eq_false_iff.mp hfalse)
    · refine ⟨fun other hsettled => ?_, ?_, ?_, fun _ => ?_, fun _ => rfl⟩
      · rw [Tree.container?_attach hattach, if_neg (hother other hsettled), hdata]
      · obtain ⟨_, _, -, -, -, rfl⟩ := Tree.attach_eq_ok hattach
        rfl
      · rw [Tree.container?_attach hattach, if_pos rfl]
        rfl
      · obtain ⟨_, child, -, hchild, hmay, -⟩ := Tree.attach_eq_ok hattach
        rw [Tree.setData, Tree.get?_modify, if_pos rfl, hget] at hchild
        cases hchild
        exact not_mayContain_module hmay
  · next hregistered =>
    obtain ⟨owner, grown, rfl, hinsert, rfl⟩ := insert_eq_ok hplace
    have hid := Tree.id_of_insert hinsert
    simp only [part, PerOutput.get_set_self]
    refine ⟨fun other hsettled => ?_, ?_, ?_, fun _ => ?_, fun _ => rfl⟩
    · rw [Tree.container?_insert hinsert, if_neg]
      rintro rfl
      have hlt : other.index < (filling.trees.get output).size := hsettled.1
      rw [hid] at hlt
      exact Nat.lt_irrefl _ hlt
    · obtain ⟨_, -, -, -, rfl⟩ := Tree.insert_eq_ok hinsert
      have hkind : data.kind.isClassifier = false := by
        cases hkind : data.kind <;> rw [hkind] at hregistered <;>
          first | rfl | exact absurd rfl hregistered
      rw [Tree.modify, Tree.alloc, Tree.indexed, hkind]
      rfl
    · rw [Tree.container?_insert hinsert, if_pos rfl]
      rfl
    · obtain ⟨_, -, hmay, -⟩ := Tree.insert_eq_ok hinsert
      exact not_mayContain_module hmay

/-- What is registered is put into a placeholder of its kind and name, in the container of that if
in any. What is not gets a place behind the placeholders. -/
theorem place_takes (hregistry : ∀ kind name id,
      binding.registry.find? kind name output = some id → ∃ declaration, base.get? id = some declaration)
    (hsteady : (filling.part output).Steady base.size)
    (hawaits : (filling.part output).Awaits base)
    (hplace : filling.place binding output container data = .ok (id, after)) :
    (data.kind.isRegistered = true → ∃ declaration, base.get? id = some declaration ∧
      declaration.kind = data.kind ∧ declaration.qualifiedName = data.qualifiedName ∧
        ∀ owner other, container = some owner → declaration.container = some other → other = owner) ∧
    (data.kind.isRegistered = false → base.size ≤ id.index) := by
  rw [place] at hplace
  split at hplace
  · next hregistered =>
    refine ⟨fun _ => ?_, fun hfalse => absurd hregistered (Bool.eq_false_iff.mp hfalse)⟩
    obtain ⟨hfind, hfresh, placeholder, grown, hget, hkind, hname, -, hgrown⟩ := fill_eq_ok hplace
    obtain ⟨declaration, hbase⟩ := hregistry _ _ _ hfind
    have hpending : ¬(filling.part output).Settled base.size id := fun hsettled =>
      hfresh (hsettled.2 (Tree.lt_size_of_get? hbase))
    have hsame : (filling.trees.get output).get? id = some declaration :=
      hawaits id declaration hbase hpending
    cases hget.symm.trans hsame
    refine ⟨placeholder, hbase, hkind, hname, ?_⟩
    rintro owner other rfl hother
    obtain ⟨hnone, -⟩ | ⟨_, hcontainer, hattach⟩ := hgrown
    · cases hnone
    · cases hcontainer
      apply Tree.container?_of_attach hattach
      have hdata : ((filling.trees.get output).setData id data).container? id =
          (filling.trees.get output).container? id := by
        refine Tree.container?_modify ?_ id
        exact fun _ => rfl
      rw [hdata, Tree.container?, hget]
      exact hother
  · next hregistered =>
    refine ⟨fun htrue => absurd htrue hregistered, fun _ => ?_⟩
    obtain ⟨owner, grown, -, hinsert, -⟩ := insert_eq_ok hplace
    rw [Tree.id_of_insert hinsert]
    exact hsteady.size

mutual
private theorem visit_stands (hregistry : ∀ kind name id,
      binding.registry.find? kind name output = some id →
      ∃ declaration, base.get? id = some declaration) : ∀ (node : MergedNode)
    {filling after : Filling} {containers : Places},
    (filling.part output).Steady base.size → (filling.part output).Awaits base →
    (∀ owner, containers.get output = some owner →
      (filling.part output).Settled base.size owner) →
    filling.visit binding containers node = .ok after →
    ∃ standing : Standing, standing.node = node ∧ Part.Put binding output base
      (containers.get output) (filling.part output) (after.part output) [standing]
  | ⟨payloads, children⟩, filling, after, containers, hsteady, hawaits, hcontainer, hrun => by
    rw [visit] at hrun
    obtain ⟨⟨middle, places⟩, hplaces, hchildren⟩ := Except.bind_eq_ok.mp hrun
    obtain ⟨hnone, hsome⟩ := placeIn_output output hplaces
    cases hpayload : payloads.get output with
    | none =>
      obtain ⟨hsame, hfree⟩ := hnone hpayload
      obtain ⟨standings, hnodes, hput⟩ := visitAll_stands hregistry children (by rwa [hsame])
        (by rwa [hsame]) (fun owner howner => by rw [hfree] at howner; cases howner) hchildren
      rw [hfree, hsame] at hput
      exact ⟨.mk payloads none standings, by rw [Standing.node, hnodes], .nothing hpayload hput⟩
    | some payload =>
      obtain ⟨bound, id, start, done, hbound, hstart, hplace, hmiddle, hplaced⟩ :=
        hsome payload hpayload
      rw [Binding.data_kind hbound] at hplace
      obtain ⟨data, hdata⟩ : ∃ data : Data, data = { bound with
        expectation := expectationOf payloads.common.isSome output payload.kind } := ⟨_, rfl⟩
      rw [← hdata] at hplace
      have hkind : data.kind = payload.kind := by
        rw [hdata]
        exact (Binding.data_kind hbound : bound.kind = payload.kind)
      have hname : data.qualifiedName = payload.qualifiedName := by
        rw [hdata, (Binding.data_eq_ok hbound).2]
      rw [← hstart] at hsteady hawaits hcontainer
      have hbounded (kind : Kind) (name : QualifiedName) (id : DeclId)
          (hfind : binding.registry.find? kind name output = some id) : id.index < base.size := by
        obtain ⟨declaration, hget⟩ := hregistry kind name id hfind
        exact Tree.lt_size_of_get? hget
      obtain ⟨hgrows, hcontent⟩ := place_grows hsteady hcontainer hbounded hplace
      obtain ⟨hkept, hindex, hpoints, hkinds⟩ := place_points hregistry hawaits hplace
      obtain ⟨htaken, hbeyond⟩ := place_takes hregistry hsteady hawaits hplace
      rw [← hmiddle] at hgrows hcontent hkept hindex hpoints
      have hawaits' : (middle.part output).Awaits base := hgrows.awaits hawaits
      rw [hstart] at hgrows hkept hindex
      obtain ⟨-, hsettled⟩ := hgrows.fresh id List.mem_cons_self
      obtain ⟨standings, hnodes, hput⟩ := visitAll_stands hregistry children hgrows.steady hawaits'
        (by rw [hplaced]; rintro owner ⟨⟩; exact hsettled) hchildren
      rw [hplaced] at hput
      refine ⟨.mk payloads (some id) standings, by rw [Standing.node, hnodes],
        .below hpayload hbound (fun hregistered => ?_) hgrows hkept hindex ?_ ⟨?_, ?_, ⟨?_, ?_⟩⟩ hput⟩
      · rw [← hkind] at hregistered
        rw [← hkind, ← hname]
        exact place_find? hplace hregistered
      · rw [hcontent, hdata]
      · rintro _ ⟨⟩
        exact hpoints
      · intro payload' hpayload'
        rw [Standing.payloads, hpayload] at hpayload'
        cases hpayload'
        rw [← hkind]
        exact hkinds
      · rintro payload' _ hpayload' ⟨⟩ hregistered
        rw [Standing.payloads, hpayload] at hpayload'
        cases hpayload'
        rw [← hkind, ← hname]
        exact htaken (hkind ▸ hregistered)
      · rintro payload' _ hpayload' ⟨⟩ hregistered
        rw [Standing.payloads, hpayload] at hpayload'
        cases hpayload'
        exact hbeyond (hkind ▸ hregistered)
/-- Filling an output puts what the nodes have in it at places of their own. -/
theorem visitAll_stands (hregistry : ∀ kind name id,
      binding.registry.find? kind name output = some id →
      ∃ declaration, base.get? id = some declaration) : ∀ (nodes : List MergedNode)
    {filling after : Filling} {containers : Places}, (filling.part output).Steady base.size →
    (filling.part output).Awaits base →
    (∀ owner, containers.get output = some owner →
      (filling.part output).Settled base.size owner) →
    filling.visitAll binding containers nodes = .ok after →
    ∃ standings : List Standing, Standing.nodes standings = nodes ∧ Part.Put binding output base
      (containers.get output) (filling.part output) (after.part output) standings
  | [], filling, after, containers, hsteady, _, _, hrun => by
    cases hrun
    have hnone (standing : Standing) : standing ∉ ([] : List Standing) := List.not_mem_nil
    exact ⟨[], rfl, .refl hsteady, fun _ _ => rfl, rfl, fun standing hmem => (hnone standing hmem).elim,
      fun standing hmem => (hnone standing hmem).elim⟩
  | node :: nodes, filling, after, containers, hsteady, hawaits, hcontainer, hrun => by
    rw [visitAll] at hrun
    obtain ⟨middle, hmiddle, hrun⟩ := Except.bind_eq_ok.mp hrun
    obtain ⟨standing, hnode, hput⟩ := visit_stands hregistry node hsteady hawaits hcontainer hmiddle
    obtain ⟨standings, hnodes, hrest⟩ := visitAll_stands hregistry nodes hput.grows.steady
      (hput.grows.awaits hawaits) (fun owner howner => hput.grows.settled owner (hcontainer owner howner))
      hrun
    exact ⟨standing :: standings, by rw [Standing.nodes, hnode, hnodes], hput.append hrest hcontainer⟩
end

end Filling

namespace Placement

variable {placement : Placement} {options : CompiledOptions} {forest : MergedForest}
  {nodes : List MergedNode}

/-- Filling the placeholders of a forest puts what some nodes have in an output into it, whether
they are those of the forest or not. -/
theorem fill_puts (hplacement : ofForest forest = .ok placement) {filling : Filling}
    (hfilling : Filling.visitAll ⟨placement.trees, []⟩ ⟨placement.registry, options⟩
      (.replicate none) nodes = .ok filling) (output : Output) :
    ∃ standings, Standing.nodes standings = nodes ∧
      Part.Put ⟨placement.registry, options⟩ output (placement.trees.get output) none
        ((⟨placement.trees, []⟩ : Filling).part output) (filling.part output) standings := by
  have hbare := ofForest_bare hplacement output
  have hregistry (kind : Kind) (name : QualifiedName) (id : DeclId)
      (hfind : placement.registry.find? kind name output = some id) :
      ∃ declaration, (placement.trees.get output).get? id = some declaration := by
    obtain ⟨declaration, hget, -⟩ := hbare.named kind name id hfind
    exact ⟨declaration, hget⟩
  have hcontainer (owner : DeclId)
      (howner : (PerOutput.replicate none : Places).get output = some owner) :
      ((⟨placement.trees, []⟩ : Filling).part output).Settled (placement.trees.get output).size
        owner := by
    rw [PerOutput.get_replicate] at howner
    cases howner
  have hstands := Filling.visitAll_stands hregistry nodes hbare.steady
    (fun _ _ hget _ => hget) hcontainer hfilling
  rwa [PerOutput.get_replicate] at hstands

end Placement

end Concord
