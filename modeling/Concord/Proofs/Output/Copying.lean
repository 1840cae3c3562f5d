import Concord.Proofs.Merge.Origin
import Concord.Proofs.Output.Growth

namespace Concord

/-- A declaration with its place in an output, and the copies of what hangs below it. -/
inductive Copy where
  | mk (source place : DeclId) (copies : List Copy)

namespace Copy

def source : Copy → DeclId
  | mk source _ _ => source

def place : Copy → DeclId
  | mk _ place _ => place

def copies : Copy → List Copy
  | mk _ _ copies => copies

mutual
/-- A copy and those below it, every one before what hangs below it. -/
def walk : Copy → List Copy
  | mk source place copies => mk source place copies :: walkAll copies
/-- Some copies and those below them, in order. -/
def walkAll : List Copy → List Copy
  | [] => []
  | copy :: copies => walk copy ++ walkAll copies
end

theorem walkAll_append (copies others : List Copy) :
    walkAll (copies ++ others) = walkAll copies ++ walkAll others := by
  induction copies with
  | nil => rfl
  | cons copy copies ih => simp only [walkAll, List.cons_append, ih, List.append_assoc]

/-- A copy holds data that is like its declaration, and lists the copies of what the declaration
owns. -/
structure Fits (alike : DeclId → DeclId → Data → Prop) (owned : DeclId → List DeclId) (tree : Tree)
    (copy : Copy) : Prop where
  sources : owned copy.source = copy.copies.map source
  content : ∃ data, alike copy.source copy.place data ∧
    tree.content? copy.place = some (data, copy.copies.map place)

end Copy

/-- The declarations of a side that a forest stands for are those of a tree, and the nodes below one
come from what it owns. -/
structure Origin.Follows (pick : Origin → Option DeclId) (tree : Tree)
    (owned : DeclId → List DeclId) (origin : Origin) : Prop where
  known : ∀ id, pick origin = some id → ∃ declaration, tree.get? id = some declaration
  children : origin.children.filterMap pick = (pick origin).elim [] owned

/-- Data that a declaration of a tree has in an output. What is registered stands at its
placeholder. -/
def Binding.Alike (binding : Binding) (output : Output) (tree : Tree) (source place : DeclId)
    (data : Data) : Prop :=
  (∃ declaration bound expectation, tree.get? source = some declaration ∧
    binding.data output (declaration.data.mapRefs tree.detachRef) = .ok bound ∧
    data = { bound with expectation }) ∧
  (data.kind.isRegistered = true →
    binding.registry.find? data.kind data.qualifiedName output = some place)

/-- From one state of an output to a later one, the copies of what some origins stand for were put
in. -/
structure Part.Copied (placeholders : Nat) (alike : DeclId → DeclId → Data → Prop)
    (owned : DeclId → List DeclId) (pick : Origin → Option DeclId) (container : Option DeclId)
    (before after : Part) (origins : List Origin) (copies : List Copy) : Prop where
  tops : copies.map Copy.source = origins.filterMap pick
  sources : (Copy.walkAll copies).map Copy.source = (Origin.walkAll origins).filterMap pick
  fits : ∀ copy ∈ Copy.walkAll copies, copy.Fits alike owned after.tree
  grows : Grows placeholders container (copies.map Copy.place)
    ((Copy.walkAll copies).map Copy.place) before after

namespace Part.Copied

variable {placeholders : Nat} {alike : DeclId → DeclId → Data → Prop}
  {owned : DeclId → List DeclId} {pick : Origin → Option DeclId} {container : Option DeclId}
  {before middle after : Part}
  {origins others : List Origin} {copies more : List Copy}

theorem append
    (hfirst : Copied placeholders alike owned pick container before middle origins copies)
    (hsecond : Copied placeholders alike owned pick container middle after others more)
    (hcontainer : ∀ owner, container = some owner → before.Settled placeholders owner) :
    Copied placeholders alike owned pick container before after (origins ++ others)
      (copies ++ more) where
  tops := by rw [List.map_append, List.filterMap_append, hfirst.tops, hsecond.tops]
  sources := by
    rw [Copy.walkAll_append, Origin.walkAll_append, List.map_append, List.filterMap_append,
      hfirst.sources, hsecond.sources]
  fits copy hcopy := by
    rw [Copy.walkAll_append] at hcopy
    obtain hcopy | hcopy := List.mem_append.mp hcopy
    · obtain ⟨hsources, data, halike, hcontent⟩ := hfirst.fits copy hcopy
      obtain ⟨hfresh, hsettled⟩ := hfirst.grows.fresh _ (List.mem_map_of_mem hcopy)
      refine ⟨hsources, data, halike, ?_⟩
      rw [hsecond.grows.content_of_ne hsettled fun heq => hfresh (hcontainer _ heq), hcontent]
    · exact hsecond.fits copy hcopy
  grows := by
    rw [Copy.walkAll_append, List.map_append, List.map_append]
    exact hfirst.grows.append hsecond.grows

/-- A copy of a declaration with the copies of what hangs below it. -/
theorem below {origin : Origin} {source place : DeclId} {data : Data}
    (hpick : pick origin = some source) (halike : alike source place data)
    (howned : origin.children.filterMap pick = owned source)
    (hfirst : Grows placeholders container [place] [place] before middle)
    (hplaced : middle.tree.content? place = some (data, []))
    (hsecond : Copied placeholders alike owned pick (some place) middle after origin.children
      copies) :
    Copied placeholders alike owned pick container before after [origin]
      [.mk source place copies] where
  tops := by simp [hpick, Copy.source]
  sources := by
    obtain ⟨first, second, common, children⟩ := origin
    simp only [Copy.walkAll, Copy.walk, Origin.walkAll, Origin.walk, List.append_nil,
      List.filterMap_cons, hpick, List.map_cons, hsecond.sources, Copy.source, Origin.children]
  fits copy hcopy := by
    simp only [Copy.walkAll, Copy.walk, List.append_nil] at hcopy
    obtain rfl | hcopy := List.mem_cons.mp hcopy
    · obtain ⟨-, hsettled⟩ := hfirst.fresh place List.mem_cons_self
      refine ⟨?_, data, halike, ?_⟩
      · exact howned.symm.trans hsecond.tops.symm
      · rw [Copy.place, hsecond.grows.content place hsettled]
        simp [hplaced, Copy.copies]
    · exact hsecond.fits copy hcopy
  grows := by
    simp only [Copy.walkAll, Copy.walk, List.append_nil, List.map_cons, List.map_nil, Copy.place]
    exact hfirst.below hsecond.grows

/-- Where a side has no declaration, nothing is put in for it. -/
theorem nothing {origin : Origin} (hpick : pick origin = none)
    (hbelow : origin.children.filterMap pick = [])
    (hcopied : Copied placeholders alike owned pick none before after origin.children copies) :
    Copied placeholders alike owned pick container before after [origin] [] := by
  have hnone : copies = [] := List.map_eq_nil_iff.mp (hcopied.tops.trans hbelow)
  subst hnone
  refine ⟨by simp [hpick], ?_, nofun, { hcopied.grows with content := fun id hsettled => ?_ }⟩
  · obtain ⟨first, second, common, children⟩ := origin
    simp only [Origin.walkAll, Origin.walk, List.append_nil, List.filterMap_cons, hpick]
    exact hcopied.sources
  · rw [hcopied.grows.content id hsettled]
    simp

end Part.Copied

namespace Filling

variable {sides : Sides} {binding : Binding} {output : Output} {pick : Origin → Option DeclId}
  {input : Tree} {owned : DeclId → List DeclId} {placeholders : Nat}

variable (output) in
/-- What putting a node into all outputs does to one of them. -/
theorem placeIn_output {payloads : PerOutput (Option Data)} {containers places : Places}
    {filling after : Filling} (hrun : Output.all.foldlM (placeIn binding payloads containers)
      (filling, .replicate none) = .ok (after, places)) :
    (payloads.get output = none →
      after.part output = filling.part output ∧ places.get output = none) ∧
    ∀ payload, payloads.get output = some payload →
      ∃ bound id, ∃ middle done : Filling, binding.data output payload = .ok bound ∧
        middle.part output = filling.part output ∧
        middle.place binding output (containers.get output) { bound with
          expectation := expectationOf payloads.common.isSome output bound.kind } = .ok (id, done) ∧
        after.part output = done.part output ∧ places.get output = some id := by
  obtain ⟨⟨middle, noted⟩, ⟨done, placed⟩, hmiddle, hstep, hafter⟩ :=
    Output.foldlM_all output placeIn_other hrun
  obtain ⟨hbefore, hnoted⟩ := Prod.mk.inj hmiddle
  obtain ⟨hdone, hplaced⟩ := Prod.mk.inj hafter
  refine ⟨fun hnone => ?_, fun payload hsome => ?_⟩
  · simp only [placeIn, hnone] at hstep
    cases hstep
    refine ⟨hdone.trans hbefore, hplaced.trans (hnoted.trans ?_)⟩
    exact PerOutput.get_replicate none output
  · simp only [placeIn, hsome] at hstep
    obtain ⟨bound, hbound, hstep⟩ := Except.bind_eq_ok.mp hstep
    obtain ⟨⟨id, next⟩, hplace, heq⟩ := Except.bind_eq_ok.mp hstep
    cases heq
    exact ⟨bound, id, middle, _, hbound, hbefore, hplace, hdone,
      hplaced.trans (PerOutput.get_set_self _ _ _)⟩

mutual
private theorem visit_copies
    (hpayload : ∀ origin : Origin,
      (origin.node sides).payloads.get output = (pick origin).bind input.detached?)
    (hregistry : ∀ kind name id,
      binding.registry.find? kind name output = some id → id.index < placeholders) :
    ∀ (origin : Origin) {filling after : Filling} {containers : Places},
    (∀ below ∈ Origin.walk origin, below.Follows pick input owned) →
    (filling.part output).Steady placeholders →
    (∀ owner, containers.get output = some owner →
      (filling.part output).Settled placeholders owner) →
    filling.visit binding containers (origin.node sides) = .ok after →
    ∃ copies, Part.Copied placeholders (binding.Alike output input) owned pick
      (containers.get output) (filling.part output) (after.part output) [origin] copies
  | .mk first second common children, filling, after, containers, hfollows, hsteady, hcontainer,
    hrun => by
    rw [Origin.walk] at hfollows
    obtain ⟨hself, hbelow⟩ := List.forall_mem_cons.mp hfollows
    have hpayload' := hpayload (.mk first second common children)
    rw [Origin.node] at hrun hpayload'
    rw [visit] at hrun
    obtain ⟨⟨middle, places⟩, hplaces, hchildren⟩ := Except.bind_eq_ok.mp hrun
    obtain ⟨hnone, hsome⟩ := placeIn_output output hplaces
    cases hpick : pick (.mk first second common children) with
    | none =>
      obtain ⟨hsame, hfree⟩ := hnone (by rw [hpayload', hpick, Option.bind_none])
      obtain ⟨copies, hcopied⟩ := visitAll_copies hpayload hregistry children hbelow
        (by rwa [hsame]) (by rw [hfree]; nofun) hchildren
      have howned := hself.children
      rw [hpick, Option.elim_none] at howned
      rw [hfree, hsame] at hcopied
      exact ⟨[], .nothing hpick howned hcopied⟩
    | some id =>
      obtain ⟨declaration, hget⟩ := hself.known id hpick
      have hdata : input.detached? id = some (declaration.data.mapRefs input.detachRef) := by
        rw [Tree.detached?, hget, Option.map_some]
      obtain ⟨bound, place, start, done, hbound, hstart, hplace, hmiddle, hplaced⟩ :=
        hsome _ (by rw [hpayload', hpick, Option.bind_some, hdata])
      rw [← hstart] at hsteady hcontainer
      obtain ⟨hgrows, hcontent⟩ := place_grows hsteady hcontainer hregistry hplace
      rw [← hmiddle] at hgrows hcontent
      rw [hstart] at hgrows
      obtain ⟨-, hsettled⟩ := hgrows.fresh place List.mem_cons_self
      obtain ⟨copies, hcopied⟩ := visitAll_copies hpayload hregistry children hbelow
        hgrows.steady (by rw [hplaced]; rintro owner ⟨⟩; exact hsettled) hchildren
      have howned := hself.children
      rw [hpick, Option.elim_some] at howned
      rw [hplaced] at hcopied
      exact ⟨_, .below hpick ⟨⟨declaration, bound, _, hget, hbound, rfl⟩,
        place_find? hplace⟩ howned hgrows hcontent hcopied⟩
/-- Filling an output from a forest puts a copy of every declaration of a side into it. -/
theorem visitAll_copies
    (hpayload : ∀ origin : Origin,
      (origin.node sides).payloads.get output = (pick origin).bind input.detached?)
    (hregistry : ∀ kind name id,
      binding.registry.find? kind name output = some id → id.index < placeholders) :
    ∀ (origins : List Origin) {filling after : Filling} {containers : Places},
    (∀ below ∈ Origin.walkAll origins, below.Follows pick input owned) →
    (filling.part output).Steady placeholders →
    (∀ owner, containers.get output = some owner →
      (filling.part output).Settled placeholders owner) →
    filling.visitAll binding containers (Origin.nodes sides origins) = .ok after →
    ∃ copies, Part.Copied placeholders (binding.Alike output input) owned pick
      (containers.get output) (filling.part output) (after.part output) origins copies
  | [], filling, after, containers, _, hsteady, _, hrun => by
    cases hrun
    exact ⟨[], rfl, rfl, nofun, .refl hsteady⟩
  | origin :: origins, filling, after, containers, hfollows, hsteady, hcontainer, hrun => by
    rw [Origin.walkAll] at hfollows
    obtain ⟨hfirst, hrest⟩ := List.forall_mem_append.mp hfollows
    rw [Origin.nodes, visitAll] at hrun
    obtain ⟨middle, hmiddle, hrun⟩ := Except.bind_eq_ok.mp hrun
    obtain ⟨copies, hcopied⟩ :=
      visit_copies hpayload hregistry origin hfirst hsteady hcontainer hmiddle
    obtain ⟨more, hmore⟩ := visitAll_copies hpayload hregistry origins hrest hcopied.grows.steady
      (fun owner howner => hcopied.grows.settled owner (hcontainer owner howner)) hrun
    exact ⟨copies ++ more, hcopied.append hmore hcontainer⟩
end

end Filling

end Concord
