import Mathlib.Data.List.Nodup
import Concord.Proofs.Output.Seating
import Concord.Proofs.Output.Standing

namespace Concord

open Standing (walkAll)

/-- A declaration is listed once, in the container at which it points. -/
structure Tree.Sits (tree : Tree) (id owner : DeclId) : Prop where
  container : tree.container? id = some owner
  once : (tree.children owner).count id = 1
  nowhereElse : ∀ other, other ≠ owner → id ∉ tree.children other

/-- A tree that starts as some placeholders and is filled with what some nodes have in an output. -/
structure Tree.FilledWith (tree base : Tree) (binding : Binding) (output : Output)
    (standings : List Standing) : Prop where
  /-- A node has a place when it has data. -/
  placed : ∀ standing ∈ walkAll standings,
    standing.place.isSome = (standing.payloads.get output).isSome
  /-- No two nodes have the same place: a placeholder is filled at most once. -/
  distinct : ((walkAll standings).filterMap Standing.place).Nodup
  /-- The place of a node holds its data, bound and marked for the output, and lists the places of the
  nodes below. -/
  content : ∀ standing ∈ walkAll standings, ∀ payload id,
    standing.payloads.get output = some payload → standing.place = some id → ∃ bound,
      binding.data output payload = .ok bound ∧ tree.content? id = some ({ bound with
          expectation := expectationOf standing.payloads.common.isSome output payload.kind },
        standing.members.filterMap Standing.place)
  /-- Registered data fills a placeholder of its kind and name. -/
  fills : ∀ standing ∈ walkAll standings, ∀ payload id,
    standing.payloads.get output = some payload → standing.place = some id →
      payload.kind.isRegistered = true → ∃ placeholder, base.get? id = some placeholder ∧
        placeholder.kind = payload.kind ∧ placeholder.qualifiedName = payload.qualifiedName
  /-- What fills a placeholder, below a node that has a place, sits there, and the placeholder was
  allocated there. -/
  attached : ∀ parent ∈ walkAll standings, ∀ child ∈ parent.members, ∀ payload id owner,
    child.payloads.get output = some payload → payload.kind.isRegistered = true →
      child.place = some id → parent.place = some owner →
        tree.Sits id owner ∧ base.container? id = some owner
  /-- A placeholder that nothing fills is as it was, and nothing lists it. -/
  untouched : ∀ id placeholder, base.get? id = some placeholder →
    (∀ standing ∈ walkAll standings, ∀ payload, standing.payloads.get output = some payload →
      ¬(payload.kind = placeholder.kind ∧ payload.qualifiedName = placeholder.qualifiedName)) →
        tree.get? id = some placeholder ∧ ∀ owner, id ∉ tree.children owner
  /-- Everything else is a function, property or value that was inserted for a node. -/
  inserted : ∀ id declaration, base.get? id = none → tree.get? id = some declaration →
    ∃ standing ∈ walkAll standings, standing.place = some id ∧
      ∃ payload, standing.payloads.get output = some payload ∧
        (payload.kind = .function ∨ payload.kind = .property ∨ payload.kind = .value)

namespace Kind

theorem eq_of_unregistered {kind : Kind} (hkind : kind.isRegistered = false) :
    kind = .function ∨ kind = .property ∨ kind = .value := by
  cases kind <;> simp [isRegistered] at hkind ⊢

end Kind

namespace Part.Put

variable {binding : Binding} {output : Output} {base : Tree} {before after : Part}
  {standings : List Standing}

/-- Everything that stands somewhere hangs there. -/
private theorem hangs_of_walked {container : Option DeclId} {standing : Standing}
    (hput : Put binding output base container before after standings)
    (hstanding : standing ∈ walkAll standings) :
    ∃ owner, standing.Hangs output base after.tree owner := by
  obtain htop | ⟨parent, hparent, hmember⟩ := Standing.mem_walkAll_cases standings hstanding
  · exact ⟨container, hput.hangs standing htop⟩
  · exact ⟨parent.place, (hput.fits parent hparent).members standing hmember⟩

section Filled

variable (hput : Put binding output base none before after standings)
  (hpending : ∀ id, ¬before.Settled base.size id)
include hput

private theorem place_eq_none {standing : Standing} (hstanding : standing ∈ walkAll standings) :
    standing.place = none ↔ standing.payloads.get output = none := by
  have hfits := hput.fits standing hstanding
  refine ⟨fun hnone => ?_, hfits.nothing⟩
  cases hpayload : standing.payloads.get output with
  | none => rfl
  | some payload =>
    obtain ⟨id, -, hid, -⟩ := hfits.content payload hpayload
    cases hnone.symm.trans hid

private theorem payload_of_place {standing : Standing} {id : DeclId}
    (hstanding : standing ∈ walkAll standings) (hid : standing.place = some id) :
    ∃ payload, standing.payloads.get output = some payload := by
  apply Option.ne_none_iff_exists'.mp
  intro hnone
  cases hid.symm.trans ((hput.place_eq_none hstanding).mpr hnone)

/-- The place of a node holds its data. -/
private theorem content_of_place {standing : Standing} {payload : Data} {id : DeclId}
    (hstanding : standing ∈ walkAll standings)
    (hpayload : standing.payloads.get output = some payload) (hid : standing.place = some id) :
    ∃ bound, binding.data output payload = .ok bound ∧ after.tree.content? id = some ({ bound with
        expectation := expectationOf standing.payloads.common.isSome output payload.kind },
      standing.members.filterMap Standing.place) := by
  obtain ⟨found, bound, hfound, hbound, hcontent, -⟩ :=
    (hput.fits standing hstanding).content payload hpayload
  cases hid.symm.trans hfound
  exact ⟨bound, hbound, hcontent⟩

private theorem children_of_place {standing : Standing} {id : DeclId}
    (hstanding : standing ∈ walkAll standings) (hid : standing.place = some id) :
    after.tree.children id = standing.members.filterMap Standing.place := by
  obtain ⟨payload, hpayload⟩ := hput.payload_of_place hstanding hid
  obtain ⟨bound, -, hcontent⟩ := hput.content_of_place hstanding hpayload hid
  obtain ⟨declaration, hget, -, hchildren⟩ := Tree.content?_eq_some.mp hcontent
  rw [Tree.children_of_get? hget, hchildren]

/-- Registered data fills a placeholder of its kind and name. -/
private theorem placeholder_of_place {standing : Standing} {payload : Data} {id : DeclId}
    (hstanding : standing ∈ walkAll standings)
    (hpayload : standing.payloads.get output = some payload) (hid : standing.place = some id)
    (hregistered : payload.kind.isRegistered = true) : ∃ placeholder,
      base.get? id = some placeholder ∧ placeholder.kind = payload.kind ∧
        placeholder.qualifiedName = payload.qualifiedName := by
  obtain ⟨container, hhangs⟩ := hput.hangs_of_walked hstanding
  obtain ⟨placeholder, hget, hkind, hname, -⟩ :=
    hhangs.takes.placeholder payload id hpayload hid hregistered
  exact ⟨placeholder, hget, hkind, hname⟩

include hpending

/-- What is settled at the end was put in for a node. -/
private theorem standing_of_settled {id : DeclId} (hsettled : after.Settled base.size id) :
    ∃ standing ∈ walkAll standings, standing.place = some id := by
  have hplace := (hput.grows.only id hsettled).resolve_left (hpending id)
  exact List.mem_filterMap.mp hplace

/-- What is listed has the place of a node below that of its container. -/
private theorem member_of_listed {id owner : DeclId} (hlisted : id ∈ after.tree.children owner) :
    ∃ parent ∈ walkAll standings, parent.place = some owner ∧
      ∃ child ∈ parent.members, child.place = some id := by
  cases hget : after.tree.get? owner with
  | none =>
    rw [Tree.children_eq_getD, hget] at hlisted
    cases hlisted
  | some declaration =>
    rw [Tree.children_of_get? hget] at hlisted
    have hsettled : after.Settled base.size owner := by
      by_contra hunsettled
      rw [hput.grows.steady.bare owner _ _ (Tree.content?_of_get? hget) hunsettled] at hlisted
      cases hlisted
    obtain ⟨parent, hparent, howner⟩ := hput.standing_of_settled hpending hsettled
    rw [← Tree.children_of_get? hget, hput.children_of_place hparent howner] at hlisted
    exact ⟨parent, hparent, howner, List.mem_filterMap.mp hlisted⟩

/-- What stands below a node sits in its place. -/
private theorem sits_of_member {parent child : Standing} {id owner : DeclId}
    (hparent : parent ∈ walkAll standings) (hchild : child ∈ parent.members)
    (hid : child.place = some id) (howner : parent.place = some owner) :
    after.tree.Sits id owner := by
  have hpoints {parent child : Standing} {owner : DeclId} (hparent : parent ∈ walkAll standings)
      (hchild : child ∈ parent.members) (hid : child.place = some id)
      (howner : parent.place = some owner) : after.tree.container? id = some owner := by
    rw [((hput.fits parent hparent).members child hchild).points id hid, howner]
    rfl
  have hcontainer := hpoints hparent hchild hid howner
  refine ⟨hcontainer, ?_, fun other hother hlisted => ?_⟩
  · rw [hput.children_of_place hparent howner]
    have hsublist := (Standing.members_sublist_walkAll standings hparent).filterMap Standing.place
    apply List.count_eq_one_of_mem (hput.grows.distinct.sublist hsublist)
    exact List.mem_filterMap.mpr ⟨child, hchild, hid⟩
  · obtain ⟨parent', hparent', howner', child', hchild', hid'⟩ :=
      hput.member_of_listed hpending hlisted
    apply hother
    have hcontainer' := hpoints hparent' hchild' hid' howner'
    exact Option.some.inj (hcontainer'.symm.trans hcontainer)

omit hpending in
/-- A placeholder below the place of a node was allocated there. -/
private theorem container?_of_member
    (hcontained : ∀ id declaration, base.get? id = some declaration → declaration.kind ≠ .module →
      declaration.container.isSome = true)
    {parent child : Standing} {payload : Data} {id owner : DeclId}
    (hparent : parent ∈ walkAll standings) (hchild : child ∈ parent.members)
    (hpayload : child.payloads.get output = some payload)
    (hregistered : payload.kind.isRegistered = true) (hid : child.place = some id)
    (howner : parent.place = some owner) : base.container? id = some owner := by
  have hhangs := (hput.fits parent hparent).members child hchild
  obtain ⟨placeholder, hget, hkind, -, hsame⟩ :=
    hhangs.takes.placeholder payload id hpayload hid hregistered
  have hmodule : placeholder.kind ≠ .module := by
    rw [hkind]
    apply (hhangs.kind payload hpayload).1
    rw [howner]
    rfl
  obtain ⟨other, hother⟩ :=
    Option.isSome_iff_exists.mp (hcontained id placeholder hget hmodule)
  rw [Tree.container?, hget, Option.bind_some, hother, hsame owner other howner hother]

/-- A placeholder that nothing fills is as it was, and nothing lists it. -/
private theorem untouched_of_unnamed (hstart : before.tree = base) {id : DeclId}
    {placeholder : Declaration} (hget : base.get? id = some placeholder)
    (hunnamed : ∀ standing ∈ walkAll standings, ∀ payload,
      standing.payloads.get output = some payload →
        ¬(payload.kind = placeholder.kind ∧ payload.qualifiedName = placeholder.qualifiedName)) :
    after.tree.get? id = some placeholder ∧ ∀ owner, id ∉ after.tree.children owner := by
  have hplaceless (standing : Standing) (hstanding : standing ∈ walkAll standings) :
      standing.place ≠ some id := by
    intro hid
    obtain ⟨payload, hpayload⟩ := hput.payload_of_place hstanding hid
    cases hregistered : payload.kind.isRegistered with
    | true =>
      obtain ⟨filled, hfilled, hkind, hname⟩ :=
        hput.placeholder_of_place hstanding hpayload hid hregistered
      cases hget.symm.trans hfilled
      exact hunnamed standing hstanding payload hpayload ⟨hkind.symm, hname.symm⟩
    | false =>
      obtain ⟨container, hhangs⟩ := hput.hangs_of_walked hstanding
      have hbeyond := hhangs.takes.beyond payload id hpayload hid hregistered
      have hwithin := Tree.lt_size_of_get? hget
      omega
  have hunsettled : ¬after.Settled base.size id := by
    intro hsettled
    obtain ⟨standing, hstanding, hid⟩ := hput.standing_of_settled hpending hsettled
    exact hplaceless standing hstanding hid
  have hsame : after.tree.get? id = base.get? id := by
    rw [hput.grows.untouched id hunsettled, hstart]
  refine ⟨hsame.trans hget, fun owner hlisted => ?_⟩
  obtain ⟨parent, hparent, -, child, hchild, hid⟩ := hput.member_of_listed hpending hlisted
  have hwalked := (Standing.members_sublist_walkAll standings hparent).subset hchild
  exact hplaceless child hwalked hid

/-- What is no placeholder was inserted. -/
private theorem inserted_of_beyond {id : DeclId} {declaration : Declaration}
    (hbase : base.get? id = none) (hget : after.tree.get? id = some declaration) :
    ∃ standing ∈ walkAll standings, standing.place = some id ∧
      ∃ payload, standing.payloads.get output = some payload ∧
        (payload.kind = .function ∨ payload.kind = .property ∨ payload.kind = .value) := by
  have hsettled : after.Settled base.size id := by
    refine ⟨Tree.lt_size_of_get? hget, fun hwithin => ?_⟩
    have hbeyond := Tree.get?_eq_none.mp hbase
    omega
  obtain ⟨standing, hstanding, hid⟩ := hput.standing_of_settled hpending hsettled
  obtain ⟨payload, hpayload⟩ := hput.payload_of_place hstanding hid
  refine ⟨standing, hstanding, hid, payload, hpayload, Kind.eq_of_unregistered ?_⟩
  apply Bool.eq_false_iff.mpr
  intro hregistered
  obtain ⟨placeholder, hfilled, -⟩ :=
    hput.placeholder_of_place hstanding hpayload hid hregistered
  cases hbase.symm.trans hfilled

/-- A tree that held nothing but placeholders is filled. -/
private theorem filledWith (hstart : before.tree = base)
    (hcontained : ∀ id declaration, base.get? id = some declaration → declaration.kind ≠ .module →
      declaration.container.isSome = true) :
    after.tree.FilledWith base binding output standings where
  placed standing hstanding := by
    rw [Bool.eq_iff_iff, Option.isSome_iff_ne_none, Option.isSome_iff_ne_none]
    exact not_congr (hput.place_eq_none hstanding)
  distinct := hput.grows.distinct
  content _ hstanding _ _ hpayload hid := hput.content_of_place hstanding hpayload hid
  fills _ hstanding _ _ hpayload hid hregistered :=
    hput.placeholder_of_place hstanding hpayload hid hregistered
  attached _ hparent _ hchild _ _ _ hpayload hregistered hid howner :=
    ⟨hput.sits_of_member hpending hparent hchild hid howner,
      hput.container?_of_member hcontained hparent hchild hpayload hregistered hid howner⟩
  untouched _ _ hget hunnamed := hput.untouched_of_unnamed hpending hstart hget hunnamed
  inserted _ _ hbase hget := hput.inserted_of_beyond hpending hbase hget

end Filled

end Part.Put

namespace Placement

variable {placement : Placement} {options : CompiledOptions} {forest other : MergedForest}

/-- However the forests are related, the placeholders of the one are filled with the data of the
other as far as both agree, and everything else of the other is inserted. -/
theorem fill_frame (hplacement : ofForest forest = .ok placement) {trees : OutputTrees}
    (hfill : placement.fill options other = .ok trees) (output : Output) :
    ∃ standings, Standing.nodes standings = other.roots ∧
      (trees.get output).FilledWith (placement.trees.get output) ⟨placement.registry, options⟩ output
        standings := by
  obtain ⟨filling, hfilling, heq⟩ := Except.bind_eq_ok.mp hfill
  cases heq
  obtain ⟨standings, hnodes, hput⟩ := fill_puts hplacement hfilling output
  -- Before filling no placeholder is settled, and there is nothing else.
  have hpending (id : DeclId) : ¬((⟨placement.trees, []⟩ : Filling).part output).Settled
      (placement.trees.get output).size id := by
    rintro ⟨hlt, hfilled⟩
    exact List.not_mem_nil (hfilled hlt)
  exact ⟨standings, hnodes, hput.filledWith hpending rfl (ofForest_contained hplacement output)⟩

private def soleModule : Data := Data.ofPayload ⟨"m"⟩ ⟨"m"⟩ (.module ⟨none⟩)

private def solePackage : Data := Data.ofPayload ⟨"p"⟩ ⟨"p"⟩ .package

private def plainClass (name : String) : Data :=
  Data.ofPayload ⟨name⟩ ⟨"p." ++ name⟩ (.classType (.ofKind .ordinary))

/-- A module with a package that holds some nodes, all of them shared. -/
private def packed (nodes : List MergedNode) : MergedForest :=
  ⟨[.shared soleModule soleModule soleModule [.shared solePackage solePackage solePackage nodes]]⟩

/-- Placeholders for two classes. -/
private def twoClasses : MergedForest :=
  packed [.shared (plainClass "A") (plainClass "A") (plainClass "A") [],
    .shared (plainClass "B") (plainClass "B") (plainClass "B") []]

/-- Data of one of the classes, with a function in it. -/
private def oneClass : MergedForest :=
  let functionData := Data.ofPayload ⟨"f"⟩ ⟨"p.A.f"⟩
    (.function ⟨.simple ⟨.symbolic ⟨"p.A"⟩, [], false, false, none⟩, none, [], false, false, false, false⟩)
  packed [.shared (plainClass "A") (plainClass "A") (plainClass "A")
    [.shared functionData functionData functionData []]]

/-- Of the placeholders of two classes one is filled from a forest without the other, and a function
is inserted. -/
theorem fill_frame_lacking : ∃ placement trees, ofForest twoClasses = .ok placement ∧
    placement.fill ⟨["kotlin"], [], false, 100, 1000⟩ oneClass = .ok trees ∧
    (placement.trees.common.size, trees.common.size) = (4, 5) ∧
    ∃ standings, Standing.nodes standings = oneClass.roots ∧
      trees.common.FilledWith placement.trees.common
        ⟨placement.registry, ⟨["kotlin"], [], false, 100, 1000⟩⟩ .common standings := by
  have hsizes : (do
      let placement ← (ofForest twoClasses).toOption
      let trees ← (placement.fill ⟨["kotlin"], [], false, 100, 1000⟩ oneClass).toOption
      return (placement.trees.common.size, trees.common.size)) = some (4, 5) := by
    decide +kernel
  obtain ⟨placement, hplacement, hsizes⟩ := Option.bind_eq_some_iff.mp hsizes
  obtain ⟨trees, hfill, hsizes⟩ := Option.bind_eq_some_iff.mp hsizes
  have hplaced := Except.toOption_eq_some.mp hplacement
  have hfilled := Except.toOption_eq_some.mp hfill
  exact ⟨placement, trees, hplaced, hfilled, Option.some.inj hsizes,
    fill_frame hplaced hfilled .common⟩

end Placement

end Concord
