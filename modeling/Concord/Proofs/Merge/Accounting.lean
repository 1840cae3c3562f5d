import Concord.Proofs.Merge.Derivation
import Mathlib.Data.Set.Card

namespace Concord

open Origin (walk walkAll)

namespace Origin

variable {sides : Sides} {good : DeclId → DeclId → Data → Prop} {origin : Origin}

theorem Sound.firsts (hsound : origin.Sound sides good) :
    origin.children.filterMap first? = origin.first?.elim [] sides.first.children := by
  simpa [List.filterMap_map, Function.comp_def, ids] using hsound.siblings.firsts

theorem Sound.seconds (hsound : origin.Sound sides good) :
    (origin.children.filterMap second?).Perm (origin.second?.elim [] sides.second.children) := by
  simpa [List.filterMap_map, Function.comp_def, ids] using hsound.siblings.seconds

/-- Below a node without a declaration of the first side there is none of that side. -/
theorem Sound.first?_below (hsound : origin.Sound sides good)
    (hnone : origin.first? = none) : ∀ below ∈ origin.children, below.first? = none := by
  have hfirsts := hsound.firsts
  rw [hnone, Option.elim_none, List.filterMap_eq_nil_iff] at hfirsts
  exact hfirsts

/-- Below a node without a declaration of the second side there is none of that side. -/
theorem Sound.second?_below (hsound : origin.Sound sides good)
    (hnone : origin.second? = none) : ∀ below ∈ origin.children, below.second? = none := by
  have hseconds := hsound.seconds
  rw [hnone, Option.elim_none, List.perm_nil, List.filterMap_eq_nil_iff] at hseconds
  exact hseconds

end Origin

namespace Sides

/-- Nothing is lost and nothing stands twice in a forest with these origins. -/
structure Accounts (sides : Sides) (origins : List Origin) : Prop where
  /-- Each declaration of the first side that can be reached is the source of one node. -/
  firsts : ((walkAll origins).filterMap Origin.first?).Nodup ∧
    ∀ a, a ∈ (walkAll origins).filterMap Origin.first? ↔ sides.first.Reachable a
  /-- Each declaration of the second side that can be reached is the source of one node. -/
  seconds : ((walkAll origins).filterMap Origin.second?).Nodup ∧
    ∀ b, b ∈ (walkAll origins).filterMap Origin.second? ↔ sides.second.Reachable b
  /-- A node holds what its sides declare, and data that both share when both declare something. -/
  payloads : ∀ origin ∈ walkAll origins,
    origin.first?.map sides.first.detached? = (origin.node sides).payloads.first.map some ∧
    origin.second?.map sides.second.detached? = (origin.node sides).payloads.second.map some ∧
    (origin.node sides).isCommon = (origin.first?.isSome && origin.second?.isSome)
  /-- A shared node is topmost or stands below a shared node. -/
  shared : ∀ origin ∈ walkAll origins, (origin.node sides).isCommon = true → origin ∈ origins ∨
    ∃ parent ∈ walkAll origins, (parent.node sides).isCommon = true ∧ origin ∈ parent.children
  /-- Below a node of one side there are only nodes of that side. -/
  alone : ∀ origin ∈ walkAll origins,
    (origin.first? = none → ∀ below ∈ walk origin, below.first? = none) ∧
    (origin.second? = none → ∀ below ∈ walk origin, below.second? = none)
  /-- The nodes below a node come from the children of its declarations. -/
  links : ∀ origin ∈ walkAll origins,
    origin.children.filterMap Origin.first? = origin.first?.elim [] sides.first.children ∧
    (origin.children.filterMap Origin.second?).Perm
      (origin.second?.elim [] sides.second.children)
  /-- The topmost nodes come from the roots. -/
  roots : origins.filterMap Origin.first? = sides.first.roots ∧
    (origins.filterMap Origin.second?).Perm sides.second.roots

variable {sides : Sides} {good : DeclId → DeclId → Data → Prop} {origins : List Origin}
  {forest : MergedForest}

private theorem map_detached {tree : Tree} (hrooted : tree.Rooted) {id : Option DeclId}
    (hid : ∀ a, id = some a → tree.Reachable a) :
    id.map tree.detached? = (id.bind tree.detached?).map some := by
  cases id with
  | none => rfl
  | some a =>
    rw [Option.map_some, Option.bind_some,
      Tree.detached?_of_known (hrooted.reachable_known (hid a rfl)), Option.map_some]

theorem Traces.accounts (htraces : sides.Traces good origins forest)
    (hfirst : sides.first.Rooted) (hsecond : sides.second.Rooted) : sides.Accounts origins := by
  have hroots : origins.filterMap Origin.first? = sides.first.roots := by
    simpa [List.filterMap_map, Function.comp_def, Origin.ids] using htraces.roots.firsts
  have hroots' : (origins.filterMap Origin.second?).Perm sides.second.roots := by
    simpa [List.filterMap_map, Function.comp_def, Origin.ids] using htraces.roots.seconds
  have hfirsts := Origin.walkAll_accounts hfirst (.of_eq hroots)
    fun origin horigin => .of_eq (htraces.sound origin horigin).firsts
  have hseconds := Origin.walkAll_accounts hsecond hroots'
    fun origin horigin => (htraces.sound origin horigin).seconds
  have hcommon (origin : Origin) (horigin : origin ∈ walkAll origins) :
      (origin.node sides).isCommon = (origin.first?.isSome && origin.second?.isSome) := by
    rw [MergedNode.isCommon, Origin.node_payloads, (htraces.sound origin horigin).common]
  refine ⟨hfirsts, hseconds, fun origin horigin => ⟨?_, ?_, hcommon origin horigin⟩,
    fun origin horigin hshared => ?_, fun origin horigin => ⟨?_, ?_⟩,
    fun origin horigin => ⟨?_, ?_⟩, hroots, hroots'⟩
  · rw [Origin.node_payloads]
    refine map_detached hfirst fun a ha => (hfirsts.2 a).mp ?_
    exact List.mem_filterMap.mpr ⟨origin, horigin, ha⟩
  · rw [Origin.node_payloads]
    refine map_detached hsecond fun b hb => (hseconds.2 b).mp ?_
    exact List.mem_filterMap.mpr ⟨origin, horigin, hb⟩
  · obtain htop | ⟨parent, hparent, hbelow⟩ := Origin.walkAll_parent origins horigin
    · exact .inl htop
    · refine .inr ⟨parent, hparent, ?_, hbelow⟩
      rw [hcommon origin horigin, Bool.and_eq_true] at hshared
      rw [hcommon parent hparent, Bool.and_eq_true, Option.isSome_iff_ne_none,
        Option.isSome_iff_ne_none]
      refine ⟨fun hnone => ?_, fun hnone => ?_⟩
      · have hbelow := (htraces.sound parent hparent).first?_below hnone origin hbelow
        simp [hbelow] at hshared
      · have hbelow := (htraces.sound parent hparent).second?_below hnone origin hbelow
        simp [hbelow] at hshared
  · refine Origin.walk_all (·.first? = none) origin fun below hbelow => ?_
    exact (htraces.sound below (Origin.walkAll_trans horigin below hbelow)).first?_below
  · refine Origin.walk_all (·.second? = none) origin fun below hbelow => ?_
    exact (htraces.sound below (Origin.walkAll_trans horigin below hbelow)).second?_below
  · exact (htraces.sound origin horigin).firsts
  · exact (htraces.sound origin horigin).seconds

/-- A declaration of the first side that a node comes from is known. -/
theorem Accounts.known_first (haccounts : sides.Accounts origins) (hfirst : sides.first.Rooted)
    {origin : Origin} (horigin : origin ∈ walkAll origins) {a : DeclId} (ha : origin.first? = some a) :
    ∃ declaration, sides.first.get? a = some declaration :=
  hfirst.reachable_known ((haccounts.firsts.2 a).mp (List.mem_filterMap.mpr ⟨origin, horigin, ha⟩))

/-- A declaration of the second side that a node comes from is known. -/
theorem Accounts.known_second (haccounts : sides.Accounts origins) (hsecond : sides.second.Rooted)
    {origin : Origin} (horigin : origin ∈ walkAll origins) {b : DeclId}
    (hb : origin.second? = some b) : ∃ declaration, sides.second.get? b = some declaration :=
  hsecond.reachable_known ((haccounts.seconds.2 b).mp (List.mem_filterMap.mpr ⟨origin, horigin, hb⟩))

/-- Each node counts for one declaration, or for two if it is shared. -/
private theorem count_walked {walked : List Origin}
    (hsound : ∀ origin ∈ walked, origin.Sound sides good) :
    walked.length + (walked.filter fun origin => (origin.node sides).isCommon).length =
      (walked.filterMap Origin.first?).length + (walked.filterMap Origin.second?).length := by
  induction walked with
  | nil => rfl
  | cons origin walked ih =>
    obtain ⟨hone, hothers⟩ := List.forall_mem_cons.mp hsound
    have hrest := ih hothers
    have hcommon : (origin.node sides).isCommon =
        (origin.first?.isSome && origin.second?.isSome) := by
      rw [MergedNode.isCommon, Origin.node_payloads, hone.common]
    have hsource := hone.source
    cases hfirst : origin.first? with
    | none =>
      cases hsecond : origin.second? with
      | none => simp [hfirst, hsecond] at hsource
      | some b =>
        simp only [hfirst, hsecond, Option.isSome_none, Bool.false_and] at hcommon
        simp only [List.length_cons, List.filter_cons, List.filterMap_cons, hcommon, hfirst,
          hsecond, Bool.false_eq_true, if_false]
        omega
    | some a =>
      cases hsecond : origin.second? with
      | none =>
        simp only [hfirst, hsecond, Option.isSome_none, Bool.and_false] at hcommon
        simp only [List.length_cons, List.filter_cons, List.filterMap_cons, hcommon, hfirst,
          hsecond, Bool.false_eq_true, if_false]
        omega
      | some b =>
        simp only [hfirst, hsecond, Option.isSome_some, Bool.and_true] at hcommon
        simp only [List.length_cons, List.filter_cons, List.filterMap_cons, hcommon, hfirst,
          hsecond, if_true]
        omega

private theorem length_eq_ncard {ids : List DeclId} {tree : Tree} (hnodup : ids.Nodup)
    (hids : ∀ id, id ∈ ids ↔ tree.Reachable id) : ids.length = {id | tree.Reachable id}.ncard := by
  have hset : {id | tree.Reachable id} = (ids.toFinset : Set DeclId) := by
    ext id
    simp [hids]
  rw [hset, Set.ncard_coe_finset, List.toFinset_card_of_nodup hnodup]

/-- The nodes are as many as the declarations of both sides that can be reached, less the shared
ones. -/
theorem Traces.nodeCount (htraces : sides.Traces good origins forest)
    (hfirst : sides.first.Rooted) (hsecond : sides.second.Rooted) :
    forest.nodeCount + (forest.nodes.filter (·.isCommon)).length =
      {a | sides.first.Reachable a}.ncard + {b | sides.second.Reachable b}.ncard := by
  have haccounts := htraces.accounts hfirst hsecond
  rw [← length_eq_ncard haccounts.firsts.1 haccounts.firsts.2,
    ← length_eq_ncard haccounts.seconds.1 haccounts.seconds.2, ← count_walked htraces.sound,
    MergedForest.nodeCount, Origin.forest_nodes htraces.nodes]
  simp [List.filter_map, Function.comp_def]

/-- Two trees that pass their check, with roots that belong nowhere and parameters that own nothing,
are merged, and the merge loses and duplicates nothing: each declaration that can be reached is the
source of one node, with its links. So the nodes are as many as the declarations of both sides, less
one for each that both share. This holds of a merge in one session, and of a merge by workers in any
order. -/
theorem merge_accounts (sides : Sides) (hconsistent : sides.Consistent) (cache : Cache)
    (hbuilt : sides.first.Built ∧ sides.second.Built)
    (hcheckFirst : checkMergeable sides.first .first = .ok ())
    (hcheckSecond : checkMergeable sides.second .second = .ok ())
    (hfreeFirst : ∀ root ∈ sides.first.roots, sides.first.container? root = none)
    (hfreeSecond : ∀ root ∈ sides.second.roots, sides.second.container? root = none)
    (hbare : sides.first.ParametersBare ∧ sides.second.ParametersBare) :
    sides.MergeSucceeds cache ∧
      ∀ result after limitHits, sides.MergesTo cache result after limitHits → ∃ origins,
        result.forest.roots = Origin.nodes sides origins ∧
        result.forest.nodes = (walkAll origins).map (Origin.node sides) ∧
        sides.Accounts origins ∧
        result.forest.nodeCount + (result.forest.nodes.filter (·.isCommon)).length =
          {a | sides.first.Reachable a}.ncard + {b | sides.second.Reachable b}.ncard := by
  have hfirst := hbuilt.1.mergeable hcheckFirst hfreeFirst hbare.1
  have hsecond := hbuilt.2.mergeable hcheckSecond hfreeSecond hbare.2
  have hmergeable : sides.Mergeable := ⟨hconsistent, hfirst, hsecond, hcheckFirst, hcheckSecond⟩
  refine ⟨hmergeable.merge_succeeds cache, fun result after limitHits hmerges => ?_⟩
  obtain ⟨origins, htraces⟩ := hmergeable.traces hmerges
  refine ⟨origins, htraces.nodes, Origin.forest_nodes htraces.nodes, ?_, ?_⟩
  · exact htraces.accounts hfirst.rooted hsecond.rooted
  · exact htraces.nodeCount hfirst.rooted hsecond.rooted

end Sides

/-- A type without arguments that lies outside of every tree. -/
private def outerType : Ty ClassifierRef :=
  .simple ⟨.external ⟨"kotlin.Unit"⟩, [], false, false, none⟩

private def moduleData : Data :=
  .ofPayload ⟨"m"⟩ ⟨"m"⟩ (.module ⟨none⟩)

private def packageData : Data :=
  .ofPayload ⟨"p"⟩ ⟨"p"⟩ .package

private def functionData : Data :=
  .ofPayload ⟨"f"⟩ ⟨"p.f"⟩ (.function ⟨outerType, none, [], false, false, false, false⟩)

private def parameterData : Data :=
  .ofPayload ⟨"x"⟩ ⟨"p.f.x"⟩ (.value ⟨outerType, false, false⟩)

private def strayData : Data :=
  .ofPayload ⟨"g"⟩ ⟨"p.f.x.g"⟩
    (.property ⟨outerType, none, [], false, false, false, false, none, none⟩)

/-- A module with a package and a function of one parameter. -/
def parameterTree : Tree :=
  ⟨#[⟨moduleData, none, [⟨1⟩]⟩, ⟨packageData, some ⟨0⟩, [⟨2⟩]⟩,
    ⟨functionData, some ⟨1⟩, [⟨3⟩]⟩, ⟨parameterData, some ⟨2⟩, []⟩], [⟨0⟩], []⟩

/-- The same, where the parameter was a class when a property was put into it. -/
def strayTree : Tree :=
  ⟨#[⟨moduleData, none, [⟨1⟩]⟩, ⟨packageData, some ⟨0⟩, [⟨2⟩]⟩,
    ⟨functionData, some ⟨1⟩, [⟨3⟩]⟩, ⟨parameterData, some ⟨2⟩, [⟨4⟩]⟩,
    ⟨strayData, some ⟨3⟩, []⟩], [⟨0⟩], []⟩

private theorem parameterTree_built : parameterTree.Built := by
  have hmodule := Tree.Built.addRoot .empty moduleData
  have hpackage := hmodule.insert (show Tree.insert _ ⟨0⟩ packageData = _ from rfl)
  have hfunction := hpackage.insert (show Tree.insert _ ⟨1⟩ functionData = _ from rfl)
  exact hfunction.insert (show Tree.insert _ ⟨2⟩ parameterData = _ from rfl)

theorem strayTree_built : strayTree.Built := by
  have hclass := parameterTree_built.setData ⟨3⟩
    { parameterData with payload := .classType (.ofKind .ordinary) }
  have hstray := hclass.insert (show Tree.insert _ ⟨3⟩ strayData = _ from rfl)
  exact hstray.setData ⟨3⟩ parameterData

/-- Options without exclusions, whose limits are far off. -/
def plainOptions : CompiledOptions :=
  ⟨["kotlin"], [], false, 100, 1000000⟩

private theorem parameterTree_mergeable (side : Output) :
    checkMergeable parameterTree side = .ok () :=
  checkMergeable_iff.mpr ⟨Tree.checkOwnership_iff.mp (by decide), by decide⟩

private theorem parameterTree_bare : parameterTree.ParametersBare := by
  intro id declaration hget hkind child hchild
  obtain ⟨_ | _ | _ | _ | index⟩ := id
  · cases hget
    cases hkind
  · cases hget
    cases hkind
  · cases hget
    obtain rfl := List.mem_singleton.mp hchild
    rfl
  · cases hget
    cases hkind
  · cases hget

/-- Merging a function of one parameter with itself accounts for both sides, in one session as by
workers that take their steps one after the other. -/
theorem parameterTree_accounts :
    let sides := Sides.ofTrees parameterTree parameterTree plainOptions
    let workers := sides.mergeTask.inOrder .empty
    (∃ result session origins, sides.merge .empty = .ok (result, session) ∧
      sides.Accounts origins ∧
      result.forest.nodeCount + (result.forest.nodes.filter (·.isCommon)).length =
        {a | parameterTree.Reachable a}.ncard + {b | parameterTree.Reachable b}.ncard) ∧
    ∃ nodes rejections origins, workers.2.outcome = .ok (nodes, rejections) ∧
      nodes = Origin.nodes sides origins ∧ sides.Accounts origins := by
  intro sides workers
  obtain ⟨hsucceeds, haccounts⟩ :=
    sides.merge_accounts nofun .empty ⟨parameterTree_built, parameterTree_built⟩
      (parameterTree_mergeable .first) (parameterTree_mergeable .second) (by decide) (by decide)
      ⟨parameterTree_bare, parameterTree_bare⟩
  constructor
  · obtain ⟨result, session, hmerge⟩ := hsucceeds.session
    obtain ⟨origins, -, -, horigins, hcount⟩ := haccounts _ _ _ (.session hmerge rfl rfl)
    exact ⟨result, session, origins, hmerge, horigins, hcount⟩
  · obtain ⟨nodes, rejections, houtcome⟩ := hsucceeds.inOrder
    obtain ⟨origins, hnodes, -, horigins, -⟩ := haccounts _ _ _ (Sides.mergesTo_inOrder houtcome)
    exact ⟨nodes, rejections, origins, houtcome, hnodes, horigins⟩

theorem strayTree_mergeable (side : Output) : checkMergeable strayTree side = .ok () :=
  checkMergeable_iff.mpr ⟨Tree.checkOwnership_iff.mp (by decide), by decide⟩

/-- The property hangs below the parameter. -/
theorem strayTree_reachable : strayTree.Reachable ⟨4⟩ := by
  have hmodule : strayTree.Reachable ⟨0⟩ := .root (by decide)
  have hpackage : strayTree.Reachable ⟨1⟩ := .child hmodule (by decide)
  have hfunction : strayTree.Reachable ⟨2⟩ := .child hpackage (by decide)
  have hparameter : strayTree.Reachable ⟨3⟩ := .child hfunction (by decide)
  exact .child hparameter (by decide)

/-- What hangs below a parameter of a function is lost when the parameter is merged. -/
theorem parameter_member_lost :
    let sides := Sides.ofTrees strayTree strayTree plainOptions
    strayTree.Built ∧ checkMergeable strayTree .first = .ok () ∧
      checkMergeable strayTree .second = .ok () ∧
      (∀ root ∈ strayTree.roots, strayTree.container? root = none) ∧
      strayTree.Reachable ⟨4⟩ ∧
      ∃ result session, sides.merge .empty = .ok (result, session) ∧
        ∀ node ∈ result.forest.nodes, node.payload? .first ≠ strayTree.detached? ⟨4⟩ := by
  refine ⟨strayTree_built, strayTree_mergeable .first, strayTree_mergeable .second, by decide,
    strayTree_reachable, ?_⟩
  exact ⟨_, _, rfl, by decide⟩

end Concord
