import Concord.Proofs.Output.Produced

namespace Concord

open Origin (walkAll)

/-- No alias is shared as such. -/
theorem Kind.common_of_isMarked {kind : Kind} (hmarked : kind.isMarked = true) :
    kind.common ∈ [Kind.classType, .function, .property] := by
  cases kind <;> first | decide | cases hmarked

theorem Kind.isMarked_common (kind : Kind) : kind.common.isMarked = kind.isMarked := by
  cases kind <;> rfl

/-- The kinds of the declarations of a tree. -/
def Tree.kinds (tree : Tree) : List Kind :=
  tree.declarations.toList.map (·.kind)

/-- Distinct declarations that are all of a tree have the kinds of the tree. -/
theorem Tree.kinds_perm {tree : Tree} {ids : List DeclId} (hnodup : ids.Nodup)
    (hall : ∀ id, id ∈ ids ↔ id.index < tree.size) :
    (ids.map fun id => (tree.declaration id).kind).Perm tree.kinds := by
  have hindices : ((List.range tree.size).map DeclId.mk).Nodup :=
    List.pairwise_map.mpr (List.nodup_range.imp fun hne heq => hne (DeclId.mk.inj heq))
  have hids : ids.Perm ((List.range tree.size).map DeclId.mk) := by
    refine (List.perm_ext_iff_of_nodup hnodup hindices).mpr fun id => ?_
    rw [hall id, List.mem_map]
    constructor
    · intro hid
      exact ⟨id.index, List.mem_range.mpr hid, rfl⟩
    · rintro ⟨index, hindex, rfl⟩
      exact List.mem_range.mp hindex
  have hkinds : ((List.range tree.size).map DeclId.mk).map
      (fun id => (tree.declaration id).kind) = tree.kinds := by
    refine List.ext_getElem (by simp [kinds, size]) fun index hindex _ => ?_
    have hlt : index < tree.declarations.size := by simpa [size] using hindex
    simp [kinds, declaration, get?, hlt]
  exact hkinds ▸ hids.map _

namespace Statistics

variable {forest : MergedForest}

theorem count_ofForest (mismatches : Nat) (cache : CacheCounts) (output : Output) (kind : Kind) :
    (ofForest forest mismatches cache).count output kind = (kindsOf forest output).count kind := by
  cases output <;> rfl

theorem total_ofForest (mismatches : Nat) (cache : CacheCounts) (output : Output) :
    (ofForest forest mismatches cache).total output = (kindsOf forest output).length := by
  cases output <;> rfl

private theorem countedAs_common (node : MergedNode) :
    decide (node.countedAs = .common) = node.isCommon := by
  rw [MergedNode.countedAs]
  cases node.isCommon <;> cases node.payloads.first.isSome <;> rfl

/-- What is not shared counts for the side that has it. -/
private theorem countedAs_side {node : MergedNode} (hsided : node.Sided) {side : Output}
    (hside : side ≠ .common) :
    decide (node.countedAs = side) = (!node.isCommon && (node.payloads.get side).isSome) := by
  have hsource := hsided.source
  rw [MergedNode.countedAs, hsided.common]
  cases side with
  | common => exact absurd rfl hside
  | first =>
    show _ = (_ && node.payloads.first.isSome)
    revert hsource
    cases node.payloads.first.isSome <;> cases node.payloads.second.isSome <;> decide
  | second =>
    show _ = (_ && node.payloads.second.isSome)
    revert hsource
    cases node.payloads.first.isSome <;> cases node.payloads.second.isSome <;> decide

variable (hsided : ∀ node ∈ forest.nodes, node.Sided)
include hsided

/-- What is shared and what only one side has makes up the side. -/
theorem kindsOf_perm {side : Output} (hside : side ≠ .common) :
    (kindsOf forest .common ++ kindsOf forest side).Perm
      ((forest.nodes.filter fun node => (node.payloads.get side).isSome).filterMap (·.kind?)) := by
  have hcommon : forest.nodes.filter (fun node => node.countedAs = .common) =
      (forest.nodes.filter fun node => (node.payloads.get side).isSome).filter (·.isCommon) := by
    rw [List.filter_filter]
    refine List.filter_congr fun node hnode => ?_
    rw [countedAs_common]
    cases hshared : node.isCommon with
    | false => rfl
    | true =>
      obtain ⟨first, second, hfirst, hsecond⟩ := (hsided node hnode).both hshared
      cases side with
      | common => exact absurd rfl hside
      | first => rw [PerOutput.get, hfirst]; rfl
      | second => rw [PerOutput.get, hsecond]; rfl
  have halone : forest.nodes.filter (fun node => node.countedAs = side) =
      (forest.nodes.filter fun node => (node.payloads.get side).isSome).filter (!·.isCommon) := by
    rw [List.filter_filter]
    exact List.filter_congr fun node hnode => countedAs_side (hsided node hnode) hside
  rw [kindsOf, kindsOf, hcommon, halone, ← List.filterMap_append]
  exact (List.filter_append_perm _ _).filterMap _

/-- Every node counts. -/
private theorem length_kinds {nodes : List MergedNode} (hnodes : nodes ⊆ forest.nodes) :
    (nodes.filterMap (·.kind?)).length = nodes.length := by
  rw [List.length_filterMap_eq_countP]
  refine List.countP_eq_length.mpr fun node hnode => ?_
  obtain ⟨kind, hkind⟩ := (hsided node (hnodes hnode)).exists_kind?
  rw [hkind]
  rfl

theorem length_kindsOf_common : (kindsOf forest .common).length =
    (forest.nodes.filter fun node => (node.payloads.get .common).isSome).length := by
  rw [kindsOf, length_kinds hsided List.filter_sublist.subset]
  refine congrArg List.length (List.filter_congr fun node _ => ?_)
  exact countedAs_common node

theorem length_kindsOf_side {side : Output} (hside : side ≠ .common) :
    (kindsOf forest .common).length + (kindsOf forest side).length =
      (forest.nodes.filter fun node => (node.payloads.get side).isSome).length := by
  rw [← List.length_append, (kindsOf_perm hsided hside).length_eq,
    length_kinds hsided List.filter_sublist.subset]

end Statistics

/-- Whether a node is shared and marked in the outputs. -/
def Seat.isMarked (seat : Seat) : Bool :=
  seat.node.isCommon && seat.node.kind?.any (·.isMarked)

/-- The declarations of a node in the three outputs bear one qualified name. Those of the sides are
of one kind, and that of the common output is the class, function or property that they share: for
two aliases it is a class. -/
def Seat.Matches (seat : Seat) (trees : OutputTrees) : Prop :=
  ∃ a c b first common second, seat.places = ⟨some a, some c, some b⟩ ∧
    trees.first.get? a = some first ∧ trees.common.get? c = some common ∧
    trees.second.get? b = some second ∧ first.qualifiedName = common.qualifiedName ∧
    second.qualifiedName = common.qualifiedName ∧ first.kind = second.kind ∧
    common.kind = first.kind.common ∧ common.kind ∈ [Kind.classType, .function, .property]

namespace MergedNode.Sided

variable {node : MergedNode} {output : Output} {data : Data}

private theorem isMarked_data (hsided : node.Sided) (hdata : node.payloads.get output = some data) :
    node.kind?.any (·.isMarked) = data.kind.isMarked := by
  by_cases hside : output = .common
  · subst hside
    have hcommon : node.payloads.common = some data := hdata
    obtain ⟨first, second, hfirst, -⟩ := hsided.both (by rw [isCommon, hcommon]; rfl)
    rw [(hsided.shared first data hfirst hcommon).2, Kind.isMarked_common,
      hsided.kind?_side Output.noConfusion (show node.payloads.get .first = _ from hfirst)]
    rfl
  · rw [hsided.kind?_side hside hdata]
    rfl

/-- Data plays the role of its output when the node is shared and marked, and is plain otherwise. -/
private theorem expectationOf_data (hsided : node.Sided)
    (hdata : node.payloads.get output = some data) : expectationOf node.isCommon output data.kind =
      if node.isCommon && node.kind?.any (·.isMarked) then output.role else .plain := by
  rw [hsided.isMarked_data hdata]
  cases hcommon : node.isCommon with
  | true => exact expectationOf_shared output data.kind
  | false =>
    have hside : output ≠ .common := by
      rintro rfl
      rw [isCommon, show node.payloads.common = some data from hdata] at hcommon
      cases hcommon
    exact expectationOf_alone hside data.kind

end MergedNode.Sided

namespace MergedForest.Seated

variable {forest : MergedForest} {trees : OutputTrees} {seats : List Seat}
  (hseated : forest.Seated trees seats)
include hseated

theorem node_mem {seat : Seat} (hseat : seat ∈ seats) : seat.node ∈ forest.nodes :=
  hseated.nodes ▸ List.mem_map_of_mem hseat

/-- Every place of an output has a declaration with the data of its node. -/
theorem exists_data {seat : Seat} (hseat : seat ∈ seats) {output : Output} {id : DeclId}
    (hid : seat.places.get output = some id) : ∃ payload declaration,
      seat.node.payloads.get output = some payload ∧
      (trees.get output).get? id = some declaration ∧
      declaration.data = { payload.mapRefs (trees.get output).linkRef with
        expectation := expectationOf seat.node.isCommon output payload.kind } := by
  have hsome := hseated.placed seat hseat output
  rw [hid, Option.isSome_some, eq_comm, Option.isSome_iff_exists] at hsome
  obtain ⟨payload, hpayload⟩ := hsome
  obtain ⟨declaration, hget, hdata⟩ := hseated.data seat hseat output payload id hpayload hid
  exact ⟨payload, declaration, hpayload, hget, hdata⟩

variable (hsided : ∀ node ∈ forest.nodes, node.Sided)
include hsided

/-- A declaration plays the role of its output when its node is marked, and is plain otherwise. -/
private theorem expectation_eq {seat : Seat} (hseat : seat ∈ seats) {output : Output} {id : DeclId}
    (hid : seat.places.get output = some id) {declaration : Declaration}
    (hget : (trees.get output).get? id = some declaration) :
    declaration.data.expectation = if seat.isMarked then output.role else .plain := by
  obtain ⟨payload, found, hpayload, hfound, hdata⟩ := hseated.exists_data hseat hid
  cases hget.symm.trans hfound
  rw [hdata]
  exact (hsided _ (hseated.node_mem hseat)).expectationOf_data hpayload

/-- The places of the marked nodes are where declarations play the role of their output. -/
theorem mem_marked_iff (output : Output) (id : DeclId) :
    id ∈ (seats.filter Seat.isMarked).filterMap (·.places.get output) ↔ ∃ declaration,
      (trees.get output).get? id = some declaration ∧ declaration.data.expectation = output.role := by
  constructor
  · intro hid
    obtain ⟨seat, hseat, hid⟩ := List.mem_filterMap.mp hid
    obtain ⟨hseat, hmarked⟩ := List.mem_filter.mp hseat
    obtain ⟨payload, declaration, -, hget, -⟩ := hseated.exists_data hseat hid
    refine ⟨declaration, hget, ?_⟩
    rw [expectation_eq hseated hsided hseat hid hget, if_pos hmarked]
  · rintro ⟨declaration, hget, hrole⟩
    obtain ⟨seat, hseat, hid⟩ :=
      List.mem_filterMap.mp ((hseated.complete output id).mpr (Tree.lt_size_of_get? hget))
    rw [expectation_eq hseated hsided hseat hid hget] at hrole
    have hmarked : seat.isMarked = true := by
      by_contra hplain
      rw [if_neg hplain] at hrole
      exact output.role_ne_plain hrole.symm
    exact List.mem_filterMap.mpr ⟨seat, List.mem_filter.mpr ⟨hseat, hmarked⟩, hid⟩

/-- Nothing plays another role than that of its output. -/
theorem expectation_cases {output : Output} {id : DeclId} {declaration : Declaration}
    (hget : (trees.get output).get? id = some declaration) :
    declaration.data.expectation = output.role ∨ declaration.data.expectation = .plain := by
  obtain ⟨seat, hseat, hid⟩ :=
    List.mem_filterMap.mp ((hseated.complete output id).mpr (Tree.lt_size_of_get? hget))
  rw [expectation_eq hseated hsided hseat hid hget]
  cases seat.isMarked with
  | true => exact .inl rfl
  | false => exact .inr rfl

/-- The three declarations of a marked node match if the names of its sides agree. -/
theorem matches_of_isMarked {seat : Seat} (hseat : seat ∈ seats) (hmarked : seat.isMarked = true)
    (hnames : ∀ first second, seat.node.payloads.first = some first →
      seat.node.payloads.second = some second → first.kind.isMarked = true →
        first.qualifiedName = second.qualifiedName) : seat.Matches trees := by
  have hnode := hsided _ (hseated.node_mem hseat)
  obtain ⟨hcommon, hkind⟩ := Bool.and_eq_true_iff.mp hmarked
  obtain ⟨first, second, hfirst, hsecond⟩ := hnode.both hcommon
  obtain ⟨common, hshared⟩ := Option.isSome_iff_exists.mp hcommon
  have hplace (output : Output) {payload : Data}
      (hpayload : seat.node.payloads.get output = some payload) : ∃ id declaration,
        seat.places.get output = some id ∧ (trees.get output).get? id = some declaration ∧
        declaration.qualifiedName = payload.qualifiedName ∧ declaration.kind = payload.kind := by
    have hsome := hseated.placed seat hseat output
    rw [hpayload, Option.isSome_some, Option.isSome_iff_exists] at hsome
    obtain ⟨id, hid⟩ := hsome
    obtain ⟨declaration, hget, hdata⟩ := hseated.data seat hseat output payload id hpayload hid
    refine ⟨id, declaration, hid, hget, ?_, ?_⟩
    · rw [Declaration.qualifiedName, hdata]
      rfl
    · rw [Declaration.kind, hdata]
      exact payload.kind_mapRefs _
  obtain ⟨a, declarationA, ha, hgetA, hnameA, hkindA⟩ := hplace .first hfirst
  obtain ⟨c, declarationC, hc, hgetC, hnameC, hkindC⟩ := hplace .common hshared
  obtain ⟨b, declarationB, hb, hgetB, hnameB, hkindB⟩ := hplace .second hsecond
  obtain ⟨hname, hkinds⟩ := hnode.shared first common hfirst hshared
  rw [hnode.isMarked_data (show seat.node.payloads.get .first = _ from hfirst)] at hkind
  refine ⟨a, c, b, declarationA, declarationC, declarationB, ?_, hgetA, hgetC, hgetB, ?_, ?_, ?_, ?_,
    ?_⟩
  · rw [← ha, ← hc, ← hb]
    rfl
  · rw [hnameA, hnameC, hname]
  · rw [hnameB, hnameC, hname, hnames first second hfirst hsecond hkind]
  · rw [hkindA, hkindB, hnode.kinds first second hfirst hsecond]
  · rw [hkindC, hkindA, hkinds]
  · rw [hkindC, hkinds]
    exact Kind.common_of_isMarked hkind

end MergedForest.Seated

namespace Sides

variable {sides : Sides} {forest : MergedForest} {outcome : Outcome}

section Traces

variable {origins : List Origin}

/-- The nodes with data of a side have the kinds of the declarations of its tree. -/
private theorem Traces.kinds_of_side
    (htraces : sides.Traces (fun a _ common => common.SharedOf sides.first a) origins forest)
    (hfirst : sides.first.Regular) (hsecond : sides.second.Regular)
    (hsided : ∀ node ∈ forest.nodes, node.Sided) {side : Output} (hside : side ≠ .common) :
    ((forest.nodes.filter fun node => (node.payloads.get side).isSome).filterMap (·.kind?)).Perm
      (sides.source side).kinds := by
  have haccounts := htraces.accounts hfirst.mergeable.rooted hsecond.mergeable.rooted
  have hregular : (sides.source side).Regular := of_both hfirst hsecond side
  have hids := haccounts.sources side
  have hpayload (origin : Origin) : (origin.node sides).payloads.get side =
      (origin.source? side).bind (sides.source side).detached? := by
    rw [Origin.node_payloads]
    cases side with
    | common => exact absurd rfl hside
    | first | second => rfl
  have hknown (id : DeclId) (hreachable : (sides.source side).Reachable id) :
      ∃ declaration, (sides.source side).get? id = some declaration :=
    hregular.mergeable.rooted.reachable_known hreachable
  have hkinds : (forest.nodes.filter fun node => (node.payloads.get side).isSome).filterMap (·.kind?) =
      ((walkAll origins).filterMap (·.source? side)).map
        fun id => ((sides.source side).declaration id).kind := by
    have hnodes := Origin.forest_nodes htraces.nodes
    rw [List.filterMap_filter, hnodes, List.filterMap_map, List.map_filterMap]
    refine List.filterMap_congr fun origin horigin => ?_
    rw [Function.comp_apply, hpayload origin]
    cases hid : origin.source? side with
    | none => rfl
    | some id =>
      obtain ⟨declaration, hget⟩ :=
        hknown id ((hids.2 id).mp (List.mem_filterMap.mpr ⟨origin, horigin, hid⟩))
      have hdata := hpayload origin
      rw [hid, Option.bind_some, Tree.detached?, hget, Option.map_some] at hdata
      have hnode := hsided _ (hnodes ▸ List.mem_map_of_mem horigin)
      rw [Option.bind_some, Tree.detached?, hget, Option.map_some, Option.isSome_some, if_pos rfl,
        hnode.kind?_side hside hdata, Data.kind_mapRefs, Option.map_some,
        Tree.declaration_of_get? hget]
      rfl
  rw [hkinds]
  refine Tree.kinds_perm hids.1 fun id => (hids.2 id).trans ⟨fun hreachable => ?_, fun hlt => ?_⟩
  · obtain ⟨declaration, hget⟩ := hknown id hreachable
    exact Tree.lt_size_of_get? hget
  · exact hregular.reachable id _ (Array.getElem?_eq_getElem hlt)

end Traces

/-- The outputs of a run match what is expected with what is actual, and the statistics count it.
The places of the nodes that are shared and marked are exactly the expected declarations of the
common output and the actual ones of each side, none of them twice, and the three places of a node
match. Nothing else is marked, whatever the marks in the two trees are. For every kind, the shared
nodes and those of a side are as many as the declarations of its tree; in total they are as many as
its output has declarations, and the shared ones as many as the common output has. -/
theorem outcome_accounts (sides : Sides) (hconsistent : sides.Consistent) {firsts seconds : List Source}
    (hfirst : Tree.ofSources firsts = .ok sides.first)
    (hsecond : Tree.ofSources seconds = .ok sides.second) {forest : MergedForest} {outcome : Outcome}
    (hproduces : sides.Produces forest outcome) :
    (∃ seats, forest.Seated outcome.trees seats ∧
      (∀ output, ((seats.filter Seat.isMarked).filterMap (·.places.get output)).Nodup ∧
        ∀ id, id ∈ (seats.filter Seat.isMarked).filterMap (·.places.get output) ↔ ∃ declaration,
          (outcome.trees.get output).get? id = some declaration ∧
            declaration.data.expectation = output.role) ∧
      ∀ seat ∈ seats.filter Seat.isMarked, seat.Matches outcome.trees) ∧
    (∀ output id declaration, (outcome.trees.get output).get? id = some declaration →
      declaration.data.expectation = output.role ∨ declaration.data.expectation = .plain) ∧
    (∀ kind, outcome.statistics.count .common kind + outcome.statistics.count .first kind =
        sides.first.kinds.count kind ∧
      outcome.statistics.count .common kind + outcome.statistics.count .second kind =
        sides.second.kinds.count kind) ∧
    outcome.statistics.total .common = outcome.trees.common.size ∧
    outcome.trees.first.size = outcome.statistics.total .common + outcome.statistics.total .first ∧
    outcome.trees.second.size =
      outcome.statistics.total .common + outcome.statistics.total .second := by
  have hregularA := Tree.regular_of_ofSources hfirst
  have hregularB := Tree.regular_of_ofSources hsecond
  obtain ⟨origins, htraces⟩ :=
    hproduces.merges.traces (mergeable_of_regular hconsistent hregularA hregularB)
  have hsided := htraces.sided hregularA.mergeable.rooted hregularB.mergeable.rooted
  obtain ⟨seats, hseated⟩ := hproduces.seated
  obtain ⟨cache, hcounted⟩ := hproduces.counted
  have hcount (side : Output) (hside : side ≠ .common) (kind : Kind) :
      outcome.statistics.count .common kind + outcome.statistics.count side kind =
        (sides.source side).kinds.count kind := by
    rw [hcounted, Statistics.count_ofForest, Statistics.count_ofForest, ← List.count_append]
    exact ((Statistics.kindsOf_perm hsided hside).trans
      (htraces.kinds_of_side hregularA hregularB hsided hside)).count_eq kind
  have htotal (side : Output) (hside : side ≠ .common) : (outcome.trees.get side).size =
      outcome.statistics.total .common + outcome.statistics.total side := by
    rw [hcounted, Statistics.total_ofForest, Statistics.total_ofForest, hseated.size_eq side,
      Statistics.length_kindsOf_side hsided hside]
  refine ⟨⟨seats, hseated, fun output => ⟨?_, hseated.mem_marked_iff hsided output⟩,
    fun seat hseat => ?_⟩, fun output id declaration => hseated.expectation_cases hsided,
    fun kind => ⟨hcount .first Output.noConfusion kind, hcount .second Output.noConfusion kind⟩, ?_,
    htotal .first Output.noConfusion, htotal .second Output.noConfusion⟩
  · exact (hseated.distinct output).sublist (List.filter_sublist.filterMap _)
  · obtain ⟨hseat, hmarked⟩ := List.mem_filter.mp hseat
    obtain ⟨hcommon, -⟩ := Bool.and_eq_true_iff.mp hmarked
    refine hseated.matches_of_isMarked hsided hseat hmarked fun first second ha hb => ?_
    exact hproduces.names_agree hconsistent hregularA hregularB (hseated.node_mem hseat) hcommon ha hb
  · rw [hcounted, Statistics.total_ofForest, Statistics.length_kindsOf_common hsided,
      ← hseated.size_eq .common]
    rfl

/-- A package with an alias for a class outside, and a class that is marked already. -/
private def clock (className : String) (mark : Expectation) : Source :=
  .mk ⟨"m"⟩ .everyone .final .plain (.module ⟨none⟩)
    [.mk ⟨"p"⟩ .everyone .final .plain .package
      [.mk ⟨"Instant"⟩ .everyone .final .plain (.typeAlias ⟨
        .simple ⟨⟨some ⟨"kotlin.Long"⟩, none⟩, [], false, false, none⟩, none, []⟩) [],
      .mk ⟨className⟩ .everyone .final mark (.classType (.ofKind .ordinary)) []]]

private def clockSides : Sides :=
  let read (className : String) (mark : Expectation) :=
    (Tree.ofSources [clock className mark]).toOption.getD .empty
  ofTrees (read "Clock" .expect) (read "Timer" .actual) ⟨["kotlin"], [], false, 100, 1000000⟩

/-- Of two packages with one alias and two classes, the expected class faces the alias on both
sides, and the marks on the classes are gone. -/
theorem clock_accounts : ∃ forest outcome, clockSides.Produces forest outcome ∧
    outcome.trees.common.size = 3 ∧ outcome.trees.first.size = 4 ∧
    (∃ seats, forest.Seated outcome.trees seats ∧
      ∀ seat ∈ seats.filter Seat.isMarked, seat.Matches outcome.trees) ∧
    outcome.statistics.count .common .typeAlias + outcome.statistics.count .first .typeAlias =
      clockSides.first.kinds.count .typeAlias := by
  have hread : Tree.ofSources [clock "Clock" .expect] = .ok clockSides.first ∧
      Tree.ofSources [clock "Timer" .actual] = .ok clockSides.second := by
    decide +kernel
  have hsizes : clockSides.run.toOption.map
      (fun outcome => (outcome.trees.common.size, outcome.trees.first.size)) = some (3, 4) := by
    decide +kernel
  obtain ⟨outcome, hrun, hsizes⟩ := Option.map_eq_some_iff.mp hsizes
  obtain ⟨forest, hproduces⟩ := produces_of_run (Except.toOption_eq_some.mp hrun)
  obtain ⟨hcommon, hfirst⟩ := Prod.mk.inj hsizes
  obtain ⟨⟨seats, hseated, -, hmatches⟩, -, hcounts, -⟩ :=
    outcome_accounts clockSides Bool.noConfusion hread.1 hread.2 hproduces
  exact ⟨forest, outcome, hproduces, hcommon, hfirst, ⟨seats, hseated, hmatches⟩, (hcounts _).1⟩

end Sides

end Concord
