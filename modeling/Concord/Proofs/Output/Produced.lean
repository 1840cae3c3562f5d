import Concord.Proofs.Faithfulness
import Concord.Proofs.Reflexivity
import Concord.Proofs.Sharing

namespace Concord

/-- Whether the declarations of a kind are marked in the outputs. -/
def Kind.isMarked : Kind → Bool
  | .classType | .typeAlias | .function | .property => true
  | .module | .package | .value => false

/-- The role of what is shared in an output. -/
def Output.role : Output → Expectation
  | .common => .expect
  | .first | .second => .actual

theorem Output.role_ne_plain (output : Output) : output.role ≠ .plain := by
  cases output <;> decide

/-- What is shared plays the role of the output, unless its kind is not marked. -/
theorem expectationOf_shared (output : Output) (kind : Kind) :
    expectationOf true output kind = if kind.isMarked then output.role else .plain := by
  cases output <;> cases kind <;> rfl

/-- What only one side has is plain in the output of the side. -/
theorem expectationOf_alone {output : Output} (hside : output ≠ .common) (kind : Kind) :
    expectationOf false output kind = .plain := by
  cases output with
  | common => exact absurd rfl hside
  | first | second => cases kind <;> rfl

/-- A node of a forest with its places in the outputs. -/
structure Seat where
  node : MergedNode
  places : Places

/-- The nodes of a forest, in order, sit at their places in some trees. -/
structure MergedForest.Seated (forest : MergedForest) (trees : OutputTrees) (seats : List Seat) :
    Prop where
  nodes : seats.map Seat.node = forest.nodes
  /-- A node has a place in the outputs in which it has data. -/
  placed : ∀ seat ∈ seats, ∀ output,
    (seat.places.get output).isSome = (seat.node.payloads.get output).isSome
  /-- No two nodes have the same place. -/
  distinct : ∀ output, (seats.filterMap (·.places.get output)).Nodup
  /-- Every declaration of an output is the place of a node. -/
  complete : ∀ output id,
    id ∈ seats.filterMap (·.places.get output) ↔ id.index < (trees.get output).size
  /-- A declaration holds the data of its node, linked within the output and marked for it. -/
  data : ∀ seat ∈ seats, ∀ output payload id, seat.node.payloads.get output = some payload →
    seat.places.get output = some id → ∃ declaration,
      (trees.get output).get? id = some declaration ∧
      declaration.data = { payload.mapRefs (trees.get output).linkRef with
        expectation := expectationOf seat.node.isCommon output payload.kind }

/-- Nodes that stand in every output have seats. -/
private theorem exists_seats {nodes : List MergedNode} : ∀ {standings : Output → List Standing},
    (∀ output, (standings output).map Standing.node = nodes) →
    ∃ seats : List Seat, seats.map Seat.node = nodes ∧ ∀ output,
      seats.map (fun seat => (seat.node, seat.places.get output)) =
        (standings output).map fun standing => (standing.node, standing.place) := by
  induction nodes with
  | nil =>
    intro standings hnodes
    refine ⟨[], rfl, fun output => ?_⟩
    rw [List.map_eq_nil_iff.mp (hnodes output)]
    rfl
  | cons node nodes ih =>
    intro standings hnodes
    choose head rest hsplit hhead hrest using fun output => List.map_eq_cons_iff.mp (hnodes output)
    obtain ⟨seats, hseats, hplaces⟩ := ih hrest
    refine ⟨⟨node, ⟨(head .first).place, (head .common).place, (head .second).place⟩⟩ :: seats, ?_,
      fun output => ?_⟩
    · rw [List.map_cons, hseats]
    · rw [hsplit output, List.map_cons, List.map_cons, hplaces output, hhead output]
      cases output <;> rfl

namespace Placement

variable {placement : Placement} {options : CompiledOptions} {forest : MergedForest}

/-- Filling seats every node of the forest in the outputs. -/
theorem fill_seated (hplacement : ofForest forest = .ok placement) {trees : OutputTrees}
    (hfill : placement.fill options forest = .ok trees) : ∃ seats, forest.Seated trees seats := by
  choose standings hstandings hholds using fun output => fill_holds hplacement hfill output
  have hnodes (output : Output) :
      (Standing.walkAll (standings output)).map Standing.node = forest.nodes := by
    rw [← Standing.walkAll_nodes, hstandings output, MergedForest.nodes]
  obtain ⟨seats, hseats, hplaces⟩ := exists_seats hnodes
  have hsame (output : Output) : seats.filterMap (·.places.get output) =
      (Standing.walkAll (standings output)).filterMap Standing.place := by
    have hsnd := congrArg (List.filterMap Prod.snd) (hplaces output)
    rwa [List.filterMap_map, List.filterMap_map] at hsnd
  have hstands (seat : Seat) (hseat : seat ∈ seats) (output : Output) :
      ∃ standing ∈ Standing.walkAll (standings output), standing.node = seat.node ∧
        standing.place = seat.places.get output := by
    have hmem := List.mem_map_of_mem (f := fun seat : Seat => (seat.node, seat.places.get output)) hseat
    rw [hplaces output] at hmem
    obtain ⟨standing, hstanding, heq⟩ := List.mem_map.mp hmem
    exact ⟨standing, hstanding, (Prod.mk.inj heq).1, (Prod.mk.inj heq).2⟩
  refine ⟨seats, hseats, fun seat hseat output => ?_, fun output => ?_, fun output id => ?_,
    fun seat hseat output payload id hpayload hid => ?_⟩
  · obtain ⟨standing, hstanding, hnode, hplace⟩ := hstands seat hseat output
    rw [← hplace, ← hnode, Standing.payloads_node]
    exact (hholds output).placed standing hstanding
  · rw [hsame output]
    exact (hholds output).distinct
  · rw [hsame output]
    exact (hholds output).complete id
  · obtain ⟨standing, hstanding, hnode, hplace⟩ := hstands seat hseat output
    rw [← hnode, Standing.payloads_node] at hpayload
    have hcontent := (hholds output).content standing hstanding payload id hpayload
      (hplace.trans hid)
    obtain ⟨declaration, hget, hdata, -⟩ := Tree.content?_eq_some.mp hcontent
    refine ⟨declaration, hget, ?_⟩
    rw [hdata, ← hnode, MergedNode.isCommon, Standing.payloads_node]

end Placement

namespace MergedForest.Seated

variable {forest : MergedForest} {trees : OutputTrees} {seats : List Seat}

/-- An output is as large as the forest has nodes with data in it. -/
theorem size_eq (hseated : forest.Seated trees seats) (output : Output) :
    (trees.get output).size =
      (forest.nodes.filter fun node => (node.payloads.get output).isSome).length := by
  rw [← Tree.length_eq_size (hseated.distinct output) (hseated.complete output), ← hseated.nodes,
    List.filter_map, List.length_map, List.length_filterMap_eq_countP, List.countP_eq_length_filter]
  refine congrArg List.length (List.filter_congr fun seat hseat => ?_)
  exact hseated.placed seat hseat output

end MergedForest.Seated

open Origin (walkAll)

theorem Tree.detached?_attributes {tree : Tree} {id : DeclId} {data : Data}
    (hdata : tree.detached? id = some data) :
    data.qualifiedName = (tree.declaration id).qualifiedName ∧
      data.kind = (tree.declaration id).kind := by
  obtain ⟨declaration, hget, rfl⟩ := Option.map_eq_some_iff.mp hdata
  rw [Tree.declaration_of_get? hget]
  exact ⟨rfl, Data.kind_mapRefs _ _⟩

/-- What the data of a node is like. -/
structure MergedNode.Sided (node : MergedNode) : Prop where
  source : node.payloads.first.isSome = true ∨ node.payloads.second.isSome = true
  common : node.isCommon = (node.payloads.first.isSome && node.payloads.second.isSome)
  kinds : ∀ first second, node.payloads.first = some first → node.payloads.second = some second →
    first.kind = second.kind
  shared : ∀ first common, node.payloads.first = some first → node.payloads.common = some common →
    common.qualifiedName = first.qualifiedName ∧ common.kind = first.kind.common

namespace MergedNode.Sided

variable {node : MergedNode} {data : Data}

/-- The kind of a node is that of its data on both sides. -/
theorem kind?_side (hsided : node.Sided) {side : Output} (hside : side ≠ .common)
    (hdata : node.payloads.get side = some data) : node.kind? = some data.kind := by
  rw [kind?, primary?]
  cases side with
  | common => exact absurd rfl hside
  | first =>
    rw [show node.payloads.first = some data from hdata]
    rfl
  | second =>
    have hsecond : node.payloads.second = some data := hdata
    cases hfirst : node.payloads.first with
    | none =>
      rw [hsecond]
      rfl
    | some first =>
      rw [← hsided.kinds first data hfirst hsecond]
      rfl

/-- A node that is shared has data on both sides. -/
theorem both (hsided : node.Sided) (hcommon : node.isCommon = true) :
    ∃ first second, node.payloads.first = some first ∧ node.payloads.second = some second := by
  rw [hsided.common, Bool.and_eq_true, Option.isSome_iff_exists, Option.isSome_iff_exists] at hcommon
  obtain ⟨⟨first, hfirst⟩, second, hsecond⟩ := hcommon
  exact ⟨first, second, hfirst, hsecond⟩

theorem exists_kind? (hsided : node.Sided) : ∃ kind, node.kind? = some kind := by
  obtain hsome | hsome := hsided.source
  · obtain ⟨first, hfirst⟩ := Option.isSome_iff_exists.mp hsome
    exact ⟨_, hsided.kind?_side Output.noConfusion (show node.payloads.get .first = _ from hfirst)⟩
  · obtain ⟨second, hsecond⟩ := Option.isSome_iff_exists.mp hsome
    exact ⟨_, hsided.kind?_side Output.noConfusion (show node.payloads.get .second = _ from hsecond)⟩

end MergedNode.Sided

namespace Sides

variable {sides : Sides} {forest : MergedForest}

section Traces

variable {origins : List Origin}

/-- The nodes of a merge hold what the sides declare. -/
theorem Traces.sided
    (htraces : sides.Traces (fun a _ common => common.SharedOf sides.first a) origins forest)
    (hfirst : sides.first.Rooted) (hsecond : sides.second.Rooted) :
    ∀ node ∈ forest.nodes, node.Sided := by
  have haccounts := htraces.accounts hfirst hsecond
  intro node hnode
  rw [Origin.forest_nodes htraces.nodes] at hnode
  obtain ⟨origin, horigin, rfl⟩ := List.mem_map.mp hnode
  have hsound := htraces.sound origin horigin
  obtain ⟨hfirsts, hseconds, hcommon⟩ := haccounts.payloads origin horigin
  have hsomeA := congrArg Option.isSome hfirsts
  have hsomeB := congrArg Option.isSome hseconds
  simp only [Option.isSome_map] at hsomeA hsomeB
  refine ⟨?_, ?_, fun first second ha hb => ?_, fun first common ha hc => ?_⟩
  · rw [← hsomeA, ← hsomeB]
    exact hsound.source
  · rw [hcommon, hsomeA, hsomeB]
  · rw [Origin.node_payloads] at ha hb
    obtain ⟨a, ha, hdataA⟩ := Option.bind_eq_some_iff.mp ha
    obtain ⟨b, hb, hdataB⟩ := Option.bind_eq_some_iff.mp hb
    rw [(Tree.detached?_attributes hdataA).2, (Tree.detached?_attributes hdataB).2]
    exact hsound.kinds a b ha hb
  · rw [Origin.node_payloads] at ha hc
    obtain ⟨a, ha, hdata⟩ := Option.bind_eq_some_iff.mp ha
    obtain ⟨hname, hkind⟩ := Tree.detached?_attributes hdata
    have hboth := hsound.common
    rw [show origin.common? = some common from hc, ha, Option.isSome_some, Option.isSome_some,
      Bool.true_and, eq_comm, Option.isSome_iff_exists] at hboth
    obtain ⟨b, hb⟩ := hboth
    obtain ⟨hnameC, hkindC, -⟩ := hsound.good a b common ha hb hc
    rw [hname, hkind]
    exact ⟨hnameC, hkindC⟩

end Traces

/-- An outcome of a run over some sides, and the forest that it is written from. -/
structure Produces (sides : Sides) (forest : MergedForest) (outcome : Outcome) : Prop where
  merged : ∃ after limitHits, sides.MergesTo .empty ⟨forest, outcome.rejections⟩ after limitHits
  written : ∃ placement, Placement.ofForest forest = .ok placement ∧
    placement.fill sides.options forest = .ok outcome.trees
  counted : ∃ cache, outcome.statistics = .ofForest forest outcome.rejections.length cache

/-- What is written after a merge is produced. -/
theorem MergesTo.produces {result : MergeResult} {after : Cache} {limitHits : Nat}
    (hmerges : sides.MergesTo .empty result after limitHits) {outcome : Outcome}
    (hwrite : sides.write result after.counts = .ok outcome) :
    sides.Produces result.forest outcome := by
  obtain ⟨placement, hplacement, htrees, hrejections, hstatistics⟩ := write_eq_ok.mp hwrite
  refine ⟨⟨after, limitHits, ?_⟩, ⟨placement, hplacement, htrees⟩, after.counts, ?_⟩
  · rwa [hrejections]
  · rw [hstatistics, hrejections]

/-- What a run in one session gives is produced. -/
theorem produces_of_run {outcome : Outcome} (hrun : sides.run = .ok outcome) :
    ∃ forest, sides.Produces forest outcome := by
  obtain ⟨⟨result, session⟩, hmerge, hwrite⟩ := Except.bind_eq_ok.mp hrun
  exact ⟨result.forest, MergesTo.produces (.session hmerge rfl rfl) hwrite⟩

namespace Produces

variable {outcome : Outcome} (hproduces : sides.Produces forest outcome)
include hproduces

theorem merges : sides.Merges forest := by
  obtain ⟨after, limitHits, hmerges⟩ := hproduces.merged
  exact ⟨_, _, _, _, hmerges⟩

theorem seated : ∃ seats, forest.Seated outcome.trees seats := by
  obtain ⟨placement, hplacement, hfill⟩ := hproduces.written
  exact Placement.fill_seated hplacement hfill

/-- Declarations that are shared and marked bear one qualified name. -/
theorem names_agree (hconsistent : sides.Consistent) (hfirst : sides.first.Regular)
    (hsecond : sides.second.Regular) {node : MergedNode} (hnode : node ∈ forest.nodes)
    (hcommon : node.isCommon = true) {first second : Data} (ha : node.payloads.first = some first)
    (hb : node.payloads.second = some second) (hmarked : first.kind.isMarked = true) :
    first.qualifiedName = second.qualifiedName := by
  have hmerges := hproduces.merges
  have hmerged := hproduces.merged
  obtain ⟨firstTree, secondTree, same, options⟩ := sides
  cases same with
  | true =>
    cases hconsistent rfl
    have hkept := Tree.keptBy_of_merges hfirst.mergeable hmerges
    obtain ⟨origins, hroots, -, hreflects⟩ := hkept
    rw [Origin.forest_nodes hroots] at hnode
    obtain ⟨origin, horigin, rfl⟩ := List.mem_map.mp hnode
    rw [Origin.node_payloads] at ha hb
    obtain hshared | halone | halone := hreflects origin horigin
    · exact congrArg Data.qualifiedName (Option.some.inj (ha.symm.trans hb))
    · cases hb
    · cases ha
  | false =>
    have hbuilt := And.intro hfirst.built hsecond.built
    have hagreed : (ofTrees firstTree secondTree options).SharesAgreed forest.roots := by
      obtain ⟨_, _, hmerges⟩ := hmerged
      cases hmerges with
      | session hmerge => exact sharesAgreed_of_merge hbuilt .empty hmerge
      | workers hschedule => exact sharesAgreed_of_schedule hbuilt .empty hschedule
    obtain ⟨origins, hroots, hagree⟩ := hagreed
    rw [Origin.forest_nodes hroots] at hnode
    obtain ⟨origin, horigin, rfl⟩ := List.mem_map.mp hnode
    obtain ⟨-, -, hagree⟩ := hagree origin horigin
    obtain ⟨a, b, hids, hagree⟩ := hagree hcommon
    obtain ⟨hidA, hidB⟩ := Prod.mk.inj hids
    rw [Origin.node_payloads] at ha hb
    simp only [hidA, hidB, Option.bind_some] at ha hb
    obtain ⟨hnameA, hkindA⟩ := Tree.detached?_attributes ha
    obtain ⟨hnameB, -⟩ := Tree.detached?_attributes hb
    have hnames := hagree.names
    rw [hkindA] at hmarked
    rw [hnameA, hnameB]
    simp only [ofTrees] at hnames hmarked
    cases hkind : (firstTree.declaration a).kind with
    | module | package | value =>
      rw [hkind] at hmarked
      cases hmarked
    | classType | typeAlias | function | property =>
      rw [hkind] at hnames
      exact hnames

end Produces

end Sides

end Concord
