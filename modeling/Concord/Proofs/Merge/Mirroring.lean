import Concord.Proofs.Comparison.Mirroring
import Concord.Proofs.Output.Marking

namespace Concord

open Origin (ids walk walkAll nodes)

/-- The trees list what the declarations of a node own in the order of the nodes below. -/
structure Origin.Listed (again : Sides) (p q : DeclId → DeclId) (origin : Origin) : Prop where
  first : ∀ a, origin.first? = some a →
    again.first.children (p a) = ((origin.children.map ids).filterMap (·.1)).map p
  second : ∀ b, origin.second? = some b →
    again.second.children (q b) = ((origin.children.map ids).filterMap (·.2)).map q

namespace Sides.Mirrors

variable {again sides : Sides} {p q : DeclId → DeclId} (hmirrors : again.Mirrors sides p q)
include hmirrors

/-- Siblings in the order of a merge are paired as they were. -/
theorem pairUp_again {as bs : List DeclId} :
    pairUp again.joins (as.map p) (((pairUp sides.joins as bs).filterMap (·.2)).map q) =
      (pairUp sides.joins as bs).map (Prod.map (Option.map p) (Option.map q)) := by
  rw [pairUp_map hmirrors.joins_eq, Concord.pairUp_again]

/-- What two declarations own is paired as it was, if it is listed in the order of the merge. -/
theorem pairedBelow_again {a b : DeclId}
    (hfirst : again.first.children (p a) = (sides.first.children a).map p)
    (hsecond : again.second.children (q b) = ((sides.pairedBelow a b).filterMap (·.2)).map q) :
    again.pairedBelow (p a) (q b) =
      (sides.pairedBelow a b).map (Prod.map (Option.map p) (Option.map q)) := by
  rw [pairedBelow, hfirst, hsecond, hmirrors.first.kind_eq]
  simp only [pairedBelow]
  split
  · rw [pairByPlace_seconds, pairByPlace_map hmirrors.matched_eq]
  · exact hmirrors.pairUp_again

private theorem node_unmarked {a b : Option DeclId} {common common' : Option Data}
    {children children' : List Origin} (hcommon : common'.map Data.unmarked = common.map Data.unmarked)
    (hchildren : MergedNode.unmarkedAll (nodes again children') =
      MergedNode.unmarkedAll (nodes sides children)) :
    ((Origin.mk (a.map p) (b.map q) common' children').node again).unmarked =
      ((Origin.mk a b common children).node sides).unmarked := by
  rw [Origin.node, Origin.node, MergedNode.unmarked, MergedNode.unmarked, hchildren]
  have hfirst : ((a.map p).bind again.first.detached?).map Data.unmarked =
      (a.bind sides.first.detached?).map Data.unmarked := by
    cases a with
    | none => rw [Option.map_none, Option.bind_none, Option.bind_none]
    | some a =>
      rw [Option.map_some, Option.bind_some, Option.bind_some]
      exact hmirrors.first.detached?_unmarked a
  have hsecond : ((b.map q).bind again.second.detached?).map Data.unmarked =
      (b.bind sides.second.detached?).map Data.unmarked := by
    cases b with
    | none => rw [Option.map_none, Option.bind_none, Option.bind_none]
    | some b =>
      rw [Option.map_some, Option.bind_some, Option.bind_some]
      exact hmirrors.second.detached?_unmarked b
  rw [PerOutput.map, PerOutput.map, hfirst, hsecond, hcommon]

omit hmirrors

mutual
private theorem node_again (hmirrors : again.Mirrors sides p q) : ∀ (origin origin' : Origin),
    ids origin' = (ids origin).map (Option.map p) (Option.map q) →
    (∀ below ∈ walk origin, below.Exact sides ∧ below.Listed again p q) →
    (∀ below ∈ walk origin', below.Exact again) →
    (origin'.node again).unmarked = (origin.node sides).unmarked
  | .mk first second common children, .mk first' second' common' children', hids, hexact, hexact' => by
    rw [walk] at hexact hexact'
    obtain ⟨⟨hself, hlisted⟩, hbelow⟩ := List.forall_mem_cons.mp hexact
    obtain ⟨hself', hbelow'⟩ := List.forall_mem_cons.mp hexact'
    obtain ⟨rfl, rfl⟩ : first' = first.map p ∧ second' = second.map q := Prod.mk.inj hids
    have hfirsts := hlisted.first
    have hseconds := hlisted.second
    cases hself with
    | @first a children hown =>
      cases hself' with
      | first hown' =>
        have howned : again.first.children (p a) = (sides.first.children a).map p := by
          rw [hfirsts a rfl, Origin.children, hown, List.filterMap_map]
          exact congrArg (List.map p) List.filterMap_some
        refine hmirrors.node_unmarked rfl (nodes_again hmirrors children children' ?_ hbelow hbelow')
        rw [hown', hown, howned, List.map_map, List.map_map]
        rfl
    | @second b children hown =>
      cases hself' with
      | second hown' =>
        have howned : again.second.children (q b) = (sides.second.children b).map q := by
          rw [hseconds b rfl, Origin.children, hown, List.filterMap_map]
          exact congrArg (List.map q) List.filterMap_some
        refine hmirrors.node_unmarked rfl (nodes_again hmirrors children children' ?_ hbelow hbelow')
        rw [hown', hown, howned, List.map_map, List.map_map]
        rfl
    | @shared a b children hmatched hown =>
      cases hself' with
      | shared hmatched' hown' =>
        have hownedA : again.first.children (p a) = (sides.first.children a).map p := by
          rw [hfirsts a rfl, Origin.children, hown, (sides.siblings_pairedBelow a b).firsts]
        have hownedB : again.second.children (q b) =
            ((sides.pairedBelow a b).filterMap (·.2)).map q := by
          rw [hseconds b rfl, Origin.children, hown]
        refine hmirrors.node_unmarked ?_ (nodes_again hmirrors children children' ?_ hbelow hbelow')
        · exact congrArg some (hmirrors.shared_unmarked a b)
        · rw [hown', hown, hmirrors.pairedBelow_again hownedA hownedB]
private theorem nodes_again (hmirrors : again.Mirrors sides p q) : ∀ origins origins' : List Origin,
    origins'.map ids = (origins.map ids).map (Prod.map (Option.map p) (Option.map q)) →
    (∀ below ∈ walkAll origins, below.Exact sides ∧ below.Listed again p q) →
    (∀ below ∈ walkAll origins', below.Exact again) →
    MergedNode.unmarkedAll (nodes again origins') = MergedNode.unmarkedAll (nodes sides origins)
  | [], [], _, _, _ => rfl
  | [], _ :: _, hids, _, _ => by cases hids
  | _ :: _, [], hids, _, _ => by cases hids
  | origin :: origins, origin' :: origins', hids, hexact, hexact' => by
    rw [walkAll] at hexact hexact'
    obtain ⟨hfirst, hrest⟩ := List.forall_mem_append.mp hexact
    obtain ⟨hfirst', hrest'⟩ := List.forall_mem_append.mp hexact'
    obtain ⟨hid, hids⟩ := List.cons.inj hids
    rw [nodes, nodes, MergedNode.unmarkedAll, MergedNode.unmarkedAll,
      node_again hmirrors origin origin' hid hfirst hfirst',
      nodes_again hmirrors origins origins' hids hrest hrest']
end

/-- Merging trees that mirror the sides, in the order of the merge, gives the same nodes but for the
roles of their declarations. -/
theorem merge_again (hmirrors : again.Mirrors sides p q) {origins origins' : List Origin}
    {forest forest' : MergedForest} (htraces : sides.TracesExactly origins forest)
    (htraces' : again.TracesExactly origins' forest')
    (hlisted : ∀ origin ∈ walkAll origins, origin.Listed again p q)
    (hfirst : again.first.roots = ((origins.map ids).filterMap (·.1)).map p)
    (hsecond : again.second.roots = ((origins.map ids).filterMap (·.2)).map q) :
    MergedNode.unmarkedAll forest'.roots = MergedNode.unmarkedAll forest.roots := by
  rw [htraces.nodes, htraces'.nodes]
  refine nodes_again hmirrors origins origins' ?_
    (fun origin horigin => ⟨htraces.exact origin horigin, hlisted origin horigin⟩) htraces'.exact
  rw [htraces'.roots, hfirst, hsecond, htraces.roots, pairUp_firsts, hmirrors.pairUp_again]

end Sides.Mirrors

end Concord
