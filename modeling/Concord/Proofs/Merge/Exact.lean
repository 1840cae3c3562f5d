import Concord.Proofs.Merge.Behind
import Concord.Proofs.Merge.Mergeable
import Concord.Proofs.Merge.NotedPairs
import Concord.Proofs.Parallel.Workers

namespace Concord

open Origin (Behind ids walkAll)

namespace Sides

variable (sides : Sides)

/-- The data that two declarations share by the oracle. -/
noncomputable def shared (a b : DeclId) : Data :=
  match (sides.oracle.compare sides a b).run with
  | .matched _ common _ => (sides.oracle.intersect sides a b common).run
  | .mismatched _ => default

variable {sides}

theorem shared_of_compare {a b : DeclId} {first common second : Data}
    (hrun : (sides.oracle.compare sides a b).run = .matched first common second) :
    sides.shared a b = (sides.oracle.intersect sides a b common).run := by
  rw [shared, hrun]

theorem matched_of_compare {a b : DeclId} {first common second : Data}
    (hrun : (sides.oracle.compare sides a b).run = .matched first common second) :
    sides.matched a b = true := by
  rw [matched, hrun]
  rfl

/-- Only classes share less than what their comparison says. -/
theorem shared_of_value {a b : DeclId} (hvalue : (sides.first.declaration a).kind = .value)
    {first common second : Data}
    (hrun : (sides.oracle.compare sides a b).run = .matched first common second) :
    sides.shared a b = common := by
  rw [shared_of_compare hrun, Services.intersect]
  cases hpayload : (sides.first.declaration a).payload with
  | value info => rfl
  | _ => cases hvalue.symm.trans (congrArg Payload.kind hpayload)

end Sides

/-- What the node of an origin and those below it stand for, exactly as the oracle merges: a
declaration that stays alone with what it owns, or two that match, and below them what they own as
it is paired. -/
inductive Origin.Exact (sides : Sides) : Origin → Prop
  | first {a : DeclId} {children : List Origin}
    (hids : children.map ids = (sides.first.children a).map (some ·, none)) :
    Exact sides (.mk (some a) none none children)
  | second {b : DeclId} {children : List Origin}
    (hids : children.map ids = (sides.second.children b).map (none, some ·)) :
    Exact sides (.mk none (some b) none children)
  | shared {a b : DeclId} {children : List Origin} (hmatched : sides.matched a b = true)
    (hids : children.map ids = sides.pairedBelow a b) :
    Exact sides (.mk (some a) (some b) (some (sides.shared a b)) children)

namespace Sides

variable {sides : Sides}

/-- Exact origins are sound. -/
theorem sound_of_exact (hdistinct : sides.same = false) {origin : Origin}
    (hexact : origin.Exact sides) : origin.Sound sides (fun _ _ _ => True) := by
  cases hexact with
  | @first a children hids =>
    refine ⟨.inl rfl, rfl, fun _ _ _ => nofun, ?_, fun _ _ _ _ _ _ => trivial⟩
    rw [show Origin.children _ = children from rfl, hids]
    exact .firstsAlone _
  | @second b children hids =>
    refine ⟨.inr rfl, rfl, fun _ _ => nofun, ?_, fun _ _ _ _ _ _ => trivial⟩
    rw [show Origin.children _ = children from rfl, hids]
    exact .secondsAlone _
  | @shared a b children hmatched hids =>
    have hkinds := kinds_of_isMatched hdistinct hmatched
    have hfunction : Origin.IsFunction sides
        (.mk (some a) (some b) (some (sides.shared a b)) children) ↔
          (sides.first.declaration a).kind = .function := by
      simp [Origin.IsFunction, Origin.first?, Origin.second?, hkinds]
    refine ⟨.inl rfl, rfl, ?_, ?_, fun _ _ _ _ _ _ => trivial⟩
    · rintro _ _ ⟨⟩ ⟨⟩
      exact hkinds
    · rw [show Origin.children _ = children from rfl, hids, hfunction]
      exact sides.siblings_pairedBelow a b

/-- A forest that stands as the oracle merges the trees, from the roots down. -/
structure TracesExactly (sides : Sides) (origins : List Origin) (forest : MergedForest) : Prop where
  nodes : forest.roots = Origin.nodes sides origins
  roots : origins.map ids = pairUp sides.joins sides.first.roots sides.second.roots
  exact : ∀ origin ∈ walkAll origins, origin.Exact sides

namespace TracesExactly

variable {origins : List Origin} {forest : MergedForest}
  (htraces : sides.TracesExactly origins forest)
include htraces

/-- Such a forest traces back to the trees. -/
theorem traces (hdistinct : sides.same = false) :
    sides.Traces (fun _ _ _ => True) origins forest :=
  ⟨htraces.nodes, htraces.roots ▸ .pairUp id,
    fun origin horigin => sound_of_exact hdistinct (htraces.exact origin horigin)⟩

/-- The node of two declarations holds what they share. -/
theorem common?_of_ids {origin : Origin} (horigin : origin ∈ walkAll origins) {pair : Pair}
    (hpair : origin.ids = (some pair.1, some pair.2)) :
    origin.common? = some (sides.shared pair.1 pair.2) := by
  cases htraces.exact origin horigin with
  | first _ | second _ => cases hpair
  | shared _ _ =>
    cases hpair
    rfl

/-- What stands below the node of two declarations is paired as the oracle pairs it. -/
private theorem children_ids {origin : Origin} (horigin : origin ∈ walkAll origins) {a b : DeclId}
    (hpair : origin.ids = (some a, some b)) : origin.children.map ids = sides.pairedBelow a b := by
  cases htraces.exact origin horigin with
  | first _ | second _ => cases hpair
  | shared _ hids =>
    cases hpair
    exact hids

/-- Declarations that match have a node of their own. -/
private theorem mem_pairs_of_matched {pair : Pair} (hmatched : sides.Matched pair) :
    pair ∈ Origin.pairs origins := by
  rw [Origin.mem_pairs]
  induction hmatched with
  | root hpair =>
    obtain ⟨origin, horigin, hids⟩ := List.mem_map.mp (htraces.roots ▸ (pair_mem_pairUp _).mpr hpair)
    exact ⟨origin, Origin.mem_walkAll.mpr ⟨origin, horigin, origin.mem_walk_self⟩, hids⟩
  | under _ hpair ih =>
    obtain ⟨owner, howner, hab⟩ := ih
    have hbelow := htraces.children_ids howner hab
    obtain ⟨origin, horigin, hids⟩ :=
      List.mem_map.mp (hbelow ▸ pair_mem_pairedBelow.mpr hpair)
    exact ⟨origin, Origin.walkAll_closed origins howner horigin, hids⟩

/-- Declarations that have one node match. -/
private theorem matched_of_mem_pairs {pair : Pair} (hpair : pair ∈ Origin.pairs origins) :
    sides.Matched pair := by
  obtain ⟨origin, horigin, hids⟩ := Origin.mem_pairs.mp hpair
  obtain ⟨top, htop, horigin⟩ := Origin.mem_walkAll.mp horigin
  -- from the top down: what stands below a node is paired there if its declarations match
  refine Origin.walk_all (fun origin => ∀ pair : Pair, origin.ids = (some pair.1, some pair.2) →
    sides.Matched pair) top (fun owner howner ih below hbelow pair hids => ?_)
    (fun pair hids => .root ((pair_mem_pairUp _).mp ?_)) origin horigin pair hids
  · have howner := Origin.mem_walkAll.mpr ⟨top, htop, howner⟩
    have hmem : (some pair.1, some pair.2) ∈ owner.children.map ids :=
      hids ▸ List.mem_map_of_mem hbelow
    cases htraces.exact owner howner with
    | @first a children hchildren =>
      rw [show Origin.children _ = children from rfl, hchildren] at hmem
      simp at hmem
    | @second b children hchildren =>
      rw [show Origin.children _ = children from rfl, hchildren] at hmem
      simp at hmem
    | @shared a b children _ hchildren =>
      rw [show Origin.children _ = children from rfl, hchildren] at hmem
      exact .under (ih (a, b) rfl) (pair_mem_pairedBelow.mp hmem)
  · rw [← htraces.roots, ← hids]
    exact List.mem_map_of_mem htop

/-- The pairs that stand together are those that match. -/
theorem mem_pairs_iff (pair : Pair) : pair ∈ Origin.pairs origins ↔ sides.Matched pair :=
  ⟨htraces.matched_of_mem_pairs, htraces.mem_pairs_of_matched⟩

end TracesExactly

/-- Nodes of a merge of the oracle, with what they come from. -/
abbrev StandExactly (sides : Sides) (pairs : List (Option DeclId × Option DeclId))
    (merged : List MergedNode) : Prop :=
  Behind sides (Origin.Exact sides) pairs merged

/-- A pairing with the data that the oracle finds, and enough levels left below it. -/
structure Merging (sides : Sides) (levels : Nat) (pairing : Pairing) : Prop where
  exact : pairing.Exact sides
  first : ∀ a, pairing.first? = some a → ∃ above, sides.first.Line a above ∧
    sides.first.size ≤ above.length + levels
  second : ∀ b, pairing.second? = some b → sides.second.Reachable b

private theorem Merging.of_pairsUp {levels : Nat} {as bs : List DeclId} {plan : List Pairing}
    (hplan : sides.PairsUp as bs plan)
    (has : ∀ a ∈ as, ∃ above, sides.first.Line a above ∧
      sides.first.size ≤ above.length + levels)
    (hbs : ∀ b ∈ bs, sides.second.Reachable b) {pairing : Pairing} (hpairing : pairing ∈ plan) :
    sides.Merging levels pairing := by
  have hids : (pairing.first?, pairing.second?) ∈ pairUp sides.joins as bs :=
    hplan.ids ▸ List.mem_map_of_mem hpairing
  refine ⟨hplan.exact pairing hpairing, fun a ha => has a ?_, fun b hb => hbs b ?_⟩
  · rw [← pairUp_firsts sides.joins as bs]
    exact List.mem_filterMap.mpr ⟨_, hids, ha⟩
  · rw [← (pairUp_seconds sides.joins as bs).mem_iff]
    exact List.mem_filterMap.mpr ⟨_, hids, hb⟩

private theorem first_exactly {a : DeclId} {node : MergedNode}
    (hrun : sides.first.single .first a = .ok node) : sides.StandExactly [(some a, none)] [node] :=
  .first_alone (fun _ _ _ _ => trivial) (fun _ _ _ hids => .first hids)
    (show (fun _ => True) a from trivial) hrun

private theorem second_exactly {b : DeclId} {node : MergedNode}
    (hrun : sides.second.single .second b = .ok node) : sides.StandExactly [(none, some b)] [node] :=
  .second_alone (fun _ _ _ _ => trivial) (fun _ _ _ hids => .second hids)
    (show (fun _ => True) b from trivial) hrun

private theorem shared_exactly {a b : DeclId} {first common second shared : Data}
    {merged : List MergedNode} (ha : ∃ declaration, sides.first.get? a = some declaration)
    (hb : ∃ declaration, sides.second.get? b = some declaration)
    (hrun : (sides.oracle.compare sides a b).run = .matched first common second)
    (hshared : sides.shared a b = shared)
    (hbelow : sides.StandExactly (sides.pairedBelow a b) merged) :
    sides.StandExactly [(some a, some b)] [.shared first shared second merged] := by
  obtain ⟨rfl, rfl⟩ := Prod.mk.inj (dataOf_of_compare hrun)
  subst hshared
  refine hbelow.single (some (sides.shared a b)) ?_ fun children hids _ =>
    .shared (matched_of_compare hrun) hids
  rw [Option.bind_some, Option.bind_some, Tree.detached?_of_known ha, Tree.detached?_of_known hb]

/-- The parameters of two functions stand as they are paired by their places. -/
private theorem mergeParameters_exactly {as bs : List DeclId}
    (has : ∀ a ∈ as, (∃ declaration, sides.first.get? a = some declaration) ∧
      sides.first.children a = [] ∧ (sides.first.declaration a).kind = .value)
    (hbs : ∀ b ∈ bs, (∃ declaration, sides.second.get? b = some declaration) ∧
      sides.second.children b = []) {merged : List MergedNode}
    (hrun : sides.oracle.mergeParameters sides as bs = .ok merged) :
    sides.StandExactly (pairByPlace sides.matched as bs) merged := by
  have hfirsts {as : List DeclId} {merged : List MergedNode}
      (hrun : (as.mapM fun a => sides.first.single .first a) = .ok merged) :
      sides.StandExactly (as.map (some ·, none)) merged :=
    .mapM (some ·, none) (fun _ _ _ hnode => first_exactly hnode) hrun
  induction as generalizing bs merged with
  | nil =>
    cases bs with
    | nil => exact hfirsts hrun
    | cons b bs => exact .mapM (none, some ·) (fun _ _ _ hnode => second_exactly hnode) hrun
  | cons a as ih =>
    cases bs with
    | nil => exact hfirsts hrun
    | cons b bs =>
      obtain ⟨⟨hknownA, hbareA, hvalue⟩, has⟩ := List.forall_mem_cons.mp has
      obtain ⟨⟨hknownB, hbareB⟩, hbs⟩ := List.forall_mem_cons.mp hbs
      obtain ⟨outcome, hcompared, hrun⟩ := Except.bind_eq_ok.mp hrun
      have hcompare : (sides.oracle.compare sides a b).run = outcome := Except.ok.inj hcompared
      rw [pairByPlace_cons_cons, matched, hcompare]
      cases outcome with
      | matched first common second =>
        obtain ⟨_, -, hrun⟩ := Except.bind_eq_ok.mp hrun
        obtain ⟨nodes, hnodes, hrun⟩ := Except.bind_eq_ok.mp hrun
        obtain ⟨rest, hrest, heq⟩ := Except.bind_eq_ok.mp hrun
        cases hnodes
        cases heq
        have hbelow : sides.StandExactly (sides.pairedBelow a b) [] := by
          rw [pairedBelow, hbareA, hbareB]
          split <;> exact .nil
        have hnode := shared_exactly hknownA hknownB hcompare (shared_of_value hvalue hcompare) hbelow
        exact hnode.append (ih has hbs hrest)
      | mismatched mismatch =>
        obtain ⟨node, hnode, hrun⟩ := Except.bind_eq_ok.mp hrun
        obtain ⟨node', hnode', hrun⟩ := Except.bind_eq_ok.mp hrun
        obtain ⟨nodes, hnodes, hrun⟩ := Except.bind_eq_ok.mp hrun
        obtain ⟨rest, hrest, heq⟩ := Except.bind_eq_ok.mp hrun
        cases hnodes
        cases heq
        exact ((first_exactly hnode).append (second_exactly hnode')).append (ih has hbs hrest)

private theorem collect_exactly {merge : Pairing → Except RunError Merged} {plan : List Pairing}
    (hmerge : ∀ pairing ∈ plan, ∀ merged, merge pairing = .ok merged →
      sides.StandExactly [(pairing.first?, pairing.second?)] [merged.1])
    {collected : List MergedNode × List Rejection}
    (hrun : Services.collect merge plan = .ok collected) :
    sides.StandExactly (plan.map fun pairing => (pairing.first?, pairing.second?)) collected.1 := by
  induction plan generalizing collected with
  | nil =>
    cases hrun
    exact .nil
  | cons pairing plan ih =>
    obtain ⟨hfirst, hrest⟩ := List.forall_mem_cons.mp hmerge
    obtain ⟨merged, hmerged, hrun⟩ := Except.bind_eq_ok.mp hrun
    obtain ⟨others, hothers, heq⟩ := Except.bind_eq_ok.mp hrun
    cases heq
    exact (hfirst merged hmerged).append (ih hrest hothers)

variable (hdistinct : sides.same = false) (hfirst : sides.first.Mergeable)
  (hsecond : sides.second.Mergeable) (hvalues : sides.first.ParametersAreValues)
include hdistinct hfirst hsecond hvalues

private theorem mergePaired_exactly (levels : Nat) {pairing : Pairing}
    (hpairing : sides.Merging levels pairing) {merged : Merged}
    (hrun : sides.oracle.mergePaired sides levels pairing = .ok merged) :
    sides.StandExactly [(pairing.first?, pairing.second?)] [merged.1] := by
  have hfirstAlone {a : DeclId} {merged : Merged}
      (hrun : (do return (← sides.oracle.attempt (sides.first.single .first a), [])) =
        Except.ok merged) : sides.StandExactly [(some a, none)] [merged.1] := by
    obtain ⟨node, hnode, heq⟩ := Except.bind_eq_ok.mp hrun
    cases heq
    exact first_exactly hnode
  have hsecondAlone {b : DeclId} {merged : Merged}
      (hrun : (do return (← sides.oracle.attempt (sides.second.single .second b), [])) =
        Except.ok merged) : sides.StandExactly [(none, some b)] [merged.1] := by
    obtain ⟨node, hnode, heq⟩ := Except.bind_eq_ok.mp hrun
    cases heq
    exact second_exactly hnode
  induction levels generalizing pairing merged with
  | zero =>
    cases pairing with
    | firstAlone a => exact hfirstAlone hrun
    | secondAlone b => exact hsecondAlone hrun
    | partners a b first common second =>
      obtain ⟨above, hline, henough⟩ := hpairing.first a rfl
      have hshort := hfirst.rooted.line_length hline
      omega
  | succ levels ih =>
    cases pairing with
    | firstAlone a => exact hfirstAlone hrun
    | secondAlone b => exact hsecondAlone hrun
    | partners a b first common second =>
      obtain ⟨above, hline, henough⟩ := hpairing.first a rfl
      have hb : sides.second.Reachable b := hpairing.second b rfl
      obtain ⟨above', hline'⟩ := Tree.reachable_iff_line.mp hb
      have hknownA := hfirst.rooted.line_known hline
      have hknownB := hsecond.rooted.line_known hline'
      have hcompare : (sides.oracle.compare sides a b).run = .matched first common second :=
        hpairing.exact
      obtain ⟨_, -, hrun⟩ := Except.bind_eq_ok.mp hrun
      obtain ⟨shared, hintersect, hrun⟩ := Except.bind_eq_ok.mp hrun
      have hshared : sides.shared a b = shared :=
        (shared_of_compare hcompare).trans (Except.ok.inj hintersect)
      split at hrun
      · next hfunction =>
        obtain ⟨nodes, hnodes, heq⟩ := Except.bind_eq_ok.mp hrun
        cases heq
        have hkind : (sides.second.declaration b).kind = .function :=
          (kinds_of_isMatched hdistinct (matched_of_compare hcompare)).symm.trans hfunction
        refine shared_exactly hknownA hknownB hcompare hshared ?_
        rw [pairedBelow, if_pos hfunction]
        exact mergeParameters_exactly
          (fun child hchild => ⟨hfirst.rooted.line_known (.child hline hchild),
            hfirst.children_parameter hfunction hchild, hvalues a child hfunction hchild⟩)
          (fun child hchild => ⟨hsecond.rooted.line_known (.child hline' hchild),
            hsecond.children_parameter hkind hchild⟩) hnodes
      · next hother =>
        obtain ⟨paired, hpaired, hrun⟩ := Except.bind_eq_ok.mp hrun
        obtain ⟨collected, hcollected, heq⟩ := Except.bind_eq_ok.mp hrun
        cases heq
        have hplan : sides.PairsUp (sides.first.children a) (sides.second.children b) paired.1 := by
          rw [← Except.ok.inj hpaired]
          exact oracle_pairSiblings _ _
        have hall : Services.collect (sides.oracle.mergePaired sides levels) paired.1 =
            .ok collected := by
          rw [← hcollected]
          exact (ite_self _).symm
        refine shared_exactly hknownA hknownB hcompare hshared ?_
        rw [pairedBelow, if_neg hother, ← hplan.ids]
        refine collect_exactly (fun below hbelow merged hmerged => ih ?_ hmerged) hall
        exact Merging.of_pairsUp hplan (fun child hchild => ⟨_, .child hline hchild, by
          simp only [List.length_cons]; omega⟩) (fun child hchild => .child hb hchild) hbelow

/-- What the oracle merges stands exactly as it merges it, from the roots down. -/
theorem oracle_merge_exactly {told : MergeResult} (hrun : sides.oracle.merge sides = .ok told) :
    ∃ origins, sides.TracesExactly origins told.forest := by
  obtain ⟨_, -, hrun⟩ := Except.bind_eq_ok.mp hrun
  obtain ⟨_, -, hrun⟩ := Except.bind_eq_ok.mp hrun
  obtain ⟨paired, hpaired, hrun⟩ := Except.bind_eq_ok.mp hrun
  obtain ⟨collected, hcollected, heq⟩ := Except.bind_eq_ok.mp hrun
  cases heq
  have hplan : sides.PairsUp sides.first.roots sides.second.roots paired.1 := by
    rw [← Except.ok.inj hpaired]
    exact oracle_pairSiblings _ _
  have hstand := collect_exactly (fun pairing hpairing merged hmerged =>
    mergePaired_exactly hdistinct hfirst hsecond hvalues _ (Merging.of_pairsUp hplan
      (fun root hroot => ⟨[], .root hroot, Nat.le_add_left _ _⟩) (fun root hroot => .root hroot)
      hpairing) hmerged) hcollected
  obtain ⟨origins, hnodes, hids, hexact⟩ := hstand
  exact ⟨origins, hnodes, hids.trans hplan.ids, hexact⟩

/-- Every merge over an exact cache that hits no limit stands as the oracle merges. -/
theorem MergesTo.tracesExactly {cache after : Cache} {result : MergeResult}
    (hmerges : sides.MergesTo cache result after 0) (hexact : cache.Exact sides) :
    ∃ origins, sides.TracesExactly origins result.forest := by
  obtain ⟨told, htold, hforest, -⟩ := hmerges.oracle hexact
  exact hforest ▸ oracle_merge_exactly hdistinct hfirst hsecond hvalues htold

end Sides

end Concord
