import Concord.Proofs.Merge.Mirroring
import Concord.Proofs.Merge.Oracle
import Concord.Proofs.Output.Mirroring
import Concord.Proofs.Preservation

namespace Concord

open Copy (placeOf)
open Origin (ids walkAll)

/-- After filling, no placeholder is left. -/
theorem Placement.fill_finished {forest : MergedForest} {placement : Placement}
    (hplacement : ofForest forest = .ok placement) {options : CompiledOptions} {filling : Filling}
    (hfilling : Filling.visitAll ⟨placement.trees, []⟩ ⟨placement.registry, options⟩
      (.replicate none) forest.roots = .ok filling) : filling.Finished placement.trees := by
  rintro output id ⟨hlt, hpending⟩
  obtain ⟨-, -, -, -, hfilled⟩ := fill_stands hplacement hfilling output
  exact hpending (hfilled id hlt)

namespace Sides

/-- Two trees that mirror the sides of a merge, can be merged as they can, and list what is owned in
the order of the merge. -/
structure Repeats (again sides : Sides) (origins : List Origin) (p q : DeclId → DeclId) : Prop where
  first : again.first.Reproduces sides.first p
  second : again.second.Reproduces sides.second q
  distinct : again.same = false ∧ sides.same = false
  options : again.options = sides.options
  firsts : again.first.roots = ((origins.map ids).filterMap (·.1)).map p
  seconds : again.second.roots = ((origins.map ids).filterMap (·.2)).map q
  listed : ∀ origin ∈ walkAll origins, origin.Listed again p q

variable {sides again : Sides} {origins : List Origin} {p q : DeclId → DeclId} {forest : MergedForest}

namespace Repeats

variable (hrepeats : again.Repeats sides origins p q)
include hrepeats

/-- What is repeated can be merged. -/
theorem mergeable : again.Mergeable := by
  have hconsistent : again.Consistent := fun hsame => by
    rw [hrepeats.distinct.1] at hsame
    cases hsame
  exact ⟨hconsistent, hrepeats.first.mergeable, hrepeats.second.mergeable,
    hrepeats.first.checked .first, hrepeats.second.checked .second⟩

/-- A repeated merge that hits no limit gives the same nodes but for the roles of their
declarations. -/
theorem merge_unmarked (htraces : sides.TracesExactly origins forest) {result : MergeResult}
    {after : Cache} (hmerges : again.MergesTo .empty result after 0) :
    MergedNode.unmarkedAll result.forest.roots = MergedNode.unmarkedAll forest.roots := by
  have hmirrors : again.Mirrors sides p q :=
    ⟨hrepeats.first.toMirrors, hrepeats.second.toMirrors, hrepeats.distinct, hrepeats.options⟩
  have hexact : Cache.empty.Exact again := nofun
  obtain ⟨origins', htraces'⟩ := hmerges.tracesExactly hrepeats.distinct.1 hrepeats.first.mergeable
    hrepeats.second.mergeable hrepeats.first.values hexact
  exact hmirrors.merge_again htraces htraces' hrepeats.listed hrepeats.firsts hrepeats.seconds

end Repeats

/-- Where two trees that are read from sources are merged exactly, the outputs repeat the merge. -/
private theorem outputs_repeat (hdistinct : sides.same = false) {firsts seconds : List Source}
    (hfirst : Tree.ofSources firsts = .ok sides.first)
    (hsecond : Tree.ofSources seconds = .ok sides.second)
    (hexactly : sides.TracesExactly origins forest) {placement : Placement}
    (hplacement : Placement.ofForest forest = .ok placement) {filling : Filling}
    (hfilling : Filling.visitAll ⟨placement.trees, []⟩ ⟨placement.registry, sides.options⟩
      (.replicate none) forest.roots = .ok filling) :
    ∃ p q, (ofTrees filling.trees.first filling.trees.second sides.options).Repeats sides origins
      p q := by
  have hregularA := Tree.regular_of_ofSources hfirst
  have hregularB := Tree.regular_of_ofSources hsecond
  have hrootedA := hregularA.mergeable.rooted
  have hrootedB := hregularB.mergeable.rooted
  have htraces := hexactly.traces hdistinct
  have haccounts := htraces.accounts hrootedA hrootedB
  have hcarriesA := htraces.carries_first hregularA hregularB fun _ _ => Tree.ofSources_legible hfirst
  have hcarriesB := htraces.carries_second hregularA hregularB fun _ _ =>
    Tree.ofSources_legible hsecond
  obtain ⟨copiesA, hcopiesA⟩ := Placement.fill_holdsCopies hcarriesA hexactly.nodes
    (fun a _ hget => (haccounts.firsts.2 a).mpr (hregularA.reachable a _ hget)) hplacement hfilling
  obtain ⟨copiesB, hcopiesB⟩ := Placement.fill_holdsCopies hcarriesB hexactly.nodes
    (fun b _ hget => (haccounts.seconds.2 b).mpr (hregularB.reachable b _ hget)) hplacement hfilling
  refine ⟨placeOf copiesA, placeOf copiesB, ?_, ?_, ⟨rfl, hdistinct⟩, rfl, ?_, ?_,
    fun origin horigin => ⟨fun a ha => ?_, fun b hb => ?_⟩⟩
  · exact hcopiesA.reproduces hregularA (Tree.ofSources_bound hfirst) (.refl sides.first)
  · exact hcopiesB.reproduces hregularB (Tree.ofSources_bound hsecond)
      (htraces.arranged_reorders hrootedA hrootedB)
  · rw [List.filterMap_map]
    exact hcopiesA.roots_eq.trans (congrArg _ hcarriesA.roots)
  · rw [List.filterMap_map]
    exact hcopiesB.roots_eq.trans (congrArg _ hcarriesB.roots)
  · rw [List.filterMap_map]
    exact hcarriesA.listed hcopiesA horigin ha
  · rw [List.filterMap_map]
    exact hcarriesB.listed hcopiesB horigin hb

/-- A run over the outputs of a run writes the same trees. Whatever the options are, if a merge of
two trees that are read from sources hits no limit and is written, then the outputs of both sides
can be merged. Every merge of them that hits no limit is written as well, and all three outputs stay
as they are, with the order of siblings and the expectations. Both merges may be done in one session
or by workers in any order. -/
theorem run_idempotent {first second : Tree} {firsts seconds : List Source}
    (hfirst : Tree.ofSources firsts = .ok first) (hsecond : Tree.ofSources seconds = .ok second)
    {options : CompiledOptions} {result : MergeResult} {after : Cache}
    (hmerges : (ofTrees first second options).MergesTo .empty result after 0) {outcome : Outcome}
    (hwrite : (ofTrees first second options).write result after.counts = .ok outcome) :
    let again := ofTrees outcome.trees.first outcome.trees.second options
    again.MergeSucceeds .empty ∧
      ∀ result' after', again.MergesTo .empty result' after' 0 → ∃ outcome',
        again.write result' after'.counts = .ok outcome' ∧ outcome'.trees = outcome.trees ∧
        ∀ output, (outcome'.trees.get output).toSources = (outcome.trees.get output).toSources := by
  have hdistinct : (ofTrees first second options).same = false := rfl
  have hexact : Cache.empty.Exact (ofTrees first second options) := nofun
  have hregularA := Tree.regular_of_ofSources hfirst
  have hregularB := Tree.regular_of_ofSources hsecond
  obtain ⟨placement, hplacement, hfill, -⟩ := write_eq_ok.mp hwrite
  obtain ⟨filling, hfilling, hfilled⟩ := Except.bind_eq_ok.mp hfill
  have htrees : filling.trees = outcome.trees := Except.ok.inj hfilled
  rw [← htrees]
  obtain ⟨origins, htraces⟩ := hmerges.tracesExactly hdistinct hregularA.mergeable
    hregularB.mergeable hregularA.parametersAreValues hexact
  obtain ⟨p, q, hrepeats⟩ :=
    outputs_repeat hdistinct hfirst hsecond htraces hplacement hfilling
  refine ⟨hrepeats.mergeable.merge_succeeds .empty, fun result' after' hagain => ?_⟩
  obtain ⟨placement', hplacement', hfill'⟩ := Placement.fill_alike
    (hrepeats.merge_unmarked htraces hagain) hplacement hfilling
    (Placement.fill_finished hplacement hfilling)
  exact ⟨⟨filling.trees, _, _⟩, write_eq_ok.mpr ⟨placement', hplacement', hfill', rfl, rfl⟩, rfl,
    fun _ => rfl⟩

/-- A package with a function that returns the class `A`, and with classes of these names. -/
private def returning (classes : List String) : Source :=
  let returned : Ty Spelling := .simple ⟨⟨some ⟨"p.A"⟩, none⟩, [], false, false, none⟩
  let function : Source := .mk ⟨"f"⟩ .everyone .final .plain
    (.function ⟨returned, none, [], false, false, false, false⟩) []
  .mk ⟨"m"⟩ .everyone .final .plain (.module ⟨none⟩)
    [.mk ⟨"p"⟩ .everyone .final .plain .package
      (function :: classes.map fun name =>
        .mk ⟨name⟩ .everyone .final .plain (.classType (.ofKind .ordinary)) [])]

/-- What such a package declares, by name and role. -/
private def roles : List Source → List (String × Expectation)
  | [.mk _ _ _ _ _ [.mk _ _ _ _ _ members]] =>
    members.map fun (.mk name _ _ expectation _ _) => (name.text, expectation)
  | _ => []

/-- Two packages whose classes come in two orders, the second of which has a class of its own. -/
private def crossed : Sides :=
  let read (classes : List String) := (Tree.ofSources [returning classes]).toOption.getD .empty
  ofTrees (read ["A", "B"]) (read ["C", "B", "A"]) ⟨["kotlin"], [], true, 100, 1000000⟩

/-- A run over the two packages moves the class of its own behind the others, which come in the
order of the first side and become actual. Workers that merge the outputs again write the same
trees. -/
theorem crossed_idempotent : ∃ outcome outcome', crossed.run = .ok outcome ∧
    roles crossed.second.toSources = [("f", .plain), ("C", .plain), ("B", .plain), ("A", .plain)] ∧
    roles outcome.trees.common.toSources = [("f", .expect), ("A", .expect), ("B", .expect)] ∧
    roles outcome.trees.second.toSources =
      [("f", .actual), ("A", .actual), ("B", .actual), ("C", .plain)] ∧
    (let again := ofTrees outcome.trees.first outcome.trees.second crossed.options
      let workers := again.mergeTask.inOrder .empty
      ∃ nodes rejections, workers.2.outcome = .ok (nodes, rejections) ∧ workers.2.limitHits = 0 ∧
        again.write ⟨⟨nodes⟩, rejections⟩ workers.1.counts = .ok outcome') ∧
    outcome'.trees = outcome.trees := by
  have hread : Tree.ofSources [returning ["A", "B"]] = .ok crossed.first ∧
      Tree.ofSources [returning ["C", "B", "A"]] = .ok crossed.second := by
    decide +kernel
  have hruns : (do
      let merged ← (crossed.merge .empty).toOption
      let outcome ← (crossed.write merged.1 merged.2.cache.counts).toOption
      let again := ofTrees outcome.trees.first outcome.trees.second crossed.options
      return ((merged.2.limitHits, (again.mergeTask.inOrder .empty).2.limitHits),
        [outcome.trees.common, outcome.trees.second].map fun tree => roles tree.toSources)) =
      some ((0, 0), [[("f", .expect), ("A", .expect), ("B", .expect)],
        [("f", .actual), ("A", .actual), ("B", .actual), ("C", .plain)]]) := by
    decide +kernel
  obtain ⟨⟨result, session⟩, hmerge, hruns⟩ := Option.bind_eq_some_iff.mp hruns
  obtain ⟨outcome, hwrite, hruns⟩ := Option.bind_eq_some_iff.mp hruns
  simp only [Option.pure_def, Option.some.injEq, Prod.mk.injEq, List.map_cons, List.map_nil,
    List.cons.injEq, and_true] at hruns
  obtain ⟨⟨hlimit, hlimit'⟩, hcommon, hsecond⟩ := hruns
  have hmerge := Except.toOption_eq_some.mp hmerge
  have hwrite := Except.toOption_eq_some.mp hwrite
  obtain ⟨hsucceeds, hagain⟩ := @run_idempotent crossed.first crossed.second _ _ hread.1 hread.2
    crossed.options result session.cache (.session hmerge rfl hlimit) outcome hwrite
  obtain ⟨nodes, rejections, houtcome⟩ := hsucceeds.inOrder
  have hmerges := mergesTo_inOrder houtcome
  rw [hlimit'] at hmerges
  obtain ⟨outcome', hwritten, hsame, -⟩ := hagain _ _ hmerges
  exact ⟨outcome, outcome', (run_of_merge hmerge).trans hwrite, by decide +kernel, hcommon, hsecond,
    ⟨nodes, rejections, houtcome, hlimit', hwritten⟩, hsame⟩

end Sides

end Concord
