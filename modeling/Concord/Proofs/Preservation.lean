import Concord.Proofs.Output.Produced

namespace Concord

open Source (erasedAll)

namespace Sides

/-- Whatever run over two trees that are read from sources produces an outcome, the outputs preserve
both trees but for the expectations. The output of the first side has the sources of the first tree.
That of the second side has the sources of the second tree in the order of the merge: matched
siblings come in the order of their partners, then the others in their own order, and the parameters
of a function keep theirs. -/
theorem run_preserves (sides : Sides) (hconsistent : sides.Consistent) {firsts seconds : List Source}
    (hfirst : Tree.ofSources firsts = .ok sides.first)
    (hsecond : Tree.ofSources seconds = .ok sides.second) {forest : MergedForest} {outcome : Outcome}
    (hproduces : sides.Produces forest outcome) :
    erasedAll outcome.trees.first.toSources = erasedAll sides.first.toSources ∧
      ∃ origins, forest.roots = Origin.nodes sides origins ∧ sides.Accounts origins ∧
        erasedAll outcome.trees.second.toSources = erasedAll (sides.arranged origins).toSources ∧
        Source.AllShuffled (sides.arranged origins).toSources sides.second.toSources := by
  have hregularA := Tree.regular_of_ofSources hfirst
  have hregularB := Tree.regular_of_ofSources hsecond
  have hrootedA := hregularA.mergeable.rooted
  have hrootedB := hregularB.mergeable.rooted
  obtain ⟨origins, htraces⟩ :=
    hproduces.merges.traces (mergeable_of_regular hconsistent hregularA hregularB)
  obtain ⟨placement, hplacement, hfill⟩ := hproduces.written
  have hcarriesA := htraces.carries_first hregularA hregularB fun _ _ => Tree.ofSources_legible hfirst
  have hcarriesB := htraces.carries_second hregularA hregularB fun _ _ =>
    Tree.ofSources_legible hsecond
  refine ⟨Placement.fill_sources hcarriesA htraces.nodes hplacement hfill, origins, htraces.nodes,
    htraces.accounts hrootedA hrootedB, ?_, ?_⟩
  · exact Placement.fill_sources hcarriesB htraces.nodes hplacement hfill
  · exact htraces.arranged_shuffled hrootedA hrootedB

/-- A module with one package of classes. -/
private def moduleOf (classes : List String) : Source :=
  .mk ⟨"m"⟩ .everyone .final .plain (.module ⟨none⟩)
    [.mk ⟨"p"⟩ .everyone .final .plain .package (classes.map fun name =>
      .mk ⟨name⟩ .everyone .final .plain (.classType (.ofKind .ordinary)) [])]

/-- The names of the classes of such a module. -/
private def classNames : List Source → List String
  | [.mk _ _ _ _ _ [.mk _ _ _ _ _ classes]] => classes.map (·.name.text)
  | _ => []

/-- Two modules with the same two classes, in two orders, the second of which has a class of its
own. -/
private def swapped : Sides :=
  let read (classes : List String) := (Tree.ofSources [moduleOf classes]).toOption.getD .empty
  ofTrees (read ["A", "B"]) (read ["C", "B", "A"]) ⟨["kotlin"], [], true, 100, 1000000⟩

/-- Workers that merge the two modules one after the other preserve them. In the output of the
second side the shared classes come in the order of the first side, and the other class comes last. -/
theorem swapped_classes_preserved : ∃ forest outcome, swapped.Produces forest outcome ∧
    erasedAll outcome.trees.first.toSources = erasedAll swapped.first.toSources ∧
    classNames outcome.trees.first.toSources = ["A", "B"] ∧
    classNames swapped.second.toSources = ["C", "B", "A"] ∧
    classNames outcome.trees.second.toSources = ["A", "B", "C"] ∧
    ∃ origins, forest.roots = Origin.nodes swapped origins ∧
      erasedAll outcome.trees.second.toSources = erasedAll (swapped.arranged origins).toSources ∧
      Source.AllShuffled (swapped.arranged origins).toSources swapped.second.toSources := by
  have hread : Tree.ofSources [moduleOf ["A", "B"]] = .ok swapped.first ∧
      Tree.ofSources [moduleOf ["C", "B", "A"]] = .ok swapped.second := by
    decide +kernel
  let workers := swapped.mergeTask.inOrder .empty
  have hnames : (do
      let merged ← workers.2.outcome.toOption
      let outcome ← (swapped.write ⟨⟨merged.1⟩, merged.2⟩ workers.1.counts).toOption
      return (classNames outcome.trees.first.toSources, classNames outcome.trees.second.toSources)) =
        some (["A", "B"], ["A", "B", "C"]) := by
    decide +kernel
  obtain ⟨⟨nodes, rejections⟩, hnodes, hnames⟩ := Option.bind_eq_some_iff.mp hnames
  obtain ⟨outcome, hwrite, hnames⟩ := Option.bind_eq_some_iff.mp hnames
  obtain ⟨hfirst, hsecond⟩ := Prod.mk.inj (Option.some.inj hnames)
  have hproduces := MergesTo.produces (mergesTo_inOrder (Except.toOption_eq_some.mp hnodes))
    (Except.toOption_eq_some.mp hwrite)
  obtain ⟨hkept, origins, hforest, -, harranged, hshuffled⟩ :=
    run_preserves swapped nofun hread.1 hread.2 hproduces
  exact ⟨_, outcome, hproduces, hkept, hfirst, by decide +kernel, hsecond, origins, hforest, harranged,
    hshuffled⟩

end Sides

end Concord
