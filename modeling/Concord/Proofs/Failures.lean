import Concord.Proofs.Output.Closed
import Concord.Proofs.Merge.Lending
import Concord.Proofs.Merge.Partners
import Concord.Proofs.Output.Duplicates
import Concord.Run

namespace Concord

namespace Sides

/-- A forest that some merge of the sides gives, be it in one session or by workers, and from
whatever cache. -/
def Merges (sides : Sides) (forest : MergedForest) : Prop :=
  ∃ cache rejections after limitHits, sides.MergesTo cache ⟨forest, rejections⟩ after limitHits

/-- Two registered declarations of a tree have one name in one name space, and the error reports it. -/
def ReportsClash (sides : Sides) (error : RunError) : Prop :=
  ∃ output a b declaration other kind, a ≠ b ∧ (sides.source output).get? a = some declaration ∧
    (sides.source output).get? b = some other ∧ declaration.data.Clashes other.data ∧
    error = .duplicateEntry other.qualifiedName kind output .placing

variable {sides : Sides} {forest : MergedForest} {error : RunError} {origins : List Origin}

/-- The forest that a merge gives traces back to the trees. -/
theorem Merges.traces (hmerges : sides.Merges forest) (hmergeable : sides.Mergeable) : ∃ origins,
    sides.Traces (fun a _ common => common.SharedOf sides.first a) origins forest := by
  obtain ⟨_, _, _, _, hmerges⟩ := hmerges
  exact hmergeable.traces hmerges

section Writing

variable {result : MergeResult}

/-- A run writes what its merge gives. -/
theorem run_of_merge {session : Session} (hmerge : sides.merge .empty = .ok (result, session)) :
    sides.run = sides.write result session.cache.counts := by
  rw [run, hmerge]
  rfl

variable {cache : CacheCounts}

/-- What was merged is written where everything is placed and filled. -/
theorem write_eq_ok {outcome : Outcome} : sides.write result cache = .ok outcome ↔
    ∃ placement, Placement.ofForest result.forest = .ok placement ∧
      placement.fill sides.options result.forest = .ok outcome.trees ∧
      outcome.rejections = result.rejections ∧
      outcome.statistics = .ofForest result.forest result.rejections.length cache := by
  constructor
  · intro hwrite
    obtain ⟨placement, hplacement, hwrite⟩ := Except.bind_eq_ok.mp hwrite
    obtain ⟨trees, htrees, heq⟩ := Except.bind_eq_ok.mp hwrite
    cases heq
    exact ⟨placement, hplacement, htrees, rfl, rfl⟩
  · obtain ⟨trees, rejections, statistics⟩ := outcome
    rintro ⟨placement, hplacement, htrees, rfl, rfl⟩
    exact Except.bind_eq_ok.mpr ⟨placement, hplacement, Except.bind_eq_ok.mpr ⟨_, htrees, rfl⟩⟩

theorem write_succeeds_iff : (sides.write result cache).Succeeds ↔ ∃ placement trees,
    Placement.ofForest result.forest = .ok placement ∧
      placement.fill sides.options result.forest = .ok trees := by
  constructor
  · rintro ⟨outcome, hwrite⟩
    obtain ⟨placement, hplacement, htrees, -⟩ := write_eq_ok.mp hwrite
    exact ⟨placement, outcome.trees, hplacement, htrees⟩
  · rintro ⟨placement, trees, hplacement, htrees⟩
    exact ⟨⟨trees, _, _⟩, write_eq_ok.mpr ⟨placement, hplacement, htrees, rfl, rfl⟩⟩

end Writing

/-- Placing the forest of a merge fails exactly when a name of one of the trees is not unique. -/
private theorem placing_succeeds_iff (hfirst : sides.first.Regular) (hsecond : sides.second.Regular)
    (htraces : sides.Traces (fun a _ common => common.SharedOf sides.first a) origins forest) :
    (Placement.ofForest forest).Succeeds ↔ sides.first.NamesUnique ∧ sides.second.NamesUnique :=
  (Placement.ofForest_succeeds_iff (htraces.nested hfirst hsecond)
    (htraces.roots_modules hfirst hsecond)).trans (htraces.orderly_iff hfirst hsecond)

/-- Placing the forest of a merge fails with the name of two declarations that clash. -/
private theorem placing_error (hfirst : sides.first.Regular) (hsecond : sides.second.Regular)
    (htraces : sides.Traces (fun a _ common => common.SharedOf sides.first a) origins forest)
    (herror : Placement.ofForest forest = .error error) : sides.ReportsClash error := by
  obtain ⟨done, node, rest, output, data, found, hnodes, hdata, rfl, ⟨earlier, hearlier, hfound⟩,
      hclashes⟩ := Placement.ofForest_error (htraces.nested hfirst hsecond)
    (htraces.roots_modules hfirst hsecond) herror
  have hpairs := hnodes ▸ htraces.different_sources hfirst hsecond output
  obtain ⟨a, b, declaration, other, hne, hget, hget', hstands, hstands'⟩ :=
    (List.pairwise_append.mp hpairs).2.2 earlier hearlier node List.mem_cons_self found data hfound
      hdata
  refine ⟨output, a, b, declaration, other, data.kind, hne, hget, hget',
    hstands.clashes hstands' hclashes, ?_⟩
  rw [hstands'.name]

/-- Filling the placeholders of a merge fails only where shared data names a classifier without a
shared node. -/
private theorem filling_error {firsts seconds : List Source}
    (hfirst : Tree.ofSources firsts = .ok sides.first)
    (hsecond : Tree.ofSources seconds = .ok sides.second)
    (htraces : sides.Traces (fun a _ common => common.SharedOf sides.first a) origins forest)
    {placement : Placement} {options : CompiledOptions}
    (hplacement : Placement.ofForest forest = .ok placement)
    (herror : placement.fill options forest = .error error) :
    ∃ name, error = .missingClassifier name .common .filling := by
  have hregularA := Tree.regular_of_ofSources hfirst
  have hregularB := Tree.regular_of_ofSources hsecond
  obtain ⟨hunique, hunique'⟩ :=
    (placing_succeeds_iff hregularA hregularB htraces).mp ⟨placement, hplacement⟩
  obtain ⟨trees, hfill⟩ | ⟨error', herror', node, hnode, output, data, hdata, reference, href,
      huncovered, hfails⟩ := Placement.fill_ends options
    (htraces.orderly hregularA hregularB hunique hunique')
    (htraces.roots_modules hregularA hregularB) hplacement
  · cases herror.symm.trans hfill
  cases herror.symm.trans herror'
  have houtput : output = .common := by
    by_contra hside
    exact huncovered (htraces.closed hfirst hsecond options hside node hnode data hdata reference href)
  subst houtput
  obtain ⟨name, -, rfl⟩ | ⟨id, rfl⟩ := Binding.ref_error hfails
  · exact ⟨name, rfl⟩
  · -- what is shared is detached from the first tree
    have hmentions := htraces.mentions hregularA hregularB hnode hdata href
    obtain ⟨-, -, -, -, ⟨⟩⟩ | ⟨-, ⟨⟩⟩ | ⟨-, ⟨⟩⟩ := (Tree.ofSources_bound hfirst).mentions hmentions

/-- Two trees that are read from sources are merged, whatever the options, the limits and the cache
are. Placing what the merge gives fails exactly when two registered declarations of one tree have
one name in one name space, and reports a duplicate entry. Filling the placeholders fails only where
shared data names a classifier that the shared output lacks. -/
theorem fails_only_by_names (sides : Sides) (hconsistent : sides.Consistent)
    {firsts seconds : List Source} (hfirst : Tree.ofSources firsts = .ok sides.first)
    (hsecond : Tree.ofSources seconds = .ok sides.second) :
    ((∀ cache, (sides.merge cache).Succeeds) ∧
      ∀ cache, Acc (fun after before => Task.Step before after) (cache, sides.mergeTask) ∧
        ∀ after task, Task.Schedule (cache, sides.mergeTask) (after, task) →
          (∃ next, Task.Step (after, task) next) ∨
            ∃ merged limitHits, task = .done ⟨.ok merged, limitHits⟩) ∧
    ∀ forest, sides.Merges forest →
      ((∃ error, Placement.ofForest forest = .error error) ↔
        ¬sides.first.NamesUnique ∨ ¬sides.second.NamesUnique) ∧
      (∀ error, Placement.ofForest forest = .error error → sides.ReportsClash error) ∧
      ∀ placement options error, Placement.ofForest forest = .ok placement →
        placement.fill options forest = .error error →
        ∃ name, error = .missingClassifier name .common .filling := by
  have hregularA := Tree.regular_of_ofSources hfirst
  have hregularB := Tree.regular_of_ofSources hsecond
  have hmergeable := mergeable_of_regular hconsistent hregularA hregularB
  refine ⟨⟨fun cache => ?_, fun cache => ?_⟩, ?_⟩
  · obtain ⟨result, session, hmerge⟩ := (hmergeable.merge_succeeds cache).session
    exact ⟨_, hmerge⟩
  · have hsucceeds := hmergeable.merge_succeeds cache
    refine ⟨hsucceeds.ends, fun after task hschedule => ?_⟩
    obtain hnext | ⟨nodes, rejections, limitHits, hdone⟩ := hsucceeds.workers after task hschedule
    · exact .inl hnext
    · exact .inr ⟨_, _, hdone⟩
  · intro forest hmerges
    obtain ⟨origins, htraces⟩ := hmerges.traces hmergeable
    refine ⟨?_, fun error => placing_error hregularA hregularB htraces,
      fun placement options error => filling_error hfirst hsecond htraces⟩
    rw [← not_and_or, ← placing_succeeds_iff hregularA hregularB htraces, Except.not_succeeds]

/-- A package with classes of these names. -/
private def classesNamed (names : List String) : Source :=
  .mk ⟨"m"⟩ .everyone .final .plain (.module ⟨none⟩)
    [.mk ⟨"p"⟩ .everyone .final .plain .package
      (names.map fun name => .mk ⟨name⟩ .everyone .final .plain (.classType (.ofKind .ordinary)) [])]

private def twinSides : Sides :=
  let read (names : List String) := (Tree.ofSources [classesNamed names]).toOption.getD .empty
  ofTrees (read ["A"]) (read ["A", "B", "B"]) ⟨["kotlin"], [], false, 100, 1000000⟩

/-- Two trees, the second of which has two classes of one name, are merged, but what the merge gives
cannot be placed. -/
theorem twin_classes_clash : ∃ result session, twinSides.merge .empty = .ok (result, session) ∧
    Placement.ofForest result.forest =
      .error (.duplicateEntry ⟨"p.B"⟩ .classType .second .placing) ∧
    twinSides.ReportsClash (.duplicateEntry ⟨"p.B"⟩ .classType .second .placing) ∧
    (¬twinSides.first.NamesUnique ∨ ¬twinSides.second.NamesUnique) := by
  have hread : Tree.ofSources [classesNamed ["A"]] = .ok twinSides.first ∧
      Tree.ofSources [classesNamed ["A", "B", "B"]] = .ok twinSides.second := by
    decide +kernel
  obtain ⟨⟨hmerges, -⟩, hforest⟩ := fails_only_by_names twinSides nofun hread.1 hread.2
  obtain ⟨⟨result, session⟩, hmerge⟩ := hmerges .empty
  have hplaced : ((twinSides.merge .empty >>= fun merged =>
      Placement.ofForest merged.1.forest).map fun _ => ()) =
        .error (.duplicateEntry ⟨"p.B"⟩ .classType .second .placing) := by
    decide +kernel
  obtain herror | ⟨merged, hmerged, herror⟩ :=
    Except.bind_eq_error.mp (Except.map_eq_error.mp hplaced)
  · cases hmerge.symm.trans herror
  cases hmerge.symm.trans hmerged
  obtain ⟨hiff, hreports, -⟩ := hforest result.forest ⟨_, _, _, _, .session hmerge rfl rfl⟩
  exact ⟨result, session, hmerge, herror, hreports _ herror, hiff.mp ⟨_, herror⟩⟩

end Sides

end Concord
