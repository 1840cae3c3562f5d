import Concord.Proofs.Comparison.OneTree
import Concord.Proofs.Failures
import Concord.Proofs.Merge.Accounting
import Concord.Proofs.Merge.Intersections
import Concord.Proofs.Merge.Itself
import Concord.Proofs.Parallel.Workers

namespace Concord

open Origin (walkAll)
open Session (Quiet)

namespace Sides

variable (sides : Sides)

/-- The nodes of a forest come from all that the trees declare, and where two declarations stand
together the node holds what each of them declares and what they have in common. -/
structure Intersected (origins : List Origin) (forest : MergedForest) : Prop where
  nodes : forest.roots = Origin.nodes sides origins
  accounts : sides.Accounts origins
  shared : ∀ origin ∈ walkAll origins, ∀ a b, origin.ids = (some a, some b) → ∃ common,
    (origin.node sides).payloads =
      ⟨some ((sides.first.declaration a).data.mapRefs sides.first.detachRef), some common,
        some ((sides.second.declaration b).data.mapRefs sides.second.detachRef)⟩ ∧
    sides.KeepsCommon a b common

variable {sides} {origins : List Origin} {forest : MergedForest}

/-- What stands in a forest for two trees is told by its origins. -/
private theorem intersected_of_traces (htraces : sides.Traces sides.KeepsCommon origins forest)
    (hfirst : sides.first.Rooted) (hsecond : sides.second.Rooted) :
    sides.Intersected origins forest := by
  have haccounts := htraces.accounts hfirst hsecond
  refine ⟨htraces.nodes, haccounts, fun origin horigin a b hids => ?_⟩
  obtain ⟨ha, hb⟩ := Prod.mk.inj hids
  have hsound := htraces.sound origin horigin
  have hknownA := haccounts.known_first hfirst horigin ha
  have hknownB := haccounts.known_second hsecond horigin hb
  have hcommon : origin.common?.isSome = true := by
    rw [hsound.common, ha, hb]
    rfl
  obtain ⟨common, hcommon⟩ := Option.isSome_iff_exists.mp hcommon
  refine ⟨common, ?_, hsound.good a b common ha hb hcommon⟩
  rw [Origin.node_payloads, ha, hb, hcommon, Option.bind_some, Option.bind_some,
    Tree.detached?_of_known hknownA, Tree.detached?_of_known hknownB]

/-- What stands as the oracle merges keeps what matched declarations have in common. -/
private theorem intersected_of_exact (hdistinct : sides.same = false) (hfirst : sides.first.Rooted)
    (hsecond : sides.second.Rooted) (hexactly : sides.TracesExactly origins forest) :
    sides.Intersected origins forest := by
  have htraces := hexactly.traces hdistinct
  refine intersected_of_traces ⟨htraces.nodes, htraces.roots, fun origin horigin => ?_⟩ hfirst hsecond
  refine { htraces.sound origin horigin with good := fun a b common ha hb hcommon => ?_ }
  cases hexactly.exact origin horigin with
  | first _ => cases hb
  | second _ => cases ha
  | shared hmatched _ =>
    cases ha
    cases hb
    cases hcommon
    exact shared_keepsCommon hmatched

/-- A declaration has all that it declares in common with itself. -/
private theorem keepsCommon_self (tree : Tree) (options : CompiledOptions) (id : DeclId) :
    (ofTree tree options).KeepsCommon id id (tree.ownShare id) := by
  have hcompare := (ofTree tree options).oracle.compare_self tree options id
  have hshared : (ofTree tree options).shared id id = tree.ownShare id := by
    rw [shared_of_compare hcompare, Services.intersect_self]
    rfl
  exact hshared ▸ shared_keepsCommon (matched_of_compare hcompare)

/-- What a tree is reflected by keeps what its declarations have in common with themselves. -/
private theorem intersected_of_reflected {tree : Tree} {options : CompiledOptions}
    (hrooted : tree.Rooted) (hreflected : tree.ReflectedBy options forest) :
    ∃ origins, (ofTree tree options).Intersected origins forest := by
  obtain ⟨origins, hderives, hreflects⟩ := hreflected
  have htraces := hderives.traces trivial
  refine ⟨origins, intersected_of_traces ⟨htraces.nodes, htraces.roots, fun origin horigin => ?_⟩
    hrooted hrooted⟩
  refine { htraces.sound origin horigin with good := fun a b common ha hb hcommon => ?_ }
  cases hreflects origin horigin with
  | itself _ =>
    cases ha
    cases hb
    cases hcommon
    exact keepsCommon_self tree options _
  | first _ => cases hb
  | second _ => cases ha

/-- Whatever merge hits no limit, its forest keeps what matched declarations have in common. -/
private theorem intersected_of_merges (hconsistent : sides.Consistent) (hfirst : sides.first.Regular)
    (hsecond : sides.second.Regular) {cache after : Cache} (hexact : cache.Exact sides)
    {result : MergeResult} (hmerges : sides.MergesTo cache result after 0) :
    ∃ origins, sides.Intersected origins result.forest := by
  cases hsame : sides.same with
  | true =>
    obtain ⟨tree, options, rfl⟩ := hconsistent.exists_ofTree hsame
    refine intersected_of_reflected hfirst.rooted ?_
    cases hmerges with
    | session hmerge => exact Tree.reflected_of_merge hfirst.mergeable hmerge
    | workers hschedule => exact Tree.reflected_of_schedule hfirst.mergeable hschedule
  | false =>
    obtain ⟨origins, hexactly⟩ := hmerges.tracesExactly hsame hfirst.mergeable hsecond.mergeable
      hfirst.parametersAreValues hexact
    exact ⟨origins, intersected_of_exact hsame hfirst.rooted hsecond.rooted hexactly⟩

/-- In every session that hits no limit, two lists of supertypes have in common what taking the
first equal one that is left finds: places in order, each with an equal supertype of its own on the
second side, such that nothing is left on one side that equals something left on the other, and as
many places when the sides are exchanged. The same holds of constructors. Two trees that are read
from sources are merged, and if no limit is hit, the shared node of two classes, or of two aliases,
holds exactly the items at these places, and the nodes of the sides all that they declare. This
holds of a merge in one session, and of a merge by workers in any order. -/
theorem intersections_kept (sides : Sides) (hconsistent : sides.Consistent)
    {firsts seconds : List Source} (hfirst : Tree.ofSources firsts = .ok sides.first)
    (hsecond : Tree.ofSources seconds = .ok sides.second) :
    ((∀ a b, sides.EndsQuietly (typesAgree sides sides.shareable a b) fun yes =>
        yes = true ↔ sides.TypesAgree sides.Shareable a b) ∧
      ∀ as bs, sides.Intersects (sides.TypesAgree sides.Shareable)
        (fun sides => sharedSupertypes sides sides.shareable) as bs
        (sides.commonSupertypes as bs)) ∧
    ((∀ a b, sides.EndsQuietly (constructorsAgree sides sides.shareable a b) fun yes =>
        yes = true ↔ sides.ConstructorsAgree sides.Shareable a b) ∧
      ∀ as bs, sides.Intersects (sides.ConstructorsAgree sides.Shareable)
        (fun sides => sharedConstructors sides sides.shareable) as bs
        (sides.commonConstructors as bs)) ∧
    ∀ cache, cache.Exact sides →
      (∃ result session, sides.merge cache = .ok (result, session) ∧
        (session.limitHits = 0 → ∃ origins, sides.Intersected origins result.forest)) ∧
      ∀ after ended, Task.Schedule (cache, sides.mergeTask) (after, .done ended) →
        ∃ nodes rejections, ended.outcome = .ok (nodes, rejections) ∧
          (ended.limitHits = 0 → ∃ origins, sides.Intersected origins ⟨nodes⟩) := by
  have hregularA := Tree.regular_of_ofSources hfirst
  have hregularB := Tree.regular_of_ofSources hsecond
  refine ⟨⟨sides.types_end_quietly, sides.supertypes_intersect⟩,
    ⟨sides.constructors_end_quietly, sides.constructors_intersect⟩, fun cache hexact => ?_⟩
  have hsucceeds := (mergeable_of_regular hconsistent hregularA hregularB).merge_succeeds cache
  constructor
  · obtain ⟨result, session, hmerge⟩ := hsucceeds.session
    refine ⟨result, session, hmerge, fun hlimit => ?_⟩
    exact intersected_of_merges hconsistent hregularA hregularB hexact (.session hmerge rfl hlimit)
  · intro after ended hschedule
    obtain ⟨_, hnext⟩ | ⟨nodes, rejections, limitHits, hdone⟩ := hsucceeds.workers _ _ hschedule
    · cases hnext
    cases hdone
    refine ⟨nodes, rejections, rfl, fun hlimit => ?_⟩
    obtain rfl : limitHits = 0 := hlimit
    have hmerges : sides.MergesTo cache ⟨⟨nodes⟩, rejections⟩ after 0 := .workers hschedule
    exact intersected_of_merges hconsistent hregularA hregularB hexact hmerges

section Repeated

/-- A class with some supertypes. -/
private def inheriting (supertypes : List String) : Source :=
  let named (name : String) : Ty Spelling := .simple ⟨⟨some ⟨name⟩, none⟩, [], false, false, none⟩
  .mk ⟨"m"⟩ .everyone .final .plain (.module ⟨none⟩)
    [.mk ⟨"p"⟩ .everyone .final .plain .package
      [.mk ⟨"C"⟩ .everyone .final .plain
        (.classType { ClassInfo.ofKind .ordinary with supertypes := supertypes.map named }) []]]

private def inheritingTree (supertypes : List String) : Tree :=
  (Tree.ofSources [inheriting supertypes]).toOption.getD .empty

/-- Of three supertypes, two of which are the same, a class has two in common with a class that has
each of them once, in the other order. -/
theorem repeated_supertype_dropped :
    let first := inheritingTree ["kotlin.A", "kotlin.A", "kotlin.B"]
    let second := inheritingTree ["kotlin.B", "kotlin.A"]
    let sides := ofTrees first second ⟨["kotlin"], [], false, 100, 1000000⟩
    let supertypes (tree : Tree) := ((tree.declaration ⟨2⟩).payload.class?.map (·.supertypes)).getD []
    sides.commonSupertypes (supertypes first) (supertypes second) = [0, 2] ∧
      ∃ result session origins, sides.merge .empty = .ok (result, session) ∧ session.limitHits = 0 ∧
        sides.Intersected origins result.forest := by
  intro first second sides supertypes
  have hfirst : Tree.ofSources [inheriting ["kotlin.A", "kotlin.A", "kotlin.B"]] = .ok sides.first := by
    decide +kernel
  have hsecond : Tree.ofSources [inheriting ["kotlin.B", "kotlin.A"]] = .ok sides.second := by
    decide +kernel
  have hconsistent : sides.Consistent := fun hsame => absurd hsame Bool.false_ne_true
  obtain ⟨⟨-, hsupertypes⟩, -, hmerges⟩ := intersections_kept sides hconsistent hfirst hsecond
  obtain ⟨⟨result, session, hmerge, hintersected⟩, -⟩ := hmerges .empty nofun
  have hquiet : (sides.merge .empty).toOption.map (·.2.limitHits) = some 0 := by decide +kernel
  have hlimit : session.limitHits = 0 := by
    rw [hmerge] at hquiet
    exact Option.some.inj hquiet
  obtain ⟨origins, hintersected⟩ := hintersected hlimit
  refine ⟨?_, result, session, origins, hmerge, hlimit, hintersected⟩
  let before : Session := .new sides.options .empty
  let found := (sharedSupertypes sides sides.shareable (supertypes first) (supertypes second)).run before
  have hfound : found.1 = [0, 2] ∧ found.2.limitHits = 0 := by decide +kernel
  exact ((hsupertypes _ _).found before (Quiet.mk nofun rfl hfound.2)).symm.trans hfound.1

end Repeated

end Sides

end Concord
