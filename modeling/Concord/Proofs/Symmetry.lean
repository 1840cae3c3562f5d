import Concord.Proofs.Merge.Exact
import Concord.Proofs.Merge.MatchedPairs
import Concord.Proofs.Source.Reading

namespace Concord

open Origin (walkAll)

namespace MergedNode

/-- What some nodes hold on one side and not on the other. -/
def aloneData (side other : Output) (nodes : List MergedNode) : List Data :=
  (walkAll nodes).filterMap fun node =>
    match node.payloads.get other with
    | some _ => none
    | none => node.payloads.get side

/-- Items that hold something hold it shared or alone. -/
private theorem filterMap_perm_split {α β γ : Type} {held alone : α → Option β}
    {shared : α → Option γ} {part : γ → β} (hsplit : ∀ item,
      held item = ((shared item).map part).or (alone item) ∧
        ((shared item).isNone || (alone item).isNone) = true) (items : List α) :
    (items.filterMap held).Perm ((items.filterMap shared).map part ++ items.filterMap alone) := by
  induction items with
  | nil => exact .refl _
  | cons item items ih =>
    obtain ⟨hheld, hone⟩ := hsplit item
    rw [List.filterMap_cons, List.filterMap_cons, List.filterMap_cons, hheld]
    cases hshared : shared item with
    | some both =>
      rw [hshared] at hone
      rw [Option.isNone_iff_eq_none.mp hone]
      exact ih.cons _
    | none =>
      cases alone item with
      | none => exact ih
      | some data => exact (ih.cons data).trans List.perm_middle.symm

/-- What the first side declares is shared or stands alone. -/
theorem firsts_perm_split (nodes : List MergedNode) :
    ((walkAll nodes).filterMap (·.payloads.first)).Perm
      ((sharedData nodes).map Prod.fst ++ aloneData .first .second nodes) := by
  refine filterMap_perm_split (fun node => ?_) (walkAll nodes)
  obtain ⟨⟨first, common, second⟩, children⟩ := node
  cases first <;> cases second <;> exact ⟨rfl, rfl⟩

/-- What the second side declares is shared or stands alone. -/
theorem seconds_perm_split (nodes : List MergedNode) :
    ((walkAll nodes).filterMap (·.payloads.second)).Perm
      ((sharedData nodes).map Prod.snd ++ aloneData .second .first nodes) := by
  refine filterMap_perm_split (fun node => ?_) (walkAll nodes)
  obtain ⟨⟨first, common, second⟩, children⟩ := node
  cases first <;> cases second <;> exact ⟨rfl, rfl⟩

end MergedNode

namespace Sides

variable {sides : Sides} {origins : List Origin} {forest : MergedForest}

private theorem declared_firsts (hforest : forest.roots = Origin.nodes sides origins) :
    (MergedNode.walkAll forest.roots).filterMap (·.payloads.first) =
      ((walkAll origins).filterMap Origin.first?).filterMap sides.first.detached? := by
  rw [hforest, Origin.walkAll_nodes, List.filterMap_map, List.filterMap_filterMap]
  exact List.filterMap_congr fun origin _ => by
    rw [Function.comp_apply, Origin.node_payloads]

private theorem declared_seconds (hforest : forest.roots = Origin.nodes sides origins) :
    (MergedNode.walkAll forest.roots).filterMap (·.payloads.second) =
      ((walkAll origins).filterMap Origin.second?).filterMap sides.second.detached? := by
  rw [hforest, Origin.walkAll_nodes, List.filterMap_map, List.filterMap_filterMap]
  exact List.filterMap_congr fun origin _ => by
    rw [Function.comp_apply, Origin.node_payloads]

/-- Merges that pair the same declarations the other way round leave the same data alone: what only
the first side of one declares, only the second side of the other does. -/
theorem Accounts.alone_perm {origins' : List Origin} {forest' : MergedForest}
    {pairs pairs' : List Pair}
    (haccounts : sides.Accounts origins) (haccounts' : sides.swap.Accounts origins')
    (hforest : forest.roots = Origin.nodes sides origins)
    (hforest' : forest'.roots = Origin.nodes sides.swap origins')
    (hnotes : sides.Notes forest pairs) (hnotes' : sides.swap.Notes forest' pairs')
    (hpairs : pairs'.Perm (pairs.map Prod.swap)) :
    (MergedNode.aloneData .first .second forest.roots).Perm
      (MergedNode.aloneData .second .first forest'.roots) := by
  have hids : ((walkAll origins).filterMap Origin.first?).Perm
      ((walkAll origins').filterMap Origin.second?) := by
    refine (List.perm_ext_iff_of_nodup haccounts.firsts.1 haccounts'.seconds.1).mpr fun a => ?_
    exact (haccounts.firsts.2 a).trans (haccounts'.seconds.2 a).symm
  have hdeclared : ((MergedNode.walkAll forest.roots).filterMap (·.payloads.first)).Perm
      ((MergedNode.walkAll forest'.roots).filterMap (·.payloads.second)) := by
    rw [declared_firsts hforest, declared_seconds hforest']
    exact hids.filterMap _
  have hshared : ((MergedNode.sharedData forest'.roots).map Prod.snd).Perm
      ((MergedNode.sharedData forest.roots).map Prod.fst) := by
    rw [hnotes.shared, hnotes'.shared, List.map_map, List.map_map]
    exact (hpairs.map _).trans (.of_eq List.map_map)
  have hboth := ((MergedNode.firsts_perm_split _).symm.trans hdeclared).trans
    (MergedNode.seconds_perm_split _)
  exact (List.perm_append_left_iff _).mp (hboth.trans (hshared.append_right _))

/-- Merges that hit no limit note the same pairs, each the other way round. -/
theorem Notes.perm_swap {forest' : MergedForest} {pairs pairs' : List Pair}
    (hdistinct : sides.same = false) (hnotes : sides.Notes forest pairs)
    (hnotes' : sides.swap.Notes forest' pairs') : pairs'.Perm (pairs.map Prod.swap) := by
  have hnodup : pairs.Nodup := hnotes.distinct.of_map
  refine (List.perm_ext_iff_of_nodup hnotes'.distinct.of_map
    (hnodup.map Prod.swap_injective)).mpr fun pair => ?_
  rw [hnotes'.matched, List.mem_map]
  constructor
  · intro hmatched
    have hswapped := hmatched.swap (show sides.swap.same = false from hdistinct)
    exact ⟨pair.swap, (hnotes.matched _).mpr hswapped, pair.swap_swap⟩
  · rintro ⟨other, hother, rfl⟩
    exact ((hnotes.matched other).mp hother).swap hdistinct

/-- A forest for some sides and one for the sides exchanged, in which the same declarations stand
together, each the other way round: those that match. What only one side declares in the one, only
the other side declares in the other. -/
structure Converse (sides : Sides) (forest forest' : MergedForest) (pairs pairs' : List Pair) :
    Prop where
  notes : sides.Notes forest pairs
  notes' : sides.swap.Notes forest' pairs'
  together : ∀ a b, (a, b) ∈ pairs ↔ (b, a) ∈ pairs'
  firstsAlone : ∀ a, (∀ b, (a, b) ∉ pairs) ↔ ∀ b, (b, a) ∉ pairs'
  secondsAlone : ∀ b, (∀ a, (a, b) ∉ pairs) ↔ ∀ a, (b, a) ∉ pairs'
  firstData : (MergedNode.aloneData .first .second forest.roots).Perm
    (MergedNode.aloneData .second .first forest'.roots)
  secondData : (MergedNode.aloneData .second .first forest.roots).Perm
    (MergedNode.aloneData .first .second forest'.roots)

/-- Two forests that account for all that the trees declare are converse if in each of them what
matches stands together. -/
theorem Notes.converse {origins' : List Origin} {forest' : MergedForest} {pairs pairs' : List Pair}
    (hdistinct : sides.same = false) (hnotes : sides.Notes forest pairs)
    (hnotes' : sides.swap.Notes forest' pairs')
    (haccounts : sides.Accounts origins) (haccounts' : sides.swap.Accounts origins')
    (hforest : forest.roots = Origin.nodes sides origins)
    (hforest' : forest'.roots = Origin.nodes sides.swap origins') :
    sides.Converse forest forest' pairs pairs' := by
  have hdistinct' : sides.swap.same = false := hdistinct
  have hperm := hnotes.perm_swap hdistinct hnotes'
  have hperm' := hnotes'.perm_swap hdistinct' hnotes
  have hmem (a b : DeclId) : (a, b) ∈ pairs ↔ (b, a) ∈ pairs' := by
    rw [hnotes.matched, hnotes'.matched]
    exact ⟨fun hmatched => hmatched.swap hdistinct, fun hmatched => hmatched.swap hdistinct'⟩
  refine ⟨hnotes, hnotes', hmem, fun a => ?_, fun b => ?_, ?_, ?_⟩
  · exact forall_congr' fun b => not_congr (hmem a b)
  · exact forall_congr' fun a => not_congr (hmem a b)
  · exact haccounts.alone_perm haccounts' hforest hforest' hnotes hnotes' hperm
  · exact (haccounts'.alone_perm haccounts hforest' hforest hnotes' hnotes hperm').symm

/-- Where trees are merged exactly, what stands together is what matches. -/
theorem TracesExactly.notes (htraces : sides.TracesExactly origins forest)
    (haccounts : sides.Accounts origins) (hfirst : sides.first.Rooted) (hsecond : sides.second.Rooted) :
    sides.Notes forest (Origin.pairs origins) where
  matched := htraces.mem_pairs_iff
  distinct := by
    have hfirsts := List.pairwise_filterMap.mp haccounts.firsts.1
    refine List.pairwise_map.mpr (List.pairwise_filterMap.mpr (hfirsts.imp ?_))
    intro origin other hne pair hpair pair' hpair'
    exact hne _ (Prod.mk.inj (Origin.pair?_eq_some.mp hpair)).1 _
      (Prod.mk.inj (Origin.pair?_eq_some.mp hpair')).1
  shared := by
    rw [MergedNode.sharedData, htraces.nodes, Origin.walkAll_nodes, List.filterMap_map, Origin.pairs,
      List.map_filterMap]
    refine List.filterMap_congr fun origin horigin => ?_
    rw [Function.comp_apply, MergedNode.both?, Origin.node_payloads]
    cases htraces.exact origin horigin with
    | @first a children _ =>
      cases hdata : sides.first.detached? a <;> simp [Origin.first?, Origin.second?, Origin.pair?, hdata]
    | @second b children _ => rfl
    | @shared a b children _ _ =>
      have hknownA := haccounts.known_first hfirst horigin rfl
      have hknownB := haccounts.known_second hsecond horigin rfl
      simp [Origin.first?, Origin.second?, Origin.pair?, dataOf, Tree.detached?_of_known hknownA,
        Tree.detached?_of_known hknownB]

/-- The pairs of declarations that a merge makes one. -/
def mergedPairs (sides : Sides) : Except RunError (List Pair) :=
  (sides.mergeNoting .empty).map fun merged => merged.1.2

/-- Two forests of declarations are merged, and the merge notes what matches unless it hits a limit. -/
private theorem merge_noted (hmergeable : sides.Mergeable) : ∃ result session pairs origins,
    sides.merge .empty = .ok (result, session) ∧ sides.mergedPairs = .ok pairs ∧
      result.forest.roots = Origin.nodes sides origins ∧ sides.Accounts origins ∧
      (session.limitHits = 0 → sides.Notes result.forest pairs) := by
  obtain ⟨result, session, hmerge⟩ := (hmergeable.merge_succeeds .empty).session
  obtain ⟨origins, htraces⟩ := hmergeable.traces (.session hmerge rfl rfl)
  have haccounts := htraces.accounts hmergeable.first.rooted hmergeable.second.rooted
  have hforgets := sides.mergeNoting_forgets .empty
  rw [hmerge] at hforgets
  generalize hnoting : sides.mergeNoting .empty = outcome at hforgets
  cases hforgets with
  | @success noted _ halike pairs session =>
    refine ⟨result, session, pairs, origins, hmerge, ?_, htraces.nodes, haccounts, fun hlimit => ?_⟩
    · rw [mergedPairs, hnoting]
      rfl
    · have hexact : Cache.empty.Exact sides := nofun
      rw [← halike.1]
      exact mergeNoting_notes hmergeable.first hexact hnoting hlimit

/-- Two trees that are read from sources are merged either way round. If neither merge hits a limit,
they pair the same declarations, and what is declared on one side only in the one is declared on the
other side only in the other. This holds of the pairs that merges in one session note, and of the
pairs that stand together after any two merges over exact caches, be it in one session or by workers
in any order. -/
theorem merge_symmetric {firsts seconds : List Source} {first second : Tree}
    (hfirst : Tree.ofSources firsts = .ok first) (hsecond : Tree.ofSources seconds = .ok second)
    (options : CompiledOptions) :
    let sides := ofTrees first second options
    let swapped := ofTrees second first options
    (∃ result session pairs result' session' pairs',
      sides.merge .empty = .ok (result, session) ∧ sides.mergedPairs = .ok pairs ∧
      swapped.merge .empty = .ok (result', session') ∧ swapped.mergedPairs = .ok pairs' ∧
      (session.limitHits = 0 → session'.limitHits = 0 →
        sides.Converse result.forest result'.forest pairs pairs')) ∧
    (∀ cache, sides.MergeSucceeds cache ∧ swapped.MergeSucceeds cache) ∧
    ∀ cache cache' result result' after after', cache.Exact sides → cache'.Exact swapped →
      sides.MergesTo cache result after 0 → swapped.MergesTo cache' result' after' 0 →
      ∃ origins origins', result.forest.roots = Origin.nodes sides origins ∧ sides.Accounts origins ∧
        result'.forest.roots = Origin.nodes swapped origins' ∧ swapped.Accounts origins' ∧
        sides.Converse result.forest result'.forest (Origin.pairs origins) (Origin.pairs origins') := by
  intro sides swapped
  have hregularA := Tree.regular_of_ofSources hfirst
  have hregularB := Tree.regular_of_ofSources hsecond
  have hmergeable : sides.Mergeable := mergeable_of_regular nofun hregularA hregularB
  have hmergeable' : swapped.Mergeable := mergeable_of_regular nofun hregularB hregularA
  refine ⟨?_, fun cache => ⟨hmergeable.merge_succeeds cache, hmergeable'.merge_succeeds cache⟩, ?_⟩
  · obtain ⟨result, session, pairs, origins, hmerge, hpairs, hforest, haccounts, hnotes⟩ :=
      merge_noted hmergeable
    obtain ⟨result', session', pairs', origins', hmerge', hpairs', hforest', haccounts', hnotes'⟩ :=
      merge_noted hmergeable'
    refine ⟨result, session, pairs, result', session', pairs', hmerge, hpairs, hmerge', hpairs',
      fun hlimit hlimit' => ?_⟩
    exact (hnotes hlimit).converse rfl (hnotes' hlimit') haccounts haccounts' hforest hforest'
  · intro cache cache' result result' after after' hexact hexact' hmerges hmerges'
    have hrootedA := hmergeable.first.rooted
    have hrootedB := hmergeable.second.rooted
    obtain ⟨origins, hexactly⟩ := hmerges.tracesExactly rfl hmergeable.first hmergeable.second
      hregularA.parametersAreValues hexact
    obtain ⟨origins', hexactly'⟩ := hmerges'.tracesExactly rfl hmergeable'.first hmergeable'.second
      hregularB.parametersAreValues hexact'
    have haccounts := (hexactly.traces rfl).accounts hrootedA hrootedB
    have haccounts' := (hexactly'.traces rfl).accounts hrootedB hrootedA
    have hnotes := hexactly.notes haccounts hrootedA hrootedB
    have hnotes' := hexactly'.notes haccounts' hrootedB hrootedA
    exact ⟨origins, origins', hexactly.nodes, haccounts, hexactly'.nodes, haccounts',
      hnotes.converse rfl hnotes' haccounts haccounts' hexactly.nodes hexactly'.nodes⟩

/-- A function `f` with a parameter of some type. -/
private def overload (type : QualifiedName) : Source :=
  let typeOf (name : QualifiedName) : Ty Spelling :=
    .simple ⟨⟨some name, none⟩, [], false, false, none⟩
  .mk ⟨"f"⟩ .everyone .final .plain
    (.function ⟨typeOf ⟨"kotlin.Unit"⟩, none, [], false, false, false, false⟩)
    [.mk ⟨"x"⟩ .everyone .final .plain (.value ⟨typeOf type, false, false⟩) []]

private def packageOf (members : List Source) : Source :=
  .mk ⟨"m"⟩ .everyone .final .plain (.module ⟨none⟩) [.mk ⟨"p"⟩ .everyone .final .plain .package members]

private def overloads (types : List QualifiedName) : Tree :=
  (Tree.ofSources [packageOf (types.map overload)]).toOption.getD .empty

private def intsFirst : Tree := overloads [⟨"kotlin.Int"⟩, ⟨"kotlin.String"⟩]

private def stringsFirst : Tree := overloads [⟨"kotlin.String"⟩, ⟨"kotlin.Long"⟩]

private theorem overloads_read :
    Tree.ofSources [packageOf ([⟨"kotlin.Int"⟩, ⟨"kotlin.String"⟩].map overload)] = .ok intsFirst ∧
      Tree.ofSources [packageOf ([⟨"kotlin.String"⟩, ⟨"kotlin.Long"⟩].map overload)] =
        .ok stringsFirst := by
  decide +kernel

private def plainly : CompiledOptions := ⟨["kotlin"], [], true, 100, 1000000⟩

/-- The second overload of one tree and the first of the other match either way round, with their
parameters, and the other overloads stay alone. So it is when workers merge the trees the other way
round. -/
theorem overloads_symmetric :
    let sides := ofTrees intsFirst stringsFirst plainly
    let swapped := ofTrees stringsFirst intsFirst plainly
    ∃ result session pairs result' session' pairs',
      sides.merge .empty = .ok (result, session) ∧ sides.mergedPairs = .ok pairs ∧
      swapped.merge .empty = .ok (result', session') ∧ swapped.mergedPairs = .ok pairs' ∧
      session.limitHits = 0 ∧ session'.limitHits = 0 ∧
      pairs = [(⟨0⟩, ⟨0⟩), (⟨1⟩, ⟨1⟩), (⟨4⟩, ⟨2⟩), (⟨5⟩, ⟨3⟩)] ∧
      (⟨2⟩, ⟨4⟩) ∈ pairs' ∧ (∀ b, (b, ⟨2⟩) ∉ pairs') ∧
      (MergedNode.aloneData .first .second result.forest.roots).Perm
        (MergedNode.aloneData .second .first result'.forest.roots) ∧
      ∃ nodes rejections origins,
        (swapped.mergeTask.inOrder .empty).2.outcome = .ok (nodes, rejections) ∧
        nodes = Origin.nodes swapped origins ∧
        (⟨2⟩, ⟨4⟩) ∈ Origin.pairs origins ∧ ∀ b, (b, ⟨2⟩) ∉ Origin.pairs origins := by
  intro sides swapped
  obtain ⟨⟨result, session, pairs, result', session', pairs', hmerge, hpairs, hmerge', hpairs',
    hsessions⟩, hsucceeds, hmerges⟩ := merge_symmetric overloads_read.1 overloads_read.2 plainly
  have hquiet : (sides.merge .empty).toOption.map (·.2.limitHits) = some 0 := by
    decide +kernel
  have hquiet' : (swapped.merge .empty).toOption.map (·.2.limitHits) = some 0 := by
    decide +kernel
  have hnoted : sides.mergedPairs.toOption =
      some [(⟨0⟩, ⟨0⟩), (⟨1⟩, ⟨1⟩), (⟨4⟩, ⟨2⟩), (⟨5⟩, ⟨3⟩)] := by
    decide +kernel
  rw [hmerge] at hquiet
  rw [hmerge'] at hquiet'
  rw [hpairs] at hnoted
  obtain rfl := Option.some.inj hnoted
  have hlimit : session.limitHits = 0 := Option.some.inj hquiet
  have hlimit' : session'.limitHits = 0 := Option.some.inj hquiet'
  have hconverse := hsessions hlimit hlimit'
  have halone (b : DeclId) :
      ((⟨2⟩, b) : Pair) ∉ [(⟨0⟩, ⟨0⟩), (⟨1⟩, ⟨1⟩), (⟨4⟩, ⟨2⟩), (⟨5⟩, ⟨3⟩)] := by
    simp
  refine ⟨result, session, _, result', session', pairs', hmerge, hpairs, hmerge', hpairs', hlimit,
    hlimit', rfl, (hconverse.together ⟨4⟩ ⟨2⟩).mp (by decide), (hconverse.firstsAlone ⟨2⟩).mp halone,
    hconverse.firstData, ?_⟩
  obtain ⟨nodes, rejections, houtcome⟩ := (hsucceeds .empty).2.inOrder
  have hworkers := mergesTo_inOrder houtcome
  rw [show (swapped.mergeTask.inOrder .empty).2.limitHits = 0 by decide +kernel] at hworkers
  obtain ⟨origins, origins', -, -, hnodes, -, hconverse'⟩ :=
    hmerges .empty .empty _ _ _ _ nofun nofun (.session hmerge rfl hlimit) hworkers
  -- both merges of the one side note what matches
  have hsame (pair : Pair) : pair ∈ Origin.pairs origins ↔
      pair ∈ [(⟨0⟩, ⟨0⟩), (⟨1⟩, ⟨1⟩), (⟨4⟩, ⟨2⟩), (⟨5⟩, ⟨3⟩)] :=
    (hconverse'.notes.matched pair).trans (hconverse.notes.matched pair).symm
  refine ⟨nodes, rejections, origins', houtcome, hnodes, ?_, ?_⟩
  · exact (hconverse'.together ⟨4⟩ ⟨2⟩).mp ((hsame _).mpr (by decide))
  · exact (hconverse'.firstsAlone ⟨2⟩).mp fun b hb => halone b ((hsame _).mp hb)

end Sides

end Concord
