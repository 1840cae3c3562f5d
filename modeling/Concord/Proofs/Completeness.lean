import Concord.Proofs.ContainingClasses
import Concord.Proofs.Merge.Surroundings
import Concord.Proofs.Reflexivity

namespace Concord

namespace Sides

section Read

variable {sides : Sides} (hconsistent : sides.Consistent) {firsts seconds : List Source}
  (hfirst : Tree.ofSources firsts = .ok sides.first)
  (hsecond : Tree.ofSources seconds = .ok sides.second)
  (huniqueA : sides.first.NamesUnique) (huniqueB : sides.second.NamesUnique)
include hconsistent hfirst hsecond huniqueA huniqueB

/-- The outcome of a merge is written exactly when every classifier that shared data names has a
shared node or is built in. -/
private theorem MergesTo.write_succeeds_iff {cache after : Cache} {result : MergeResult}
    {limitHits : Nat} (hmerges : sides.MergesTo cache result after limitHits) (counts : CacheCounts) :
    (sides.write result counts).Succeeds ↔ result.forest.Closed sides.options .common := by
  have hregularA := Tree.regular_of_ofSources hfirst
  have hregularB := Tree.regular_of_ofSources hsecond
  obtain ⟨origins, htraces⟩ := (mergeable_of_regular hconsistent hregularA hregularB).traces hmerges
  have horderly := htraces.orderly hregularA hregularB huniqueA huniqueB
  have hroots := htraces.roots_modules hregularA hregularB
  rw [Sides.write_succeeds_iff, Placement.fill_succeeds_iff horderly hroots]
  refine ⟨fun hall => hall .common, fun hcommon output => ?_⟩
  by_cases houtput : output = .common
  · exact houtput ▸ hcommon
  · exact htraces.closed hfirst hsecond sides.options houtput

/-- What a merge that hits no limit shares is closed, if one tree is compared with itself or all
that can be shared is sheltered. The comparison of two classes looks at the classes around them, so
that a shared class has a shared node as soon as their packages have. The comparison of two type
aliases does not look around them. -/
private theorem MergesTo.closed {cache after : Cache} (hexact : cache.Exact sides) {result : MergeResult}
    (hmerges : sides.MergesTo cache result after 0) (hassumed : sides.same = true ∨ sides.Sheltered) :
    result.forest.Closed sides.options .common := by
  have hregularA := Tree.regular_of_ofSources hfirst
  have hregularB := Tree.regular_of_ofSources hsecond
  cases hsame : sides.same with
  | true =>
    obtain ⟨tree, options, rfl⟩ := hconsistent.exists_ofTree hsame
    exact (Tree.keptBy_of_merges hregularA.mergeable ⟨_, _, _, _, hmerges⟩).closed_common hfirst
  | false =>
    have hsheltered : sides.Sheltered := hassumed.resolve_left fun h => by rw [hsame] at h; cases h
    obtain ⟨origins, htraces⟩ := hmerges.tracesExactly hsame hregularA.mergeable hregularB.mergeable
      hregularA.parametersAreValues hexact
    exact hsheltered.closed hsame hfirst hsecond huniqueA huniqueB htraces

end Read

/-- Two trees that are read from sources are merged. If their names are unique and no limit is hit,
a run over them succeeds exactly when every classifier that shared data names has a shared node or
is built in. It does so when one tree is compared with itself. It also does when aliases that can be
shared are nested in classes that can be, or in none, the packages of what can be shared are not
private and belong to modules of one name that are not private, and no alias spelling has an alias
spelling. All this holds of a run in one session, and of writing what workers merge in any order. -/
theorem run_succeeds_of_sheltered (sides : Sides) (hconsistent : sides.Consistent)
    {firsts seconds : List Source} (hfirst : Tree.ofSources firsts = .ok sides.first)
    (hsecond : Tree.ofSources seconds = .ok sides.second)
    (huniqueA : sides.first.NamesUnique) (huniqueB : sides.second.NamesUnique) :
    (∃ result session, sides.merge .empty = .ok (result, session) ∧
      (session.limitHits = 0 →
        (sides.run.Succeeds ↔ result.forest.Closed sides.options .common) ∧
        (sides.same = true ∨ sides.Sheltered → sides.run.Succeeds))) ∧
    sides.MergeSucceeds .empty ∧
    ∀ result after, sides.MergesTo .empty result after 0 →
      ((sides.write result after.counts).Succeeds ↔ result.forest.Closed sides.options .common) ∧
      (sides.same = true ∨ sides.Sheltered → (sides.write result after.counts).Succeeds) := by
  have hregularA := Tree.regular_of_ofSources hfirst
  have hregularB := Tree.regular_of_ofSources hsecond
  have hsucceeds := (mergeable_of_regular hconsistent hregularA hregularB).merge_succeeds .empty
  have hexact : Cache.empty.Exact sides := nofun
  have hwritten (result : MergeResult) (after : Cache)
      (hmerges : sides.MergesTo .empty result after 0) :
      ((sides.write result after.counts).Succeeds ↔ result.forest.Closed sides.options .common) ∧
      (sides.same = true ∨ sides.Sheltered → (sides.write result after.counts).Succeeds) := by
    have hiff := hmerges.write_succeeds_iff hconsistent hfirst hsecond huniqueA huniqueB after.counts
    refine ⟨hiff, fun hassumed => hiff.mpr ?_⟩
    exact hmerges.closed hconsistent hfirst hsecond huniqueA huniqueB hexact hassumed
  refine ⟨?_, hsucceeds, hwritten⟩
  obtain ⟨result, session, hmerge⟩ := hsucceeds.session
  refine ⟨result, session, hmerge, fun hlimit => ?_⟩
  rw [run_of_merge hmerge]
  exact hwritten result session.cache (.session hmerge rfl hlimit)

private def typeOf (name : String) (spelling : Option (SimpleType Spelling)) : SimpleType Spelling :=
  ⟨⟨some ⟨name⟩, none⟩, [], false, false, spelling⟩

/-- A function that returns a type. -/
private def functionOf (result : SimpleType Spelling) : Source :=
  .mk ⟨"f"⟩ .everyone .final .plain
    (.function ⟨.simple result, none, [], false, false, false, false⟩) []

private def classOf (name : String) (kind : ClassKind) (members : List Source) : Source :=
  .mk ⟨name⟩ .everyone .final .plain (.classType (.ofKind kind)) members

/-- A module with a package. -/
private def inModule (moduleName packageName : String) (members : List Source) : Source :=
  .mk ⟨moduleName⟩ .everyone .final .plain (.module ⟨none⟩)
    [.mk ⟨packageName⟩ .everyone .final .plain .package members]

private def runOver (firsts seconds : List Source) : Except RunError Unit :=
  let read (sources : List Source) := (Tree.ofSources sources).toOption.getD .empty
  (ofTrees (read firsts) (read seconds) ⟨["kotlin", "kotlinx"], [], false, 100, 1000000⟩).run.map
    fun _ => ()

/-- The packages of a class have to belong to modules of one name: two classes of one name match
from wherever they are, but only what stands in one place is merged. -/
example :
    let scattered (moduleName : String) := [inModule moduleName "p" [classOf "C" .ordinary []],
      inModule "m" "q" [functionOf (typeOf "p.C" none)]]
    runOver (scattered "a") (scattered "b") =
      .error (.missingClassifier ⟨"p.C"⟩ .common .filling) := by
  decide +kernel

/-- Alias spellings may not have alias spellings: comparisons read the outermost one, and shared
data keeps the innermost one. -/
example :
    let spelled (spelling : Option (SimpleType Spelling)) :=
      functionOf (typeOf "kotlin.Int" (some (typeOf "kotlin.X" spelling)))
    runOver [inModule "m" "p" [classOf "C" .ordinary [], spelled (some (typeOf "p.C" none))]]
      [inModule "m" "p" [spelled none]] = .error (.missingClassifier ⟨"p.C"⟩ .common .filling) := by
  decide +kernel

/-- A class `Box` of some kind with a nested alias `A`, and a function that returns `A`. -/
private def boxed (kind : ClassKind) : Source :=
  inModule "m" "p" [classOf "Box" kind [.mk ⟨"A"⟩ .everyone .final .plain
    (.typeAlias ⟨.simple (typeOf "kotlin.Int" none), none, []⟩) []], functionOf (typeOf "p.Box.A" none)]

private def boxes (kind : ClassKind) : Tree :=
  (Tree.ofSources [boxed kind]).toOption.getD .empty

private theorem boxes_read : Tree.ofSources [boxed .ordinary] = .ok (boxes .ordinary) ∧
    Tree.ofSources [boxed .object] = .ok (boxes .object) := by
  decide +kernel

private theorem boxes_unique : (boxes .ordinary).NamesUnique ∧ (boxes .object).NamesUnique :=
  ⟨Tree.namesUnique_of_nodup (by decide +kernel), Tree.namesUnique_of_nodup (by decide +kernel)⟩

/-- Boxes on the first side that are ordinary, and boxes of some kind on the second. -/
private def boxSides (kind : ClassKind) : Sides :=
  ofTrees (boxes .ordinary) (boxes kind) ⟨["kotlin", "kotlinx"], [], false, 100, 1000000⟩

private theorem boxSides_merged (kind : ClassKind)
    (hquiet : ((boxSides kind).merge .empty).toOption.map (·.2.limitHits) = some 0) :
    ∃ result session, (boxSides kind).merge .empty = .ok (result, session) ∧ session.limitHits = 0 := by
  obtain ⟨⟨result, session⟩, hmerge, hlimit⟩ := Option.map_eq_some_iff.mp hquiet
  exact ⟨result, session, Except.toOption_eq_some.mp hmerge, hlimit⟩

private theorem boxes_all {P : DeclId → Declaration → Prop}
    (hentries : ∀ entry ∈ (boxes .ordinary).entries, P entry.1 entry.2)
    (hunknown : ∀ id, P id default) (id : DeclId) : P id ((boxes .ordinary).declaration id) := by
  cases hget : (boxes .ordinary).get? id with
  | none =>
    rw [Tree.declaration, hget]
    exact hunknown id
  | some declaration =>
    rw [Tree.declaration_of_get? hget]
    exact hentries _ (Tree.mem_entries.mpr hget)

private theorem boxSides_same {a b p q : DeclId} (hshare : (boxSides .ordinary).Shareable a b)
    (hA : (boxes .ordinary).container? a = some p) (hB : (boxes .ordinary).container? b = some q) :
    a = b := by
  obtain ⟨declA, hA, -⟩ := Tree.container?_eq_some.mp hA
  obtain ⟨declB, hB, -⟩ := Tree.container?_eq_some.mp hB
  have hnames : ((boxes .ordinary).declaration a).qualifiedName =
      ((boxes .ordinary).declaration b).qualifiedName := hshare.classifiersMatch.names
  rw [Tree.declaration_of_get? hA, Tree.declaration_of_get? hB] at hnames
  have hnodup : ((boxes .ordinary).entries.map (·.2.qualifiedName)).Nodup := by decide +kernel
  exact congrArg Prod.fst (List.inj_on_of_nodup_map hnodup (Tree.mem_entries.mpr hA)
    (Tree.mem_entries.mpr hB) hnames)

/-- In two copies of the ordinary boxes only what bears one name can be shared, so that all of it
stands in surroundings that match. -/
private theorem boxSides_sheltered : (boxSides .ordinary).Sheltered where
  aliases a b hkind hshare := by
    have halias : ∀ id, ((boxes .ordinary).declaration id).kind = .typeAlias → id = ⟨3⟩ :=
      boxes_all (P := fun id declaration => declaration.kind = .typeAlias → id = ⟨3⟩)
        (by decide +kernel) fun _ => nofun
    obtain rfl := halias a hkind
    obtain rfl := halias b (hshare.classifiersMatch.kinds.symm.trans hkind)
    have haround : (boxes .ordinary).enclosingClass? ⟨3⟩ = some (⟨2⟩, .ofKind .ordinary) := by
      decide +kernel
    have hbox : (boxSides .ordinary).FoundShareable ⟨2⟩ ⟨2⟩ := ⟨[], by decide +kernel⟩
    exact .nested haround haround hbox.shareable
  packages a b p q hshare hA hB _ := by
    obtain rfl := boxSides_same hshare hA hB
    cases hA.symm.trans hB
    have hvisible : ∀ id, ((boxes .ordinary).declaration id).data.visibility.isPrivate = false :=
      boxes_all (P := fun _ declaration => declaration.data.visibility.isPrivate = false)
        (by decide +kernel) fun _ => rfl
    refine ⟨⟨hvisible p, hvisible p⟩, fun m n hm hn => ?_⟩
    cases hm.symm.trans hn
    exact ⟨rfl, hvisible m, hvisible m⟩
  spellings := boxes_all
    (P := fun _ declaration => ∀ type ∈ declaration.payload.types, type.spelledOnce = true)
    (by decide +kernel) fun _ => nofun

/-- The aliases of two copies of the ordinary boxes have a shared node, as the boxes around them
have. So the run succeeds, and what workers merge one after the other is written. -/
theorem nested_alias_sheltered :
    let workers := (boxSides .ordinary).mergeTask.inOrder .empty
    Tree.ofSources [boxed .ordinary] = .ok (boxSides .ordinary).first ∧
      (boxSides .ordinary).Sheltered ∧ (boxSides .ordinary).run.Succeeds ∧
      ∃ nodes rejections, workers.2.outcome = .ok (nodes, rejections) ∧
        ((boxSides .ordinary).write ⟨⟨nodes⟩, rejections⟩ workers.1.counts).Succeeds := by
  intro workers
  obtain ⟨⟨result, session, hmerge, hends⟩, hsucceeds, hwritten⟩ :=
    run_succeeds_of_sheltered (boxSides .ordinary) nofun boxes_read.1 boxes_read.1 boxes_unique.1
      boxes_unique.1
  obtain ⟨result', session', hmerge', hquiet⟩ := boxSides_merged .ordinary (by decide +kernel)
  rw [hmerge] at hmerge'
  cases hmerge'
  refine ⟨boxes_read.1, boxSides_sheltered, (hends hquiet).2 (.inr boxSides_sheltered), ?_⟩
  obtain ⟨nodes, rejections, houtcome⟩ := hsucceeds.inOrder
  have hmerges := mergesTo_inOrder houtcome
  rw [show workers.2.limitHits = 0 by decide +kernel] at hmerges
  exact ⟨nodes, rejections, houtcome, (hwritten _ _ hmerges).2 (.inr boxSides_sheltered)⟩

/-- The aliases of two boxes of different kinds match, but the boxes do not, so that the aliases
have no shared node. The function that returns them has one, and the run fails. -/
theorem nested_alias_missing :
    Tree.ofSources [boxed .ordinary] = .ok (boxSides .object).first ∧
      Tree.ofSources [boxed .object] = .ok (boxSides .object).second ∧
      (boxSides .object).first.NamesUnique ∧ (boxSides .object).second.NamesUnique ∧
      (∃ result session, (boxSides .object).merge .empty = .ok (result, session) ∧
        session.limitHits = 0) ∧
      ((boxSides .object).run.map fun _ => ()) =
        .error (.missingClassifier ⟨"p.Box.A"⟩ .common .filling) :=
  ⟨boxes_read.1, boxes_read.2, boxes_unique.1, boxes_unique.2, boxSides_merged .object (by decide +kernel),
    by decide +kernel⟩

end Sides

end Concord
