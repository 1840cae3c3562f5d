import Concord.Proofs.Comparison.Across
import Concord.Proofs.Merge.Itself
import Concord.Proofs.Merge.Restated

namespace Concord

namespace Sides

variable (sides : Sides)

/-- What two types that are equal have in common, where the cache says which classifiers match. -/
structure SpelledAlike (cache : Cache) (a b : Ty ClassifierRef) : Prop where
  compared : sides.first.typeSource a.compared = sides.second.typeSource b.compared
  collapsed : a.spelledOnce = true ∧ b.spelledOnce = true →
    sides.first.typeSource a.collapse = sides.second.typeSource b.collapse
  matched : List.Forall₂ (sides.RefsAlike cache.SaysYes) a.compared.refs b.compared.refs

/-- The types of all common nodes of a forest stand for those of the second side. -/
def SharesRestated (roots : List MergedNode) : Prop :=
  ∃ origins, roots = Origin.nodes sides origins ∧ ∀ origin ∈ Origin.walkAll origins, ∀ common,
    origin.common? = some common → ∃ a b, origin.ids = (some a, some b) ∧
      common.payload.Restates sides.StandsFor (sides.second.lentPayload b)

private theorem run_performAll_append (calls : List Call) (call : Call) (before : Session) :
    ((sides.performAll (calls ++ [call])).run before).2 =
      ((sides.perform call).run ((sides.performAll calls).run before).2).2 := by
  induction calls generalizing before with
  | nil => rfl
  | cons first calls ih => exact ih ((sides.perform first).run before).2

variable {sides} {cache : Cache}

/-- Comparisons that were begun with nothing under way leave nothing under way. -/
private theorem idle_after (calls : List Call) (cache : Cache) :
    ((sides.performAll calls).run (.new sides.options cache)).2.guard.visiting = [] := by
  refine sides.performAll_keeps (P := fun session => session.guard.visiting = [])
    (fun a b before hidle => ?_) (fun _ _ => rfl) calls _ rfl
  have hverdict := sides.services_follows.verdict before.cache a b
  exact (Session.learned hverdict hidle (.refl _)).1

section Spelled

variable (hconsistent : sides.Consistent)
  (hfilled : sides.same = false → cache.Filled sides.first sides.second)
  (hexact : sides.same = true → cache.Exact sides)
include hfilled hexact

/-- Classifiers that comparisons have found to match bear one name. -/
private theorem names_of_saysYes (calls : List Call) (x y : DeclId)
    (hyes : ((sides.performAll calls).run (.new sides.options cache)).2.cache.SaysYes x y) :
    (sides.first.declaration x).qualifiedName = (sides.second.declaration y).qualifiedName := by
  cases hsame : sides.same with
  | true =>
    obtain ⟨-, hafter⟩ := sides.performAll_keeps_exact calls (.new sides.options cache)
      ⟨rfl, hexact hsame⟩
    obtain ⟨verdict, hfind, hempty⟩ := hyes
    exact ((hafter.right_of_find? hfind).mp hempty).classifiersMatch.names
  | false =>
    obtain ⟨first, second, options, rfl⟩ := exists_ofTrees hsame
    exact (akin_of_saysYes ((hfilled rfl).calls options calls).vouches x y hyes).names

include hconsistent

/-- Types that are found to be equal are spelled alike. -/
private theorem spelledAlike_of_equal (calls : List Call) {a b : Ty ClassifierRef} (ha : a.Linked)
    (hb : b.Linked) :
    let session := ((sides.performAll calls).run (.new sides.options cache)).2
    let (equal, after) := (typesAgree sides sides.shareable a b).run session
    equal = true → sides.SpelledAlike after.cache a b := by
  intro session hequal
  have hidle : session.guard.visiting = [] := idle_after calls cache
  have hshareable := Services.shareable_decides Cache.SaysYes.stays sides.services_follows.verdict
  have hdecides := typesAgree_decides sides Cache.SaysYes.stays hshareable a b session.cache
  obtain ⟨-, -, hagree, -⟩ := Session.learned hdecides hidle (.refl _)
  have hagree := hagree hequal
  have hnames := names_of_saysYes hfilled hexact (calls ++ [.types a b])
  rw [run_performAll_append] at hnames
  exact ⟨hagree.spelled hconsistent hnames ha hb,
    fun honce => hagree.collapse_spelled hconsistent hnames ha hb honce, hagree.refs⟩

end Spelled

/-- What nodes of two trees share says the same as the second side. -/
private theorem sharesRestated_of_behind {first second : Tree} {options : CompiledOptions}
    (hlinked : first.Linked ∧ second.Linked)
    {pairs : List (Option DeclId × Option DeclId)} {roots : List MergedNode}
    (hbehind : Origin.Behind (ofTrees first second options)
      (Origin.Agreed (ofTrees first second options) (Akin first second)) pairs roots) :
    (ofTrees first second options).SharesRestated roots := by
  obtain ⟨origins, hroots, -, hagreed⟩ := hbehind
  refine ⟨origins, hroots, fun origin horigin common hcommon => ?_⟩
  cases hagreed origin horigin with
  | first a children => cases hcommon
  | second b children => cases hcommon
  | @shared a b common' children hmatches hshared _ =>
    cases hcommon
    exact ⟨a, b, rfl, hshared.restates hlinked hmatches⟩

/-- What the nodes of a tree that is merged with itself share says the same as the tree. -/
private theorem sharesRestated_of_reflected {tree : Tree} {options : CompiledOptions}
    (hlinked : tree.Linked) {forest : MergedForest} (hreflected : tree.ReflectedBy options forest) :
    (ofTree tree options).SharesRestated forest.roots := by
  obtain ⟨origins, hderives, hreflects⟩ := hreflected
  refine ⟨origins, hderives.nodes, fun origin horigin common hcommon => ?_⟩
  cases hreflects origin horigin with
  | @itself id children _ =>
    cases hcommon
    exact ⟨id, id, rfl, ownShare_restates hlinked⟩
  | first _ => cases hcommon
  | second _ => cases hcommon

/-- Two types of linked trees that a comparison finds to be equal are spelled alike as comparisons
read them, and alike in their alias spelling if no alias spelling has an alias spelling; and each
two references in them name the same, where classifiers of the trees were compared. Likewise all
types of what a merge shares stand for those of the second side. This holds after any comparisons
under any options and limits, of merges in one session, and of merges by workers in any order. A
single tree that is compared with itself needs a cache that is exact. -/
theorem equal_types_spelled_alike (sides : Sides) (hconsistent : sides.Consistent)
    (hlinked : sides.first.Linked ∧ sides.second.Linked) (cache : Cache)
    (hfilled : sides.same = false → cache.Filled sides.first sides.second)
    (hexact : sides.same = true → cache.Exact sides) :
    (∀ calls a b, a.Linked → b.Linked →
      let session := ((sides.performAll calls).run (.new sides.options cache)).2
      let (equal, after) := (typesAgree sides sides.shareable a b).run session
      equal = true → sides.SpelledAlike after.cache a b) ∧
    (sides.first.Built ∧ sides.second.Built → sides.first.Mergeable →
      (∀ result session, sides.merge cache = .ok (result, session) →
        sides.SharesRestated result.forest.roots) ∧
      ∀ after nodes rejections limitHits,
        Task.Schedule (cache, sides.mergeTask) (after, .done ⟨.ok (nodes, rejections), limitHits⟩) →
          sides.SharesRestated nodes) := by
  refine ⟨fun calls a b => spelledAlike_of_equal hconsistent hfilled hexact calls,
    fun hbuilt hmergeable => ?_⟩
  cases hsame : sides.same with
  | true =>
    obtain ⟨tree, options, rfl⟩ := hconsistent.exists_ofTree hsame
    exact ⟨fun _ _ hmerge => sharesRestated_of_reflected hlinked.1
        (Tree.reflected_of_merge hmergeable hmerge),
      fun _ _ _ _ hschedule => sharesRestated_of_reflected hlinked.1
        (Tree.reflected_of_schedule hmergeable hschedule)⟩
  | false =>
    obtain ⟨first, second, options, rfl⟩ := exists_ofTrees hsame
    refine ⟨fun result session hmerge => ?_, fun after nodes rejections limitHits hschedule => ?_⟩
    · obtain ⟨pairs, hbehind⟩ := agreed_of_merge hbuilt hmergeable (hfilled rfl) hmerge
      exact sharesRestated_of_behind hlinked hbehind
    · obtain ⟨pairs, hbehind⟩ := agreed_of_schedule hbuilt hmergeable (hfilled rfl) hschedule
      exact sharesRestated_of_behind hlinked hbehind

section Integers

/-- A type by what it names and what its alias spellings name, from the outermost one inwards. -/
private def spelledBy {ρ : Type} (reference : ρ) (spellings : List ρ) : SimpleType ρ :=
  { classifier := reference
    arguments := []
    nullable := false
    definitelyNotNull := false
    abbreviation := spellings.foldr (fun name inner => some ⟨name, [], false, false, inner⟩) none }

/-- A module with a class and a function that returns an integer type. -/
private def counting (spellings : List String) : Source :=
  let named (name : String) : Spelling := ⟨some ⟨name⟩, none⟩
  let result := spelledBy (named "kotlin.Int") (spellings.map named)
  .mk ⟨"m"⟩ .everyone .final .plain (.module ⟨none⟩)
    [.mk ⟨"p"⟩ .everyone .final .plain .package
      [.mk ⟨"C"⟩ .everyone .final .plain (.classType (.ofKind .ordinary)) [],
      .mk ⟨"f"⟩ .everyone .final .plain
        (.function ⟨.simple result, none, [], false, false, false, false⟩) []]]

private def countingTree (spellings : List String) : Tree :=
  (Tree.ofSources [counting spellings]).toOption.getD .empty

/-- The type that the function of such a module returns. -/
private def count (spellings : List ClassifierRef) : Ty ClassifierRef :=
  .simple (spelledBy (.external ⟨"kotlin.Int"⟩) spellings)

private def limited : CompiledOptions :=
  ⟨["kotlin"], [], false, 100, 1000000⟩

private theorem countingTree_read {spellings : List String}
    (hread : (Tree.ofSources [counting spellings]).toOption.isSome = true) :
    Tree.ofSources [counting spellings] = .ok (countingTree spellings) := by
  obtain ⟨tree, htree⟩ := Option.isSome_iff_exists.mp hread
  rw [countingTree, htree]
  exact Except.toOption_eq_some.mp htree

/-- Two integer types that both have the alias spelling of a class are equal and are spelled alike,
and a merge shares all that is declared. -/
theorem integers_spelled_alike :
    let tree := countingTree ["p.C"]
    let sides := ofTrees tree tree limited
    let type := count [.resolved ⟨2⟩]
    let found := (typesAgree sides sides.shareable type type).run (.new limited .empty)
    type ∈ (tree.declaration ⟨3⟩).payload.types ∧ found.1 = true ∧
      sides.SpelledAlike found.2.cache type type ∧
      ∃ result session, sides.merge .empty = .ok (result, session) ∧
        (result.forest.nodes.filter (·.isCommon)).length = 4 ∧
        sides.SharesRestated result.forest.roots := by
  intro tree sides type found
  have hread : Tree.ofSources [counting ["p.C"]] = .ok tree := countingTree_read (by decide +kernel)
  have hlinked := Tree.ofSources_linked hread
  have hregular := Tree.regular_of_ofSources hread
  have htype : type ∈ (tree.declaration ⟨3⟩).payload.types := by decide +kernel
  have hequal : found.1 = true := by decide +kernel
  obtain ⟨htypes, hmerges⟩ :=
    equal_types_spelled_alike sides (ofTrees_consistent _ _ _) ⟨hlinked, hlinked⟩ .empty
      (fun _ => .empty) (fun hsame => absurd hsame Bool.false_ne_true)
  have hmerged : (sides.merge .empty).toOption.map
      (fun merged => (merged.1.forest.nodes.filter (·.isCommon)).length) = some 4 := by
    decide +kernel
  obtain ⟨⟨result, session⟩, hmerge, hcommon⟩ := Option.map_eq_some_iff.mp hmerged
  have hmerge := Except.toOption_eq_some.mp hmerge
  refine ⟨htype, hequal, ?_, result, session, hmerge, hcommon, ?_⟩
  · exact htypes [] type type (hlinked ⟨3⟩ type htype) (hlinked ⟨3⟩ type htype) hequal
  · exact (hmerges ⟨hregular.built, hregular.built⟩ hregular.mergeable).1 result session hmerge

/-- An alias spelling that has an alias spelling itself is not read down to the innermost one. So
two integer types are equal although only one of them is spelled by a class in the end. A merge then
shares a function that returns this class, which no comparison has looked at. -/
theorem nested_spellings_differ :
    let first := countingTree ["p.X", "p.C"]
    let second := countingTree ["p.X"]
    let sides := ofTrees first second limited
    let a := count [.external ⟨"p.X"⟩, .resolved ⟨2⟩]
    let b := count [.external ⟨"p.X"⟩]
    let found := (typesAgree sides sides.shareable a b).run (.new limited .empty)
    first.Linked ∧ second.Linked ∧ a ∈ (first.declaration ⟨3⟩).payload.types ∧
      b ∈ (second.declaration ⟨3⟩).payload.types ∧ found.1 = true ∧ found.2.cache.entries = [] ∧
      first.typeSource a.collapse ≠ second.typeSource b.collapse ∧
      ((sides.merge .empty).toOption.map fun merged =>
        merged.1.forest.nodes.filterMap fun node => node.payloads.common.map (·.payload.types)) =
        some [[], [], [], [.simple (spelledBy (.symbolic ⟨"p.C"⟩) [])]] := by
  intro first second sides a b found
  have hfirst : Tree.ofSources [counting ["p.X", "p.C"]] = .ok first :=
    countingTree_read (by decide +kernel)
  have hsecond : Tree.ofSources [counting ["p.X"]] = .ok second :=
    countingTree_read (by decide +kernel)
  refine ⟨Tree.ofSources_linked hfirst, Tree.ofSources_linked hsecond, ?_, ?_, ?_, ?_, ?_, ?_⟩ <;>
    decide +kernel

end Integers

end Sides

end Concord
