import Concord.Proofs.Failures
import Concord.Proofs.Merge.Itself

namespace Concord

open Origin (walkAll)

namespace Tree

/-- A forest that keeps all of a tree that is merged with itself: its nodes have origins that
account for both sides, and reflect the tree. -/
def KeptBy (tree : Tree) (options : CompiledOptions) (forest : MergedForest) : Prop :=
  ∃ origins, forest.roots = Origin.nodes (.ofTree tree options) origins ∧
    (Sides.ofTree tree options).Accounts origins ∧ ∀ origin ∈ walkAll origins, origin.Reflects tree

variable {tree : Tree} {options : CompiledOptions} {forest : MergedForest}

private theorem kind_below_member {owner kind : Kind} (howner : owner ∈ [.function, .property, .value])
    (hmay : owner.mayContain kind = true) : kind ∈ [.function, .property, .value] := by
  cases kind with
  | function | property | value => simp
  | _ =>
    simp only [List.mem_cons, List.not_mem_nil, or_false] at howner
    obtain rfl | rfl | rfl := howner <;> cases hmay

/-- What stays alone in a tree whose links are sound is a member, or a parameter of one. -/
private theorem Regular.kind_of_staysAlone (hregular : tree.Regular) {id : DeclId}
    (halone : tree.StaysAlone id) : ∃ declaration, tree.get? id = some declaration ∧
      declaration.kind ∈ [.function, .property, .value] := by
  induction halone with
  | @member id hconcrete =>
    cases hget : tree.get? id with
    | none => simp [isConcreteInterfaceMember, hget] at hconcrete
    | some declaration =>
      refine ⟨declaration, rfl, ?_⟩
      simp only [isConcreteInterfaceMember, hget, Bool.and_eq_true, Bool.or_eq_true,
        beq_iff_eq] at hconcrete
      obtain ⟨hkind | hkind, -⟩ := hconcrete
      · simp [hkind]
      · simp [hkind]
  | child _ hchild ih =>
    obtain ⟨owner, declaration, howner, hget, hmay⟩ := hregular.child_placed hchild
    obtain ⟨_, hsame, hkind⟩ := ih
    cases howner.symm.trans hsame
    exact ⟨declaration, hget, kind_below_member hkind hmay⟩

/-- Of a tree that is read from sources all classifiers are shared with themselves, so that all that
is shared can be written. -/
theorem KeptBy.closed_common {sources : List Source} (hread : Tree.ofSources sources = .ok tree)
    (hkept : tree.KeptBy options forest) : forest.Closed options .common := by
  have hregular := regular_of_ofSources hread
  obtain ⟨origins, hroots, haccounts, hreflects⟩ := hkept
  have hnodes := Origin.forest_nodes hroots
  intro node hnode data hdata reference href
  obtain ⟨origin, horigin, rfl⟩ := List.mem_map.mp (hnodes ▸ hnode)
  refine Sides.covers_of_mentions hread (fun id declaration hget hkind => ?_) ?_
  · obtain ⟨other, hother, hid⟩ :=
      List.mem_filterMap.mp ((haccounts.firsts.2 id).mpr (hregular.reachable id declaration hget))
    have hshared : ¬tree.StaysAlone id := by
      intro halone
      obtain ⟨_, hsame, hmember⟩ := hregular.kind_of_staysAlone halone
      cases hget.symm.trans hsame
      revert hkind hmember
      cases declaration.kind <;> simp [Kind.isClassifier]
    refine ⟨_, hnodes ▸ List.mem_map_of_mem hother, tree.ownShare id, ?_, ?_, ?_⟩
    · obtain @⟨_, _, -⟩ | ⟨halone⟩ | - := hreflects other hother
      · cases hid
        rfl
      · cases hid
        exact absurd halone hshared
      · cases hid
    · rw [(tree.ownShare_sharedOf id).kind, Kind.isClassifier_common, declaration_of_get? hget]
      exact hkind
    · rw [(tree.ownShare_sharedOf id).name, declaration_of_get? hget]
  · rw [Origin.node_payloads] at hdata
    obtain @⟨id, _, -⟩ | - | - := hreflects origin horigin
    · cases hdata
      exact (tree.ownShare_sharedOf id).refs reference href
    · cases hdata
    · cases hdata

end Tree

namespace Tree

variable {tree : Tree} {options : CompiledOptions} {forest : MergedForest}

/-- A forest that reflects the whole tree keeps it. -/
private theorem ReflectedBy.kept (hmergeable : tree.Mergeable)
    (hreflected : tree.ReflectedBy options forest) : tree.KeptBy options forest := by
  obtain ⟨origins, hderives, hreflects⟩ := hreflected
  exact ⟨origins, hderives.nodes,
    (hderives.traces trivial).accounts hmergeable.rooted hmergeable.rooted, hreflects⟩

variable {cache : Cache}

variable (options cache) in
/-- In one session a merge of a tree with itself ends, rejects nothing, keeps the tree and never
asks the cache. -/
theorem merge_kept (hmergeable : tree.Mergeable) (hcheck : checkMergeable tree .first = .ok ()) :
    ∃ result session, (Sides.ofTree tree options).merge cache = .ok (result, session) ∧
      session.cache = cache ∧ result.rejections = [] ∧ tree.KeptBy options result.forest := by
  have hgives := Services.merge_itself options
    ((Sides.ofTree tree options).services_obeys (· = cache) True) hmergeable fun _ => hcheck
  obtain ⟨hkept, hends⟩ := Sides.merge_of_gives hgives rfl
  obtain ⟨result, session, hmerge⟩ := hends trivial
  obtain ⟨hcache, hnone, hreflected⟩ := hkept result session hmerge
  exact ⟨result, session, hmerge, hcache, hnone, hreflected.kept hmergeable⟩

/-- Workers that merge a tree with itself leave the cache as it is, and end with all of the tree
kept. -/
theorem schedule_kept (hmergeable : tree.Mergeable) (hcheck : checkMergeable tree .first = .ok ())
    {after : Cache} {task : Task}
    (hschedule : Task.Schedule (cache, (Sides.ofTree tree options).mergeTask) (after, task)) :
    after = cache ∧ ((∃ next, Task.Step (after, task) next) ∨ ∃ nodes limitHits,
      task = .done ⟨.ok (nodes, []), limitHits⟩ ∧ tree.KeptBy options ⟨nodes⟩) := by
  have hgives := Services.merge_itself options
    ((Sides.ofTree tree options).tasks_obeys (· = cache) True) hmergeable fun _ => hcheck
  obtain ⟨hsame, hends⟩ := Sides.mergeTask_of_gives hgives rfl hschedule
  refine ⟨hsame, ?_⟩
  obtain ⟨⟨outcome, limitHits⟩, rfl⟩ | hnext := Task.exists_step after task
  · obtain ⟨hkept, hmerged⟩ := hends _ rfl
    obtain ⟨nodes, rejections, rfl⟩ := hmerged trivial
    obtain ⟨rfl, hreflected⟩ := hkept nodes rejections rfl
    exact .inr ⟨nodes, limitHits, rfl, hreflected.kept hmergeable⟩
  · exact .inl hnext

/-- Every merge of a tree with itself keeps the tree. -/
theorem keptBy_of_merges (hmergeable : tree.Mergeable)
    (hmerges : (Sides.ofTree tree options).Merges forest) : tree.KeptBy options forest := by
  obtain ⟨_, _, _, _, hmerges⟩ := hmerges
  cases hmerges with
  | session hmerge => exact (reflected_of_merge hmergeable hmerge).kept hmergeable
  | workers hschedule => exact (reflected_of_schedule hmergeable hschedule).kept hmergeable

/-- A tree whose roots belong nowhere and whose parameters own nothing can be merged with itself,
whatever the options and the limits are. Every declaration that can be reached is paired with itself
and shares all that it has, but for functions and properties of interfaces that are not abstract and
what is below them. Nothing is rejected, and the cache is never asked: it and its counters stay as
they are, in one session as in every schedule of the workers. If the tree is read from sources and
its names are unique, the run succeeds. -/
theorem merge_keeps_itself (tree : Tree) (options : CompiledOptions) (hbuilt : tree.Built)
    (hcheck : checkMergeable tree .first = .ok ())
    (hfree : ∀ root ∈ tree.roots, tree.container? root = none) (hbare : tree.ParametersBare) :
    let sides := Sides.ofTree tree options
    (∀ cache, ∃ result session, sides.merge cache = .ok (result, session) ∧ session.cache = cache ∧
      result.rejections = [] ∧ tree.KeptBy options result.forest) ∧
    (∀ cache, Acc (fun after before => Task.Step before after) (cache, sides.mergeTask) ∧
      ∀ after task, Task.Schedule (cache, sides.mergeTask) (after, task) → after = cache ∧
        ((∃ next, Task.Step (after, task) next) ∨ ∃ nodes limitHits,
          task = .done ⟨.ok (nodes, []), limitHits⟩ ∧ tree.KeptBy options ⟨nodes⟩)) ∧
    ((∃ sources, Tree.ofSources sources = .ok tree) → tree.NamesUnique → sides.run.Succeeds ∧
      ∀ forest, sides.Merges forest → ∃ placement trees, Placement.ofForest forest = .ok placement ∧
        placement.fill options forest = .ok trees) := by
  intro sides
  have hmergeable := hbuilt.mergeable hcheck hfree hbare
  refine ⟨fun cache => merge_kept options cache hmergeable hcheck, fun cache =>
    ⟨Task.wellFounded_step.apply _, fun after task => schedule_kept hmergeable hcheck⟩, ?_⟩
  rintro ⟨sources, hread⟩ hunique
  have hregular := regular_of_ofSources hread
  have hfilled (forest : MergedForest) (hmerges : sides.Merges forest) : ∃ placement trees,
      Placement.ofForest forest = .ok placement ∧ placement.fill options forest = .ok trees := by
    have hkept := keptBy_of_merges hmergeable hmerges
    obtain ⟨origins, htraces⟩ :=
      hmerges.traces (Sides.mergeable_of_regular (fun _ => rfl) hregular hregular)
    have horderly := htraces.orderly hregular hregular hunique hunique
    have hroots := htraces.roots_modules hregular hregular
    refine (Placement.fill_succeeds_iff horderly hroots).mpr fun output => ?_
    by_cases houtput : output = .common
    · exact houtput ▸ hkept.closed_common hread
    · exact htraces.closed hread hread options houtput
  refine ⟨?_, hfilled⟩
  obtain ⟨result, session, hmerge, -⟩ := merge_kept options .empty hmergeable hcheck
  rw [Sides.run_of_merge hmerge]
  exact Sides.write_succeeds_iff.mpr (hfilled _ ⟨_, _, _, _, .session hmerge rfl rfl⟩)

/-- What hangs below a parameter of a function is lost, although it is no member of an interface. -/
theorem parameter_member_not_kept :
    strayTree.Built ∧ checkMergeable strayTree .first = .ok () ∧
      (∀ root ∈ strayTree.roots, strayTree.container? root = none) ∧
      strayTree.Reachable ⟨4⟩ ∧ ¬strayTree.StaysAlone ⟨4⟩ ∧
      ∃ result session, (Sides.ofTree strayTree plainOptions).merge .empty = .ok (result, session) ∧
        ∀ node ∈ result.forest.nodes, node.payload? .first ≠ strayTree.detached? ⟨4⟩ := by
  have howned : strayTree.Owned := (checkMergeable_iff.mp (strayTree_mergeable .first)).1
  have hmodule : ¬strayTree.StaysAlone ⟨0⟩ := howned.not_staysAlone_of_free (by decide)
  have hpackage : ¬strayTree.StaysAlone ⟨1⟩ :=
    fun halone => absurd ((howned.staysAlone_child hmodule (by decide)).mp halone) (by decide)
  have hfunction : ¬strayTree.StaysAlone ⟨2⟩ :=
    fun halone => absurd ((howned.staysAlone_child hpackage (by decide)).mp halone) (by decide)
  have hparameter : ¬strayTree.StaysAlone ⟨3⟩ :=
    fun halone => absurd ((howned.staysAlone_child hfunction (by decide)).mp halone) (by decide)
  refine ⟨strayTree_built, strayTree_mergeable .first, by decide, strayTree_reachable, ?_, ?_⟩
  · exact fun halone => absurd ((howned.staysAlone_child hparameter (by decide)).mp halone) (by decide)
  · exact ⟨_, _, rfl, by decide⟩

/-- An interface with a function that is not abstract, and a private class that names it twice. -/
private def shapes : Source :=
  let typeOf (name : QualifiedName) : Ty Spelling :=
    .simple ⟨⟨some name, none⟩, [], false, false, none⟩
  .mk ⟨"m"⟩ .everyone .final .plain (.module ⟨none⟩)
    [.mk ⟨"p"⟩ .everyone .final .plain .package
      [.mk ⟨"Shape"⟩ .everyone .abstract .plain (.classType (.ofKind .interface))
        [.mk ⟨"area"⟩ .everyone .extensible .plain
          (.function ⟨typeOf ⟨"kotlin.Int"⟩, none, [], false, false, false, false⟩) []],
      .mk ⟨"Circle"⟩ .owner .final .plain
        (.classType { ClassInfo.ofKind .ordinary with
          supertypes := [typeOf ⟨"p.Shape"⟩, typeOf ⟨"p.Shape"⟩] }) []]]

private def shapeTree : Tree :=
  (Tree.ofSources [shapes]).toOption.getD .empty

/-- The shapes are kept, even where no comparison may look into anything: the function of the
interface stays alone, once for each side. -/
theorem shapes_keep_themselves :
    let sides := Sides.ofTree shapeTree ⟨[], [], false, 0, 0⟩
    shapeTree.StaysAlone ⟨3⟩ ∧ (∃ result session, sides.merge .empty = .ok (result, session) ∧
      session.cache = .empty ∧ result.rejections = [] ∧
      shapeTree.KeptBy ⟨[], [], false, 0, 0⟩ result.forest) ∧ sides.run.Succeeds := by
  have hread : Tree.ofSources [shapes] = .ok shapeTree := by decide +kernel
  have hregular := regular_of_ofSources hread
  have hunique : shapeTree.NamesUnique := namesUnique_of_nodup (by decide +kernel)
  obtain ⟨hsession, -, hruns⟩ := merge_keeps_itself shapeTree ⟨[], [], false, 0, 0⟩ hregular.built
    (hregular.checkMergeable .first) hregular.mergeable.rooted.free hregular.mergeable.bare
  exact ⟨.member (by decide +kernel), hsession .empty, (hruns ⟨_, hread⟩ hunique).1⟩

end Tree

end Concord
