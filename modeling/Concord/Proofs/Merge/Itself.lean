import Concord.Proofs.Comparison.Reflexive
import Concord.Proofs.Logic.Tasks
import Concord.Proofs.Merge.Derivation

namespace Concord

open Origin (Behind Derived)
open ProgramLogic (Gives)

namespace Tree

/-- What stays alone when the tree is merged with itself: functions and properties of interfaces
that are not abstract, with everything below them. -/
inductive StaysAlone (tree : Tree) : DeclId → Prop
  | member {id : DeclId} (hconcrete : tree.isConcreteInterfaceMember id = true) : StaysAlone tree id
  | child {parent id : DeclId} (hparent : StaysAlone tree parent)
    (hchild : id ∈ tree.children parent) : StaysAlone tree id

variable {tree : Tree} {id parent : DeclId}

/-- A declaration that belongs nowhere does not stay alone. -/
theorem Owned.not_staysAlone_of_free (howned : tree.Owned) (hfree : tree.container? id = none) :
    ¬tree.StaysAlone id := by
  rintro (hconcrete | ⟨-, hchild⟩)
  · obtain ⟨container, info, hcontainer, -⟩ := exists_class_of_concrete hconcrete
    cases hfree.symm.trans hcontainer
  · cases hfree.symm.trans (howned.listed _ _ hchild)

/-- Below a declaration that does not stay alone only the members that are not abstract do. -/
theorem Owned.staysAlone_child (howned : tree.Owned) (hparent : ¬tree.StaysAlone parent)
    (hchild : id ∈ tree.children parent) :
    tree.StaysAlone id ↔ tree.isConcreteInterfaceMember id = true := by
  refine ⟨?_, .member⟩
  rintro (hconcrete | ⟨hother, hlisted⟩)
  · exact hconcrete
  · cases (howned.listed _ _ hlisted).symm.trans (howned.listed _ _ hchild)
    exact absurd hother hparent

/-- Members that stay alone are members of classes, and a function is no class. -/
theorem Owned.not_concrete_of_function (howned : tree.Owned)
    (hfunction : (tree.declaration parent).kind = .function) (hchild : id ∈ tree.children parent) :
    tree.isConcreteInterfaceMember id ≠ true := by
  intro hconcrete
  obtain ⟨container, info, hcontainer, hclass⟩ := exists_class_of_concrete hconcrete
  cases (howned.listed _ _ hchild).symm.trans hcontainer
  cases hfunction.symm.trans (congrArg Payload.kind hclass)

/-- The pairing of a declaration in a merge of its tree with itself. -/
def ownPairing (tree : Tree) (id : DeclId) : Pairing :=
  if tree.isConcreteInterfaceMember id then .firstAlone id
  else
    let data := (tree.declaration id).data.mapRefs tree.detachRef
    .partners id id data (tree.ownShare id) data

/-- The plan for siblings that are paired with themselves. -/
def ownPlan (tree : Tree) (siblings : List DeclId) : List Pairing :=
  siblings.map tree.ownPairing ++
    (siblings.filter tree.isConcreteInterfaceMember).map .secondAlone

/-- What a declaration shares with itself is shared data. -/
theorem ownShare_sharedOf (tree : Tree) (id : DeclId) : (tree.ownShare id).SharedOf tree id := by
  have hkind : ((tree.declaration id).data.mapRefs tree.detachRef).payload.kind =
      (tree.declaration id).kind := Data.kind_mapRefs _ _
  rw [ownShare]
  cases hpayload : ((tree.declaration id).data.mapRefs tree.detachRef).payload with
  | typeAlias info =>
    rw [hpayload] at hkind
    have hshared := Sides.sharedOf_aliases hkind.symm
      (List.range' 0 (tree.aliasedClassOf id).supertypes.length)
    simp only [keepAt_all _ rfl] at hshared
    exact hshared
  | _ =>
    have hother : (tree.declaration id).kind ≠ .typeAlias := by
      rw [← hkind, hpayload]
      exact Kind.noConfusion
    simpa only [hpayload] using Sides.sharedOf_collapse hother

end Tree

namespace Services

section Pairing

variable {n m : Type → Type} [Monad n] [LawfulMonad n] (services : Services n m) {tree : Tree}
  (options : CompiledOptions)

/-- A declaration finds itself behind siblings that are never compared. -/
theorem findPartner_self {id : DeclId} (hid : tree.isConcreteInterfaceMember id = false)
    {skipped : List DeclId} (hskipped : ∀ b ∈ skipped, tree.isConcreteInterfaceMember b = true)
    (rest : List DeclId) :
    services.findPartner (.ofTree tree options) id (skipped ++ id :: rest) =
      pure (.ok (tree.ownPairing id, skipped ++ rest)) := by
  induction skipped with
  | nil =>
    have hcandidate : (Sides.ofTree tree options).isCandidate id id = true := by
      simp [Sides.isCandidate, Sides.ofTree, hid]
    have hpairing : tree.ownPairing id = .partners id id _ (tree.ownShare id) _ := if_neg (by simp [hid])
    rw [List.nil_append, findPartner, if_pos hcandidate, compare_self, pure_bind, hpairing]
    rfl
  | cons b skipped ih =>
    obtain ⟨hb, hskipped⟩ := List.forall_mem_cons.mp hskipped
    have hcandidate : ¬(Sides.ofTree tree options).isCandidate id b = true := by
      simp [Sides.isCandidate, Sides.ofTree, hb]
    rw [List.cons_append, findPartner, if_neg hcandidate, ih hskipped, pure_bind]
    rfl

/-- The induction is on the siblings still to be paired; of the ones before them only those are left
that are never compared. -/
private theorem pairSiblings_behind {skipped : List DeclId}
    (hskipped : ∀ b ∈ skipped, tree.isConcreteInterfaceMember b = true) (siblings : List DeclId) :
    services.pairSiblings (.ofTree tree options) siblings (skipped ++ siblings) =
      pure (siblings.map tree.ownPairing ++
        (skipped ++ siblings.filter tree.isConcreteInterfaceMember).map .secondAlone, []) := by
  induction siblings generalizing skipped with
  | nil => simp [pairSiblings]
  | cons id siblings ih =>
    cases hconcrete : tree.isConcreteInterfaceMember id with
    | true =>
      have hall : ∀ b ∈ skipped ++ [id], tree.isConcreteInterfaceMember b = true :=
        List.forall_mem_append.mpr ⟨hskipped, by simp [hconcrete]⟩
      have hpairing : tree.ownPairing id = .firstAlone id := if_pos hconcrete
      have hfirst : (Sides.ofTree tree options).first.isConcreteInterfaceMember id = true := hconcrete
      rw [pairSiblings, if_pos hfirst, show skipped ++ id :: siblings = _ from
        (List.append_cons skipped id siblings), ih hall, pure_bind]
      simp [hpairing, hconcrete]
    | false =>
      have hfirst : ¬(Sides.ofTree tree options).first.isConcreteInterfaceMember id = true := by
        simp [Sides.ofTree, hconcrete]
      rw [pairSiblings, if_neg hfirst, findPartner_self services options hconcrete hskipped,
        pure_bind]
      simp only [ih hskipped, pure_bind]
      simp [hconcrete]

/-- Siblings are paired with themselves. -/
theorem pairSiblings_self (siblings : List DeclId) :
    services.pairSiblings (.ofTree tree options) siblings siblings =
      pure (tree.ownPlan siblings, []) :=
  pairSiblings_behind services options (List.forall_mem_nil _) siblings

end Pairing

end Services

/-- What a node of such a merge is like: a declaration with itself, which shares all that it has, or
one that stays alone. -/
inductive Origin.Reflects (tree : Tree) : Origin → Prop
  | itself {id : DeclId} {children : List Origin} (hshared : ¬tree.StaysAlone id) :
    Reflects tree (.mk (some id) (some id) (some (tree.ownShare id)) children)
  | first {id : DeclId} {children : List Origin} (halone : tree.StaysAlone id) :
    Reflects tree (.mk (some id) none none children)
  | second {id : DeclId} {children : List Origin} (halone : tree.StaysAlone id) :
    Reflects tree (.mk none (some id) none children)

/-- What is known of the origins of such a merge. -/
structure Origin.Itself (tree : Tree) (options : CompiledOptions) (origin : Origin) : Prop where
  derived : origin.Derived (.ofTree tree options)
    ((Sides.ofTree tree options).Settled fun _ _ => True) True
  reflects : origin.Reflects tree

/-- A pairing of such a merge, with enough levels left below it. -/
inductive Pairing.Itself (tree : Tree) (levels : Nat) : Pairing → Prop
  | partners {id : DeclId} {above : List DeclId} (hshared : ¬tree.StaysAlone id)
    (hline : tree.Line id above) (henough : tree.size ≤ above.length + levels) :
    Itself tree levels (.partners id id ((tree.declaration id).data.mapRefs tree.detachRef)
      (tree.ownShare id) ((tree.declaration id).data.mapRefs tree.detachRef))
  | firstAlone {id : DeclId} (halone : tree.StaysAlone id) (hid : tree.Reachable id) :
    Itself tree levels (.firstAlone id)
  | secondAlone {id : DeclId} (halone : tree.StaysAlone id) (hid : tree.Reachable id) :
    Itself tree levels (.secondAlone id)

/-- A forest that reflects a tree which was merged with itself: its nodes have origins that follow
the tree, and each is a declaration with itself, or stays alone. -/
def Tree.ReflectedBy (tree : Tree) (options : CompiledOptions) (forest : MergedForest) : Prop :=
  ∃ origins, (Sides.ofTree tree options).Derives
    ((Sides.ofTree tree options).Settled fun _ _ => True) True origins forest ∧
    ∀ origin ∈ Origin.walkAll origins, origin.Reflects tree

namespace Services

/-- The own plan of siblings pairs them with themselves. -/
private theorem itself_of_ownPlan {tree : Tree} {levels : Nat} {siblings : List DeclId}
    (halone : ∀ id ∈ siblings, tree.StaysAlone id ↔ tree.isConcreteInterfaceMember id = true)
    (hlines : ∀ id ∈ siblings, ∃ above, tree.Line id above ∧ tree.size ≤ above.length + levels)
    {pairing : Pairing} (hpairing : pairing ∈ tree.ownPlan siblings) :
    pairing.Itself tree levels := by
  have hreachable (id : DeclId) (hid : id ∈ siblings) : tree.Reachable id := by
    obtain ⟨above, hline, -⟩ := hlines id hid
    exact Tree.reachable_iff_line.mpr ⟨above, hline⟩
  obtain hpaired | hleft := List.mem_append.mp hpairing
  · obtain ⟨id, hid, rfl⟩ := List.mem_map.mp hpaired
    rw [Tree.ownPairing]
    split
    · next hconcrete => exact .firstAlone ((halone id hid).mpr hconcrete) (hreachable id hid)
    · next hshared =>
      obtain ⟨above, hline, henough⟩ := hlines id hid
      exact .partners (fun h => hshared ((halone id hid).mp h)) hline henough
  · obtain ⟨id, hid, rfl⟩ := List.mem_map.mp hleft
    obtain ⟨hid, hconcrete⟩ := List.mem_filter.mp hid
    exact .secondAlone ((halone id hid).mpr hconcrete) (hreachable id hid)

/-- Siblings stand by their own plan. -/
private theorem siblings_of_ownPlan (tree : Tree) (siblings : List DeclId) {parameters : Prop}
    (hfree : ¬parameters) : Siblings parameters siblings siblings
      ((tree.ownPlan siblings).map fun p => (p.first?, p.second?)) := by
  let concrete := tree.isConcreteInterfaceMember
  have hpairs : (tree.ownPlan siblings).map (fun p => (p.first?, p.second?)) =
      siblings.map (fun id => (some id, Option.guard (fun id => !concrete id) id)) ++
        (siblings.filter concrete).map (none, some ·) := by
    rw [Tree.ownPlan, List.map_append, List.map_map, List.map_map]
    refine congrArg₂ (· ++ ·) (List.map_congr_left fun id _ => ?_) rfl
    rw [Function.comp_apply, Tree.ownPairing]
    cases hconcrete : tree.isConcreteInterfaceMember id <;>
      simp [Option.guard, concrete, hconcrete, Pairing.first?, Pairing.second?]
  rw [hpairs]
  refine ⟨?_, ?_, fun h => absurd h hfree, fun _ => ?_⟩
  · simp [List.filterMap_map]
  · have hpaired : (siblings.map fun id => (some id, Option.guard (fun id => !concrete id) id)).filterMap
        (·.2) = siblings.filter fun id => !concrete id := by
      rw [List.filterMap_map, ← List.filterMap_eq_filter]
      rfl
    have hleft : ((siblings.filter concrete).map ((none : Option DeclId), some ·)).filterMap (·.2) =
        siblings.filter concrete := by
      rw [List.filterMap_map]
      exact List.filterMap_some
    rw [List.filterMap_append, hpaired, hleft]
    exact List.perm_append_comm.trans (List.filter_append_perm concrete siblings)
  · exact ⟨_, _, rfl, by simp, List.filter_sublist⟩

variable {n m : Type → Type} [Monad n] [LawfulMonad n] [Monad m] {services : Services n m}
  {tree : Tree} {options : CompiledOptions} {inner : ProgramLogic n} {outer : ProgramLogic m}
  {total : Prop}

variable (tree options) in
/-- Nodes of the merge of a tree with itself, with what they come from. -/
abbrev StandItself (pairs : List (Option DeclId × Option DeclId)) (merged : List MergedNode) :
    Prop :=
  Behind (.ofTree tree options) (Origin.Itself tree options) pairs merged

private theorem shared_itself {id : DeclId} {pairs : List (Option DeclId × Option DeclId)}
    {merged : List MergedNode} (hknown : ∃ declaration, tree.get? id = some declaration)
    (hshared : ¬tree.StaysAlone id) (hbelow : StandItself tree options pairs merged)
    (hsiblings : Siblings ((tree.declaration id).kind = .function)
      (tree.children id) (tree.children id) pairs) :
    let data := (tree.declaration id).data.mapRefs tree.detachRef
    StandItself tree options [(some id, some id)]
      [.shared data (tree.ownShare id) data merged] := by
  intro data
  have hdetached : tree.detached? id = some data := Tree.detached?_of_known hknown
  refine hbelow.single (some (tree.ownShare id)) ?_ fun children hids _ =>
    ⟨.shared hids ⟨hdetached, hdetached, rfl⟩ ⟨tree.ownShare_sharedOf id, nofun⟩
      (hsiblings.firsts ▸ List.Subset.refl _) hsiblings.seconds.subset fun _ => hsiblings,
      .itself hshared⟩
  show (⟨some data, some (tree.ownShare id), some data⟩ : PerOutput (Option Data)) =
    ⟨tree.detached? id, some (tree.ownShare id), tree.detached? id⟩
  rw [hdetached]

variable (hobeys : services.Obeys inner outer total)
include hobeys

private theorem pairs_itself (siblings : List DeclId) :
    outer.Gives (services.lift (services.pairSiblings (.ofTree tree options) siblings siblings))
      fun paired => paired = (tree.ownPlan siblings, []) :=
  hobeys.lift (pairSiblings_self services options siblings ▸ .pure rfl)

/-- The parameters of a function stand with themselves. -/
private theorem mergeParameters_itself {parameters : List DeclId}
    (hparameters : ∀ id ∈ parameters, (∃ declaration, tree.get? id = some declaration) ∧
      ¬tree.StaysAlone id ∧ tree.children id = []) :
    outer.Gives (services.mergeParameters (.ofTree tree options) parameters parameters) fun merged =>
      StandItself tree options (parameters.map fun id => (some id, some id)) merged := by
  induction parameters with
  | nil =>
    refine hobeys.attempt (fun merged hrun => ?_) fun _ => ⟨[], rfl⟩
    cases hrun
    exact .nil
  | cons id parameters ih =>
    obtain ⟨⟨hknown, hshared, hbare⟩, hothers⟩ := List.forall_mem_cons.mp hparameters
    have hnode : outer.Gives (pure [_]) fun nodes => StandItself tree options [(some id, some id)] nodes :=
      .pure (shared_itself hknown hshared .nil (hbare.symm ▸ .firstsAlone []))
    rw [mergeParameters, compare_self]
    refine .bind (hobeys.lift (.pure rfl)) ?_
    rintro _ rfl
    refine .bind (hobeys.note id id) fun _ _ => .bind hnode fun nodes hnodes => ?_
    exact .bind (ih hothers) fun rest hrest => .pure (hnodes.append hrest)

variable (hmergeable : tree.Mergeable)
include hmergeable

omit [LawfulMonad n] in
private theorem firstAlone_itself {id : DeclId} (halone : tree.StaysAlone id)
    (hid : tree.Reachable id) :
    outer.Gives (services.attempt (tree.single .first id)) fun node =>
      StandItself tree options [(some id, none)] [node] :=
  hobeys.attempt (fun _ hrun => Behind.first_alone (fun _ halone _ => .child halone)
      (fun _ _ halone hids => ⟨.first_alone hids, .first halone⟩) halone hrun)
    fun _ => Tree.single_succeeds hmergeable.rooted .first hid

omit [LawfulMonad n] in
private theorem secondAlone_itself {id : DeclId} (halone : tree.StaysAlone id)
    (hid : tree.Reachable id) :
    outer.Gives (services.attempt (tree.single .second id)) fun node =>
      StandItself tree options [(none, some id)] [node] :=
  hobeys.attempt (fun _ hrun => Behind.second_alone (fun _ halone _ => .child halone)
      (fun _ _ halone hids => ⟨.second_alone hids, .second halone⟩) halone hrun)
    fun _ => Tree.single_succeeds hmergeable.rooted .second hid

/-- A merged node without rejections. -/
private def Quietly (tree : Tree) (options : CompiledOptions) (pairing : Pairing) (merged : Merged) :
    Prop :=
  StandItself tree options [(pairing.first?, pairing.second?)] [merged.1] ∧ merged.2 = []

omit [LawfulMonad n] hobeys hmergeable in
private theorem collected_itself {plan : List Pairing}
    {collected : List MergedNode × List Rejection}
    (hcollected : Collected (Quietly tree options) plan collected) :
    StandItself tree options (plan.map fun p => (p.first?, p.second?)) collected.1 ∧
      collected.2 = [] := by
  induction hcollected with
  | nil => exact ⟨.nil, rfl⟩
  | @cons pairing merged plan rest hmerged _ ih =>
    refine ⟨hmerged.1.append ih.1, ?_⟩
    rw [hmerged.2, ih.2, List.append_nil]

variable (options) in
private theorem mergePaired_itself (levels : Nat) {pairing : Pairing}
    (hpairing : pairing.Itself tree levels) :
    outer.Gives (services.mergePaired (.ofTree tree options) levels pairing)
      (Quietly tree options pairing) := by
  induction levels generalizing pairing with
  | zero =>
    cases hpairing with
    | firstAlone halone hid =>
      exact .bind (firstAlone_itself hobeys hmergeable halone hid) fun node hnode => .pure ⟨hnode, rfl⟩
    | secondAlone halone hid =>
      exact .bind (secondAlone_itself hobeys hmergeable halone hid) fun node hnode => .pure ⟨hnode, rfl⟩
    | partners hshared hline henough =>
      have hshort := hmergeable.rooted.line_length hline
      omega
  | succ levels ih =>
    cases hpairing with
    | firstAlone halone hid =>
      exact .bind (firstAlone_itself hobeys hmergeable halone hid) fun node hnode => .pure ⟨hnode, rfl⟩
    | secondAlone halone hid =>
      exact .bind (secondAlone_itself hobeys hmergeable halone hid) fun node hnode => .pure ⟨hnode, rfl⟩
    | @partners id above hshared hline henough =>
      have howned := hmergeable.rooted.owned
      have hknown := hmergeable.rooted.line_known hline
      rw [mergePaired, intersect_self]
      refine .bind (hobeys.note id id) fun _ _ => .bind (hobeys.lift (.pure rfl)) ?_
      rintro _ rfl
      split
      · next hfunction =>
        refine .bind (mergeParameters_itself hobeys fun child hchild =>
          ⟨hmergeable.rooted.line_known (.child hline hchild), ?_,
            hmergeable.children_parameter hfunction hchild⟩) fun merged hmerged => .pure ⟨?_, rfl⟩
        · rw [howned.staysAlone_child hshared hchild]
          exact howned.not_concrete_of_function hfunction hchild
        · refine shared_itself hknown hshared hmerged (.of_parameters hfunction ?_ ?_)
          · exact List.filterMap_map.trans List.filterMap_some
          · exact List.filterMap_map.trans List.filterMap_some
      · next hother =>
        have hbelow (below : Pairing) (hmem : below ∈ tree.ownPlan (tree.children id)) :=
          ih (itself_of_ownPlan (fun child hchild => howned.staysAlone_child hshared hchild)
            (fun child hchild => ⟨_, .child hline hchild, by simp only [List.length_cons]; omega⟩) hmem)
        refine .bind (pairs_itself hobeys (tree.children id)) ?_
        rintro _ rfl
        refine .bind (.ite (fun _ => hobeys.apart hbelow) fun _ => collect_gives hbelow)
          fun collected hcollected => .pure ?_
        obtain ⟨hstand, hnone⟩ := collected_itself hcollected
        exact ⟨shared_itself hknown hshared hstand (siblings_of_ownPlan _ _ hother), hnone⟩

variable (options) in
/-- Merging a tree with itself, nothing is compared that has to be looked up, and nothing is
rejected. The declarations stand with themselves, but for those that stay alone. -/
theorem merge_itself (hcheck : total → checkMergeable tree .first = .ok ()) :
    outer.Gives (services.merge (.ofTree tree options)) fun result =>
      result.rejections = [] ∧ tree.ReflectedBy options result.forest := by
  have hcheck' (h : total) : checkMergeable tree .second = .ok () :=
    checkMergeable_iff.mpr (checkMergeable_iff.mp (hcheck h))
  have hroot (root : DeclId) (hroot : root ∈ tree.roots) :
      tree.StaysAlone root ↔ tree.isConcreteInterfaceMember root = true :=
    ⟨fun h => absurd h (hmergeable.rooted.owned.not_staysAlone_of_free (hmergeable.rooted.free root hroot)),
      .member⟩
  have hbelow (below : Pairing) (hmem : below ∈ tree.ownPlan tree.roots) :=
    mergePaired_itself options hobeys hmergeable tree.size (itself_of_ownPlan hroot
      (fun root hroot => ⟨[], .root hroot, Nat.le_add_left _ _⟩) hmem)
  have hsiblings := siblings_of_ownPlan tree tree.roots not_false
  refine .bind (hobeys.attempt (fun _ h => h) fun h => ⟨(), hcheck h⟩) fun _ _ => ?_
  refine .bind (hobeys.attempt (fun _ h => h) fun h => ⟨(), hcheck' h⟩) fun _ _ => ?_
  refine .bind (pairs_itself hobeys tree.roots) ?_
  rintro _ rfl
  refine .bind (collect_gives hbelow) fun collected hcollected => .pure ?_
  obtain ⟨⟨origins, hnodes, hids, horigins⟩, hnone⟩ := collected_itself hcollected
  refine ⟨hnone, origins, ⟨hnodes, ?_, ?_, fun _ => hids ▸ hsiblings, ?_⟩, ?_⟩
  · rw [hids, hsiblings.firsts]
    exact List.Subset.refl _
  · exact hids ▸ hsiblings.seconds.subset
  · exact fun origin horigin => (horigins origin horigin).derived
  · exact fun origin horigin => (horigins origin horigin).reflects

end Services

namespace Tree

variable {tree : Tree} (hmergeable : tree.Mergeable) {options : CompiledOptions} {cache : Cache}
include hmergeable

/-- A tree is reflected by what a session makes of it with itself. -/
theorem reflected_of_merge {result : MergeResult} {session : Session}
    (hmerge : (Sides.ofTree tree options).merge cache = .ok (result, session)) :
    tree.ReflectedBy options result.forest := by
  have hgives := Services.merge_itself options
    ((Sides.ofTree tree options).services_obeys (fun _ => True) False) hmergeable False.elim
  exact ((Sides.merge_of_gives hgives trivial).1 result session hmerge).2.2

/-- A tree is reflected by what workers make of it with itself. -/
theorem reflected_of_schedule {after : Cache} {nodes : List MergedNode}
    {rejections : List Rejection} {limitHits : Nat}
    (hschedule : Task.Schedule (cache, (Sides.ofTree tree options).mergeTask)
      (after, .done ⟨.ok (nodes, rejections), limitHits⟩)) :
    tree.ReflectedBy options ⟨nodes⟩ := by
  have hgives := Services.merge_itself options
    ((Sides.ofTree tree options).tasks_obeys (fun _ => True) False) hmergeable False.elim
  obtain ⟨-, hends⟩ := Sides.mergeTask_of_gives hgives trivial hschedule
  exact ((hends _ rfl).1 nodes rejections rfl).2

end Tree

end Concord
