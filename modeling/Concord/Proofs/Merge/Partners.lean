import Concord.Proofs.Merge.Accounting
import Concord.Proofs.Output.Writing

namespace Concord

open Origin (walkAll)

namespace Origin

/-- What stands on the other side of the node that a declaration is the source of. -/
def across (source target : Origin → Option DeclId) (origins : List Origin) (id : DeclId) :
    Option DeclId :=
  (walkAll origins).findSome? fun origin => if source origin = some id then target origin else none

/-- The partner of a declaration of the first side. -/
def partner? (origins : List Origin) (a : DeclId) : Option DeclId :=
  across first? second? origins a

/-- The partner of a declaration of the second side. -/
def counterpart? (origins : List Origin) (b : DeclId) : Option DeclId :=
  across second? first? origins b

private theorem findSome?_of_mem {source target : Origin → Option DeclId} {walked : List Origin}
    (hdistinct : (walked.filterMap source).Nodup) {origin : Origin} (horigin : origin ∈ walked)
    {id : DeclId} (hsource : source origin = some id) :
    (walked.findSome? fun origin => if source origin = some id then target origin else none) =
      target origin := by
  induction walked with
  | nil => cases horigin
  | cons top walked ih =>
    rw [List.findSome?_cons]
    obtain rfl | horigin := List.mem_cons.mp horigin
    · rw [List.filterMap_cons, hsource] at hdistinct
      obtain ⟨hfresh, -⟩ := List.nodup_cons.mp hdistinct
      rw [if_pos hsource]
      cases htarget : target origin with
      | some other => rfl
      | none =>
        refine List.findSome?_eq_none_iff.mpr fun other hother => ?_
        refine if_neg fun hsame => hfresh ?_
        exact List.mem_filterMap.mpr ⟨other, hother, hsame⟩
    · have hne : source top ≠ some id := by
        intro hsame
        rw [List.filterMap_cons, hsame] at hdistinct
        obtain ⟨hfresh, -⟩ := List.nodup_cons.mp hdistinct
        exact hfresh (List.mem_filterMap.mpr ⟨origin, horigin, hsource⟩)
      have hrest : (walked.filterMap source).Nodup := by
        rw [List.filterMap_cons] at hdistinct
        split at hdistinct
        · exact hdistinct
        · exact (List.nodup_cons.mp hdistinct).2
      rw [if_neg hne]
      exact ih hrest horigin

/-- When no declaration is the source of two nodes, what stands across from it stands in its node. -/
theorem across_of_mem {source target : Origin → Option DeclId} {origins : List Origin}
    (hdistinct : ((walkAll origins).filterMap source).Nodup) {origin : Origin}
    (horigin : origin ∈ walkAll origins) {id : DeclId} (hsource : source origin = some id) :
    across source target origins id = target origin :=
  findSome?_of_mem hdistinct horigin hsource

theorem across_eq_some {source target : Origin → Option DeclId} {origins : List Origin}
    {id other : DeclId} (hacross : across source target origins id = some other) :
    ∃ origin ∈ walkAll origins, source origin = some id ∧ target origin = some other := by
  obtain ⟨origin, horigin, hfound⟩ := List.exists_of_findSome?_eq_some hacross
  split at hfound
  · next hsource => exact ⟨origin, horigin, hsource, hfound⟩
  · cases hfound

end Origin

/-- Some siblings in the order of their partners, and behind them those without a partner, in their
own order. -/
def inPartnerOrder (partner? : DeclId → Option DeclId) (as bs : List DeclId) : List DeclId :=
  as.filterMap partner? ++ bs.filter (· ∉ as.filterMap partner?)

/-- The same declarations with other roots, and hanging together in another way. -/
def Tree.arrange (tree : Tree) (roots : List DeclId) (owned : DeclId → List DeclId) : Tree :=
  { tree with
    roots
    declarations := tree.declarations.mapIdx fun index declaration =>
      { declaration with children := owned ⟨index⟩ } }

/-- The children of a declaration of the second side in the order of a merge. -/
def Sides.arrangedChildren (sides : Sides) (origins : List Origin) (b : DeclId) : List DeclId :=
  if (sides.second.declaration b).kind = .function then sides.second.children b
  else match Origin.counterpart? origins b with
    | some a =>
      inPartnerOrder (Origin.partner? origins) (sides.first.children a) (sides.second.children b)
    | none => sides.second.children b

/-- The second tree in the order of a merge. Siblings are moved behind their partners. The
parameters of functions and what hangs below declarations without a partner stay as they are. -/
def Sides.arranged (sides : Sides) (origins : List Origin) : Tree :=
  sides.second.arrange
    (inPartnerOrder (Origin.partner? origins) sides.first.roots sides.second.roots)
    (sides.arrangedChildren origins)

/-- The same declarations own and are roots in both trees. They may come in another order, except
for parameters. -/
structure Tree.Reorders (tree original : Tree) : Prop where
  children : ∀ id, (tree.children id).Perm (original.children id)
  parameters : ∀ id, (original.declaration id).kind = .function →
    tree.children id = original.children id
  roots : tree.roots.Perm original.roots

theorem Tree.Reorders.refl (tree : Tree) : tree.Reorders tree :=
  ⟨fun _ => .refl _, fun _ _ => rfl, .refl _⟩

/-- A source with the same members in another order, here and in all members. -/
inductive Source.Shuffled : Source → Source → Prop
  | mk (name : SimpleName) (visibility : Visibility) (modality : Modality)
    (expectation : Expectation) (payload : Source.Payload) {members between others : List Source}
    (hperm : members.Perm between) (hmembers : List.Forall₂ Shuffled between others) :
    Shuffled (.mk name visibility modality expectation payload members)
      (.mk name visibility modality expectation payload others)

/-- The same sources in another order, here and in all members. -/
def Source.AllShuffled (sources others : List Source) : Prop :=
  ∃ between, sources.Perm between ∧ List.Forall₂ Source.Shuffled between others

namespace Tree

private theorem filterMap_related {α β : Type} {R : β → β → Prop} {f g : α → Option β}
    (hrelated : ∀ item, Option.Rel R (f item) (g item)) (items : List α) :
    List.Forall₂ R (items.filterMap f) (items.filterMap g) := by
  induction items with
  | nil => exact .nil
  | cons item items ih =>
    rw [List.filterMap_cons, List.filterMap_cons]
    cases hf : f item with
    | none =>
      have hitem := hrelated item
      rw [hf] at hitem
      cases hg : g item with
      | none => exact ih
      | some right =>
        rw [hg] at hitem
        cases hitem
    | some left =>
      have hitem := hrelated item
      rw [hf] at hitem
      cases hg : g item with
      | none =>
        rw [hg] at hitem
        cases hitem
      | some right =>
        rw [hg] at hitem
        cases hitem with
        | some hitem => exact .cons hitem ih

section Shuffled

variable {tree original : Tree} (hsame : tree.Rearranges original)
  (hchildren : ∀ id, (tree.children id).Perm (original.children id))
include hsame hchildren

private theorem sourceWithin_shuffled (depth : Nat) (id : DeclId) :
    Option.Rel Source.Shuffled (tree.sourceWithin depth id)
      (original.sourceWithin depth id) := by
  induction depth generalizing id with
  | zero => exact .none
  | succ depth ih =>
    have hget := hsame id
    cases hfound : original.get? id with
    | none =>
      rw [hfound, Option.map_none] at hget
      rw [sourceWithin, sourceWithin, hget, hfound]
      exact .none
    | some declaration =>
      rw [hfound, Option.map_some] at hget
      rw [sourceWithin_of_get? hget, sourceWithin_of_get? hfound, hsame.payloadSource_eq]
      have hperm := (hchildren id).filterMap (tree.sourceWithin depth)
      rw [children_of_get? hfound] at hperm
      exact .some (.mk _ _ _ _ _ hperm (filterMap_related ih declaration.children))

/-- Where declarations hang together in another order, sources are the same but for the order. -/
theorem toSources_shuffled (hsize : tree.size = original.size)
    (hroots : tree.roots.Perm original.roots) :
    Source.AllShuffled tree.toSources original.toSources := by
  refine ⟨_, hroots.filterMap tree.source?, filterMap_related (fun id => ?_) original.roots⟩
  have hsource := sourceWithin_shuffled hsame hchildren original.size id
  rw [source?, source?, hsize]
  exact hsource

end Shuffled

variable {tree : Tree} {roots : List DeclId} {owned : DeclId → List DeclId} {id : DeclId}

theorem get?_arrange : (tree.arrange roots owned).get? id =
    (tree.get? id).map fun declaration => { declaration with children := owned id } := by
  obtain ⟨index⟩ := id
  simp only [arrange, get?, Array.getElem?_mapIdx]

theorem children_arrange {declaration : Declaration} (hget : tree.get? id = some declaration) :
    (tree.arrange roots owned).children id = owned id := by
  rw [children, get?_arrange, hget, Option.map_some]

theorem arrange_rearranges : (tree.arrange roots owned).Rearranges tree := by
  intro id
  rw [get?_arrange]
  cases hget : tree.get? id with
  | none => rfl
  | some declaration => rw [Option.map_some, Option.map_some, children_arrange hget]

end Tree

variable {parameters : Prop} {as bs : List DeclId}
  {ids : List (Option DeclId × Option DeclId)} {partner? : DeclId → Option DeclId}

/-- The siblings of the second side stand in the order of their partners. -/
private theorem Siblings.inPartnerOrder (hsiblings : Siblings parameters as bs ids)
    (hfree : ¬parameters) (hdistinct : bs.Nodup)
    (hpartner : ∀ pair ∈ ids, ∀ a, pair.1 = some a → partner? a = pair.2) :
    ids.filterMap (·.2) = inPartnerOrder partner? as bs := by
  obtain ⟨paired, left, rfl, hfirsts, hleft⟩ := hsiblings.ordered hfree
  have has := hsiblings.firsts
  have hbs := hsiblings.seconds
  simp only [List.filterMap_append, List.filterMap_map, Function.comp_def, List.filterMap_none,
    List.append_nil, List.filterMap_some] at has hbs ⊢
  have hmoved : as.filterMap partner? = paired.filterMap (·.2) := by
    rw [← has, List.filterMap_filterMap]
    refine List.filterMap_congr fun pair hpair => ?_
    obtain ⟨a, ha⟩ := Option.isSome_iff_exists.mp (hfirsts pair hpair)
    rw [ha, Option.bind_some]
    exact hpartner pair (List.mem_append_left _ hpair) a ha
  obtain ⟨-, -, hapart⟩ := List.nodup_append.mp (hbs.nodup_iff.mpr hdistinct)
  have hstay : left = bs.filter (· ∉ paired.filterMap (·.2)) := by
    have hkept : left.filter (· ∉ paired.filterMap (·.2)) = left := by
      refine List.filter_eq_self.mpr fun b hb => decide_eq_true fun hmoved => ?_
      exact hapart b hmoved b hb rfl
    have hsub := hleft.filter (· ∉ paired.filterMap (·.2))
    rw [hkept] at hsub
    refine hsub.eq_of_length_le ((hdistinct.filter _).length_le_of_subset fun b hb => ?_)
    obtain ⟨hmem, hunmoved⟩ := List.mem_filter.mp hb
    obtain hmoved | hstays := List.mem_append.mp (hbs.mem_iff.mpr hmem)
    · exact absurd hmoved (of_decide_eq_true hunmoved)
    · exact hstays
  rw [Concord.inPartnerOrder, hmoved, ← hstay]

namespace Sides

variable {sides : Sides} {good : DeclId → DeclId → Data → Prop} {origins : List Origin}
  {forest : MergedForest}

section Arranged

variable (htraces : sides.Traces good origins forest)
  (hfirst : sides.first.Rooted) (hsecond : sides.second.Rooted)
include htraces hfirst hsecond

private theorem Traces.partner_ids {walked : List Origin}
    (hwalked : ∀ origin ∈ walked, origin ∈ walkAll origins) :
    ∀ pair ∈ walked.map Origin.ids, ∀ a, pair.1 = some a →
      Origin.partner? origins a = pair.2 := by
  intro pair hpair a ha
  obtain ⟨origin, horigin, rfl⟩ := List.mem_map.mp hpair
  exact Origin.across_of_mem (htraces.accounts hfirst hsecond).firsts.1 (hwalked origin horigin) ha

theorem Traces.roots_arranged :
    origins.filterMap Origin.second? = (sides.arranged origins).roots := by
  have htop : ∀ origin ∈ origins, origin ∈ walkAll origins := fun origin horigin =>
    Origin.mem_walkAll.mpr ⟨origin, horigin, Origin.mem_walk_self origin⟩
  have hordered := htraces.roots.inPartnerOrder id hsecond.distinct
    (htraces.partner_ids hfirst hsecond htop)
  rwa [List.filterMap_map] at hordered

theorem Traces.children_arranged {origin : Origin} (horigin : origin ∈ walkAll origins)
    {b : DeclId} (hb : origin.second? = some b) :
    origin.children.filterMap Origin.second? = sides.arrangedChildren origins b := by
  have haccounts := htraces.accounts hfirst hsecond
  have hsiblings := (htraces.sound origin horigin).siblings
  have hkinds := (htraces.sound origin horigin).kinds
  have hids : origin.children.filterMap Origin.second? =
      (origin.children.map Origin.ids).filterMap (·.2) := by
    rw [List.filterMap_map]
    rfl
  rw [hb, Option.elim_some] at hsiblings
  rw [arrangedChildren, hids]
  split
  · next hfunction => exact hsiblings.fixed (.inr ⟨b, hb, hfunction⟩)
  · next hother =>
    have hfree : ¬origin.IsFunction sides := by
      rintro (⟨a, ha, hfunction⟩ | ⟨b', hb', hfunction⟩)
      · exact hother (hkinds a b ha hb ▸ hfunction)
      · rw [hb] at hb'
        cases hb'
        exact hother hfunction
    have hcounterpart : Origin.counterpart? origins b = origin.first? :=
      Origin.across_of_mem haccounts.seconds.1 horigin hb
    have hordered := hsiblings.inPartnerOrder hfree (hsecond.owned.distinct b)
      (htraces.partner_ids hfirst hsecond fun below => Origin.walkAll_closed origins horigin)
    rw [hordered, hcounterpart]
    cases ha : origin.first? with
    | some a => rfl
    | none => simp [inPartnerOrder]

private theorem Traces.arranged_roots_perm :
    (sides.arranged origins).roots.Perm sides.second.roots := by
  rw [← htraces.roots_arranged hfirst hsecond]
  exact (htraces.accounts hfirst hsecond).roots.2

private theorem Traces.arrangedChildren_perm (b : DeclId) :
    (sides.arrangedChildren origins b).Perm (sides.second.children b) := by
  by_cases hfunction : (sides.second.declaration b).kind = .function
  · rw [arrangedChildren, if_pos hfunction]
  · cases hcounterpart : Origin.counterpart? origins b with
    | none =>
      rw [arrangedChildren, if_neg hfunction, hcounterpart]
    | some a =>
      obtain ⟨origin, horigin, hb, -⟩ := Origin.across_eq_some hcounterpart
      have hperm := ((htraces.accounts hfirst hsecond).links origin horigin).2
      rwa [htraces.children_arranged hfirst hsecond horigin hb, hb, Option.elim_some] at hperm

/-- A merge moves siblings, but no parameters. -/
theorem Traces.arranged_reorders : (sides.arranged origins).Reorders sides.second := by
  have hchildren (b : DeclId) : (sides.arranged origins).children b = sides.arrangedChildren origins b ∨
      (sides.arranged origins).children b = [] ∧ sides.second.children b = [] := by
    cases hget : sides.second.get? b with
    | none =>
      have hnone : (sides.arranged origins).get? b = none := by
        rw [arranged, Tree.get?_arrange, hget, Option.map_none]
      refine .inr ⟨?_, ?_⟩
      · rw [Tree.children_eq_getD, hnone]
        rfl
      · rw [Tree.children_eq_getD, hget]
        rfl
    | some declaration => exact .inl (Tree.children_arrange hget)
  refine ⟨fun b => ?_, fun b hfunction => ?_, htraces.arranged_roots_perm hfirst hsecond⟩
  · obtain hknown | ⟨hunknown, hnothing⟩ := hchildren b
    · rw [hknown]
      exact htraces.arrangedChildren_perm hfirst hsecond b
    · rw [hunknown, hnothing]
  · obtain hknown | ⟨hunknown, hnothing⟩ := hchildren b
    · rw [hknown, arrangedChildren, if_pos hfunction]
    · rw [hunknown, hnothing]

/-- The sources of the second tree in the order of a merge are those of the second tree, but for the
order of siblings. -/
theorem Traces.arranged_shuffled :
    Source.AllShuffled (sides.arranged origins).toSources sides.second.toSources := by
  have hreorders := htraces.arranged_reorders hfirst hsecond
  exact Tree.toSources_shuffled Tree.arrange_rearranges hreorders.children
    (by simp [arranged, Tree.arrange, Tree.size]) hreorders.roots

end Arranged

private theorem kind_detached {tree : Tree} {id : DeclId} {declaration : Declaration}
    (hget : tree.get? id = some declaration) :
    (tree.detached? id).map (·.kind) = some declaration.kind := by
  rw [Tree.detached?, hget, Option.map_some, Option.map_some, Data.kind_mapRefs]
  rfl

section Carries

variable (htraces : sides.Traces good origins forest)
  (hfirst : sides.first.Regular) (hsecond : sides.second.Regular)
include htraces hfirst hsecond

/-- The topmost nodes are modules. -/
private theorem Traces.kind?_top {origin : Origin} (horigin : origin ∈ origins) :
    (origin.node sides).kind? = some .module := by
  have haccounts := htraces.accounts hfirst.mergeable.rooted hsecond.mergeable.rooted
  have hwalked := Origin.mem_walkAll.mpr ⟨origin, horigin, Origin.mem_walk_self origin⟩
  rw [MergedNode.kind?, MergedNode.primary?, Origin.node_payloads]
  cases ha : origin.first? with
  | some a =>
    have hroot : a ∈ sides.first.roots :=
      haccounts.roots.1 ▸ List.mem_filterMap.mpr ⟨origin, horigin, ha⟩
    obtain ⟨declaration, hget, hkind, -⟩ := hfirst.roots a hroot
    have hdetached := kind_detached hget
    obtain ⟨data, hdata, hsame⟩ := Option.map_eq_some_iff.mp hdetached
    simp [hdata, hsame, hkind]
  | none =>
    obtain ⟨b, hb⟩ : ∃ b, origin.second? = some b := by
      have hsource := (htraces.sound origin hwalked).source
      rw [ha] at hsource
      simpa [Option.isSome_iff_exists] using hsource
    have hroot : b ∈ sides.second.roots :=
      haccounts.roots.2.mem_iff.mp (List.mem_filterMap.mpr ⟨origin, horigin, hb⟩)
    obtain ⟨declaration, hget, hkind, -⟩ := hsecond.roots b hroot
    have hdetached := kind_detached hget
    obtain ⟨data, hdata, hsame⟩ := Option.map_eq_some_iff.mp hdetached
    simp [hb, hdata, hsame, hkind]

/-- The nodes of a merge carry the first tree. -/
theorem Traces.carries_first (hlegible : ∀ id declaration, sides.first.get? id = some declaration →
      sides.first.Legible declaration.payload) :
    Placement.Carries sides .first Origin.first? sides.first sides.first origins := by
  have haccounts := htraces.accounts hfirst.mergeable.rooted hsecond.mergeable.rooted
  have hlinks := fun origin horigin => (haccounts.links origin horigin).1
  refine ⟨fun origin => ?_, .refl _, haccounts.roots.1.symm, fun origin horigin => ⟨fun id hid => ?_,
    hlinks origin horigin⟩, haccounts.firsts.1, hlegible, fun origin horigin id hid => ⟨?_,
    htraces.kind?_top hfirst hsecond horigin⟩, fun origin horigin below hbelow id hid => ?_⟩
  · rw [Origin.node_payloads]
    rfl
  · exact haccounts.known_first hfirst.mergeable.rooted horigin hid
  · have hroot : id ∈ sides.first.roots :=
      haccounts.roots.1 ▸ List.mem_filterMap.mpr ⟨origin, horigin, hid⟩
    obtain ⟨declaration, hget, hkind, -⟩ := hfirst.roots id hroot
    rwa [Tree.declaration_of_get? hget]
  · have hmem : id ∈ origin.first?.elim [] sides.first.children :=
      hlinks origin horigin ▸ List.mem_filterMap.mpr ⟨below, hbelow, hid⟩
    cases ha : origin.first? with
    | none => simp [ha] at hmem
    | some a =>
      rw [ha, Option.elim_some] at hmem
      exact hfirst.child_not_module hmem

/-- The nodes of a merge carry the second tree in the order of the merge. -/
theorem Traces.carries_second
    (hlegible : ∀ id declaration, sides.second.get? id = some declaration →
      sides.second.Legible declaration.payload) :
    Placement.Carries sides .second Origin.second? sides.second (sides.arranged origins)
      origins := by
  have hrootedA := hfirst.mergeable.rooted
  have hrootedB := hsecond.mergeable.rooted
  have haccounts := htraces.accounts hrootedA hrootedB
  refine ⟨fun origin => ?_, Tree.arrange_rearranges, (htraces.roots_arranged hrootedA hrootedB).symm,
    fun origin horigin => ⟨fun id => haccounts.known_second hrootedB horigin, ?_⟩,
    haccounts.seconds.1, hlegible,
    fun origin horigin id hid => ⟨?_, htraces.kind?_top hfirst hsecond horigin⟩,
    fun origin horigin below hbelow id hid => ?_⟩
  · rw [Origin.node_payloads]
    rfl
  · cases hb : origin.second? with
    | none =>
      rw [Option.elim_none, List.filterMap_eq_nil_iff]
      exact (htraces.sound origin horigin).second?_below hb
    | some b =>
      obtain ⟨declaration, hget⟩ := haccounts.known_second hrootedB horigin hb
      rw [htraces.children_arranged hrootedA hrootedB horigin hb, Option.elim_some, arranged,
        Tree.children_arrange hget]
  · have hroot : id ∈ sides.second.roots :=
      haccounts.roots.2.mem_iff.mp (List.mem_filterMap.mpr ⟨origin, horigin, hid⟩)
    obtain ⟨declaration, hget, hkind, -⟩ := hsecond.roots id hroot
    rwa [Tree.declaration_of_get? hget]
  · have hmem : id ∈ origin.second?.elim [] sides.second.children :=
      (haccounts.links origin horigin).2.mem_iff.mp (List.mem_filterMap.mpr ⟨below, hbelow, hid⟩)
    cases hb : origin.second? with
    | none => simp [hb] at hmem
    | some b =>
      rw [hb, Option.elim_some] at hmem
      exact hsecond.child_not_module hmem

end Carries

end Sides

end Concord
