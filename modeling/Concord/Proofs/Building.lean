import Concord.Proofs.Tree.Editing

namespace Concord

namespace Tree

/-- A class or type alias of a qualified name. -/
def DeclaresClassifier (tree : Tree) (name : QualifiedName) (id : DeclId) : Prop :=
  ∃ declaration, tree.get? id = some declaration ∧ declaration.kind.isClassifier = true ∧
    declaration.qualifiedName = name

/-- The class or type alias of a qualified name that was allocated before all others of the name. -/
def IsFirstClassifier (tree : Tree) (name : QualifiedName) (id : DeclId) : Prop :=
  tree.DeclaresClassifier name id ∧
    ∀ other, tree.DeclaresClassifier name other → id.index ≤ other.index

/-- Listed children point back, nothing is listed twice by one container, owners may own what they
list, and the index of classifiers holds the first declaration of each name. -/
structure Sound (tree : Tree) : Prop where
  listed : ∀ parent, ∀ child ∈ tree.children parent, tree.container? child = some parent
  distinct : ∀ parent, (tree.children parent).Nodup
  placed : ∀ parent, ∀ child ∈ tree.children parent, ∃ owner member,
    tree.signature? parent = some owner ∧ tree.signature? child = some member ∧
      owner.1.mayContain member.1 = true
  first : ∀ name id, tree.classifier? name = some id → tree.IsFirstClassifier name id
  indexed : ∀ name id, tree.DeclaresClassifier name id → (tree.classifier? name).isSome

variable {tree grown : Tree}

theorem declaresClassifier_iff {name : QualifiedName} {id : DeclId} :
    tree.DeclaresClassifier name id ↔
      ∃ kind : Kind, tree.signature? id = some (kind, name) ∧ kind.isClassifier = true := by
  rw [DeclaresClassifier, signature?]
  cases tree.get? id with
  | none => simp
  | some declaration =>
    constructor
    · rintro ⟨found, hfound, hkind, hname⟩
      cases hfound
      exact ⟨declaration.kind, by rw [← hname]; rfl, hkind⟩
    · rintro ⟨kind, hsignature, hkind⟩
      cases hsignature
      exact ⟨declaration, rfl, hkind, rfl⟩

theorem lt_size_of_signature? {id : DeclId} {signature : Kind × QualifiedName}
    (hsignature : tree.signature? id = some signature) : id.index < tree.size := by
  obtain ⟨declaration, hget, -⟩ := Option.map_eq_some_iff.mp hsignature
  exact lt_size_of_get? hget

theorem lt_size_of_container? {id container : DeclId}
    (hcontainer : tree.container? id = some container) : id.index < tree.size := by
  obtain ⟨declaration, hget, -⟩ := container?_eq_some.mp hcontainer
  exact lt_size_of_get? hget

/-- A class or type alias of a tree that grows by one declaration. -/
theorem declaresClassifier_alloc {data : Data} {container : Option DeclId} {name : QualifiedName}
    {id : DeclId} : (tree.alloc data container).2.DeclaresClassifier name id ↔
      tree.DeclaresClassifier name id ∨
        id = ⟨tree.size⟩ ∧ data.kind.isClassifier = true ∧ data.qualifiedName = name := by
  rw [declaresClassifier_iff, signature?_alloc, declaresClassifier_iff]
  by_cases hid : id = ⟨tree.size⟩
  · have hfresh : ¬∃ kind : Kind, tree.signature? id = some (kind, name) ∧
        kind.isClassifier = true := by
      rintro ⟨kind, hsignature, -⟩
      have hlt := lt_size_of_signature? hsignature
      rw [hid] at hlt
      exact Nat.lt_irrefl _ hlt
    rw [if_pos hid, or_iff_right hfresh]
    constructor
    · rintro ⟨kind, hsame, hkind⟩
      cases hsame
      exact ⟨hid, hkind, rfl⟩
    · rintro ⟨-, hkind, rfl⟩
      exact ⟨data.kind, rfl, hkind⟩
  · rw [if_neg hid, or_iff_left fun h => hid h.1]

namespace Sound

theorem empty : Tree.empty.Sound where
  listed parent child hchild := by cases hchild
  distinct parent := List.nodup_nil
  placed parent child hchild := by cases hchild
  first name id hname := by cases hname
  indexed name id := by
    rintro ⟨declaration, hget, -⟩
    cases hget

/-- The index stays right where kinds, names and the index stay. -/
private theorem keeps_index (hsound : tree.Sound)
    (hsignature : ∀ id, grown.signature? id = tree.signature? id)
    (hindex : grown.classifiers = tree.classifiers) :
    (∀ name id, grown.classifier? name = some id → grown.IsFirstClassifier name id) ∧
      ∀ name id, grown.DeclaresClassifier name id → (grown.classifier? name).isSome := by
  have hdeclares (name : QualifiedName) (id : DeclId) :
      grown.DeclaresClassifier name id ↔ tree.DeclaresClassifier name id := by
    rw [declaresClassifier_iff, declaresClassifier_iff, hsignature]
  have hclassifier (name : QualifiedName) : grown.classifier? name = tree.classifier? name := by
    rw [Tree.classifier?, hindex, Tree.classifier?]
  constructor
  · intro name id hname
    obtain ⟨hid, hfirst⟩ := hsound.first name id (by rwa [← hclassifier])
    refine ⟨(hdeclares name id).mpr hid, fun other hother => ?_⟩
    exact hfirst other ((hdeclares name other).mp hother)
  · intro name id hid
    rw [hclassifier]
    exact hsound.indexed name id ((hdeclares name id).mp hid)

variable (hsound : tree.Sound)
include hsound

theorem fresh_not_listed (parent : DeclId) : (⟨tree.size⟩ : DeclId) ∉ tree.children parent := by
  intro hchild
  exact Nat.lt_irrefl _ (lt_size_of_container? (hsound.listed parent _ hchild))

theorem alloc (data : Data) (container : Option DeclId) :
    (tree.alloc data container).2.Sound where
  listed parent child hchild := by
    rw [children_alloc] at hchild
    have hne : child ≠ ⟨tree.size⟩ := by
      rintro rfl
      exact hsound.fresh_not_listed parent hchild
    rw [container?_alloc, if_neg hne]
    exact hsound.listed parent child hchild
  distinct parent := by
    rw [children_alloc]
    exact hsound.distinct parent
  placed parent child hchild := by
    rw [children_alloc] at hchild
    obtain ⟨owner, member, howner, hmember, hmay⟩ := hsound.placed parent child hchild
    have hknown {id : DeclId} {signature : Kind × QualifiedName}
        (hsignature : tree.signature? id = some signature) :
        (tree.alloc data container).2.signature? id = some signature := by
      have hne : id ≠ ⟨tree.size⟩ := by
        rintro rfl
        exact Nat.lt_irrefl _ (lt_size_of_signature? hsignature)
      rw [signature?_alloc, if_neg hne, hsignature]
    exact ⟨owner, member, hknown howner, hknown hmember, hmay⟩
  first name id hname := by
    rw [classifier?_alloc] at hname
    cases hindex : tree.classifier? name with
    | some found =>
      rw [hindex, Option.some_or] at hname
      cases hname
      obtain ⟨hid, hfirst⟩ := hsound.first name id hindex
      refine ⟨declaresClassifier_alloc.mpr (.inl hid), fun other hother => ?_⟩
      obtain hother | ⟨rfl, -⟩ := declaresClassifier_alloc.mp hother
      · exact hfirst other hother
      · obtain ⟨declaration, hget, -⟩ := hid
        exact Nat.le_of_lt (lt_size_of_get? hget)
    | none =>
      rw [hindex, Option.none_or] at hname
      split at hname
      · next hnew =>
        cases hname
        refine ⟨declaresClassifier_alloc.mpr (.inr ⟨rfl, hnew.1, hnew.2⟩), fun other hother => ?_⟩
        obtain hother | ⟨rfl, -⟩ := declaresClassifier_alloc.mp hother
        · have hsome := hsound.indexed name other hother
          rw [hindex] at hsome
          cases hsome
        · exact Nat.le_refl _
      · cases hname
  indexed name id hid := by
    rw [classifier?_alloc, Option.isSome_or]
    obtain hid | ⟨-, hkind, hname⟩ := declaresClassifier_alloc.mp hid
    · rw [hsound.indexed name id hid, Bool.true_or]
    · rw [if_pos ⟨hkind, hname⟩, Option.isSome_some, Bool.or_true]

theorem pointAt {child parent : DeclId}
    (hfree : ∀ owner, tree.container? child = some owner → owner = parent) :
    (tree.pointAt child parent).Sound := by
  obtain ⟨hfirst, hindexed⟩ := hsound.keeps_index (signature?_pointAt child parent) rfl
  refine ⟨fun owner member hmember => ?_, fun owner => ?_, fun owner member hmember => ?_, hfirst,
    hindexed⟩
  · rw [children_pointAt] at hmember
    have hcontainer := hsound.listed owner member hmember
    rw [container?_pointAt]
    split
    · next hsame =>
      rw [hsame.1] at hcontainer
      rw [hfree owner hcontainer]
    · exact hcontainer
  · rw [children_pointAt]
    exact hsound.distinct owner
  · rw [children_pointAt] at hmember
    rw [signature?_pointAt, signature?_pointAt]
    exact hsound.placed owner member hmember

theorem enlist {parent child : DeclId} {owner member : Kind × QualifiedName}
    (howner : tree.signature? parent = some owner) (hmember : tree.signature? child = some member)
    (hmay : owner.1.mayContain member.1 = true)
    (hcontainer : tree.container? child = some parent) (hfresh : child ∉ tree.children parent) :
    (tree.enlist parent child).Sound := by
  obtain ⟨hfirst, hindexed⟩ := hsound.keeps_index (signature?_enlist parent child) rfl
  have hchildren (id other : DeclId) (hother : other ∈ (tree.enlist parent child).children id) :
      other ∈ tree.children id ∨ id = parent ∧ other = child := by
    rw [children_enlist, List.mem_append] at hother
    obtain hother | hother := hother
    · exact .inl hother
    · split at hother
      · next hid => exact .inr ⟨hid.1, List.mem_singleton.mp hother⟩
      · cases hother
  refine ⟨fun id other hother => ?_, fun id => ?_, fun id other hother => ?_, hfirst, hindexed⟩
  · rw [container?_enlist]
    obtain hother | ⟨rfl, rfl⟩ := hchildren id other hother
    · exact hsound.listed id other hother
    · exact hcontainer
  · rw [children_enlist]
    split
    · next hid =>
      refine List.nodup_append.mpr ⟨hsound.distinct id, List.pairwise_singleton _ child, ?_⟩
      intro other hother new hnew hsame
      rw [List.mem_singleton] at hnew
      rw [hsame, hnew, hid.1] at hother
      exact hfresh hother
    · rw [List.append_nil]
      exact hsound.distinct id
  · rw [signature?_enlist, signature?_enlist]
    obtain hother | ⟨rfl, rfl⟩ := hchildren id other hother
    · exact hsound.placed id other hother
    · exact ⟨owner, member, howner, hmember, hmay⟩

theorem link : tree.link.Sound := by
  obtain ⟨hfirst, hindexed⟩ := hsound.keeps_index signature?_link rfl
  refine ⟨fun owner member hmember => ?_, fun owner => ?_, fun owner member hmember => ?_, hfirst,
    hindexed⟩
  · rw [children_link] at hmember
    rw [container?_link]
    exact hsound.listed owner member hmember
  · rw [children_link]
    exact hsound.distinct owner
  · rw [children_link] at hmember
    rw [signature?_link, signature?_link]
    exact hsound.placed owner member hmember

end Sound

/-- The placeholders of a tree: declarations with a container that does not list them. -/
def Awaits (tree : Tree) (placeholders : List (DeclId × DeclId)) : Prop :=
  ∀ id container, (id, container) ∈ placeholders ↔
    tree.container? id = some container ∧ id ∉ tree.children container

namespace Awaits

variable {placeholders : List (DeclId × DeclId)} (hawaits : tree.Awaits placeholders)
include hawaits

theorem id_ne_fresh {listing : DeclId × DeclId} (hmember : listing ∈ placeholders) :
    listing.1 ≠ ⟨tree.size⟩ := by
  intro hid
  have hcontainer := ((hawaits listing.1 listing.2).mp hmember).1
  rw [hid] at hcontainer
  exact Nat.lt_irrefl _ (lt_size_of_container? hcontainer)

/-- A declaration that is allocated with a container awaits it. -/
theorem alloc (hsound : tree.Sound) (data : Data) (container : Option DeclId) :
    (tree.alloc data container).2.Awaits
      ((container.toList.map fun owner => (⟨tree.size⟩, owner)) ++ placeholders) := by
  intro id owner
  rw [container?_alloc, children_alloc, List.mem_append]
  by_cases hid : id = ⟨tree.size⟩
  · have hold : (id, owner) ∉ placeholders := fun hmember => hawaits.id_ne_fresh hmember hid
    rw [if_pos hid, or_iff_left hold, and_iff_left (hid ▸ hsound.fresh_not_listed owner), hid]
    cases container with
    | none => simp
    | some container => simp [eq_comm]
  · have hnew : (id, owner) ∉
        container.toList.map fun owner => ((⟨tree.size⟩ : DeclId), owner) := by
      intro hmember
      obtain ⟨_, -, heq⟩ := List.mem_map.mp hmember
      exact hid (congrArg Prod.fst heq).symm
    rw [if_neg hid, or_iff_right hnew]
    exact hawaits id owner

/-- A free declaration that is pointed at a container awaits it. -/
theorem pointAt {child parent : DeclId} (hknown : (tree.get? child).isSome)
    (hfree : ∀ owner, tree.container? child = some owner → owner = parent)
    (hfresh : child ∉ tree.children parent) :
    (tree.pointAt child parent).Awaits ((child, parent) :: placeholders) := by
  intro id owner
  rw [container?_pointAt, children_pointAt, List.mem_cons]
  by_cases hid : id = child
  · subst hid
    rw [if_pos ⟨rfl, hknown⟩, Prod.mk.injEq, Option.some_inj, hawaits]
    constructor
    · rintro (⟨-, rfl⟩ | ⟨hcontainer, hunlisted⟩)
      · exact ⟨rfl, hfresh⟩
      · exact ⟨(hfree owner hcontainer).symm, hunlisted⟩
    · rintro ⟨rfl, -⟩
      exact .inl ⟨rfl, rfl⟩
  · rw [if_neg fun h => hid h.1, or_iff_right fun heq => hid (congrArg Prod.fst heq)]
    exact hawaits id owner

/-- A declaration that its container lists awaits nothing any more. -/
theorem enlist {child parent : DeclId} (hknown : (tree.get? parent).isSome)
    (hcontainer : tree.container? child = some parent) :
    (tree.enlist parent child).Awaits (placeholders.filter (·.1 != child)) := by
  intro id owner
  rw [container?_enlist, children_enlist, List.mem_filter, hawaits, List.mem_append, not_or,
    bne_iff_ne, and_assoc]
  refine and_congr_right fun howner => and_congr_right fun _ => ?_
  constructor
  · intro hne hmember
    split at hmember
    · exact hne (List.mem_singleton.mp hmember)
    · cases hmember
  · rintro hunlisted rfl
    have hsame : owner = parent := Option.some.inj (howner.symm.trans hcontainer)
    rw [if_pos ⟨hsame, hknown⟩] at hunlisted
    exact hunlisted List.mem_cons_self

theorem link : tree.link.Awaits placeholders := by
  intro id owner
  rw [container?_link, children_link]
  exact hawaits id owner

end Awaits

end Tree

namespace Edit

/-- The placeholders that are left after a session. -/
def placeholdersAfter : List Edit → Tree → List (DeclId × DeclId) → List (DeclId × DeclId)
  | [], _, before => before
  | edit :: rest, tree, before =>
    placeholdersAfter rest (edit.run tree).2 (edit.placeholders (edit.run tree).1 before)

variable {tree grown : Tree} {edit : Edit} {answer : Except TreeError (Option DeclId)}

namespace Effect

/-- One edit keeps a tree sound. -/
theorem sound (heffect : Effect tree edit answer grown) (hsound : tree.Sound) : grown.Sound := by
  cases heffect with
  | refused edit error => exact hsound
  | alloc data container => exact hsound.alloc data container
  | root hkeeps data =>
    have hgrown := hsound.alloc data none
    exact ⟨hgrown.listed, hgrown.distinct, hgrown.placed, hgrown.first, hgrown.indexed⟩
  | @insert edit _ container owner data howner hmay =>
    have hgrown := hsound.alloc data (some container)
    have hne : container ≠ ⟨tree.size⟩ := by
      rintro rfl
      exact Nat.lt_irrefl _ (Tree.lt_size_of_get? howner)
    have hcontainer : (tree.alloc data (some container)).2.signature? container =
        some (owner.kind, owner.qualifiedName) := by
      rw [Tree.signature?_alloc, if_neg hne, Tree.signature?, howner, Option.map_some]
    have hmember : (tree.alloc data (some container)).2.signature? ⟨tree.size⟩ =
        some (data.kind, data.qualifiedName) := by
      rw [Tree.signature?_alloc, if_pos rfl]
    refine hgrown.enlist hcontainer hmember hmay ?_ ?_
    · rw [Tree.container?_alloc, if_pos rfl]
    · rw [Tree.children_alloc]
      exact hsound.fresh_not_listed container
  | @attach parent child owner declaration howner hchild hmay hfree hfresh =>
    have hpointed := hsound.pointAt hfree
    have hparent : (tree.pointAt child parent).signature? parent =
        some (owner.kind, owner.qualifiedName) := by
      rw [Tree.signature?_pointAt, Tree.signature?, howner, Option.map_some]
    have hmember : (tree.pointAt child parent).signature? child =
        some (declaration.kind, declaration.qualifiedName) := by
      rw [Tree.signature?_pointAt, Tree.signature?, hchild, Option.map_some]
    refine hpointed.enlist hparent hmember hmay ?_ ?_
    · rw [Tree.container?_pointAt, hchild, if_pos ⟨rfl, rfl⟩]
    · rwa [Tree.children_pointAt]
  | link => exact hsound.link

/-- One edit changes the placeholders as its answer says. -/
theorem awaits (heffect : Effect tree edit answer grown) (hsound : tree.Sound)
    {before : List (DeclId × DeclId)} (hbefore : tree.Awaits before) :
    grown.Awaits (edit.placeholders answer before) := by
  cases heffect with
  | refused edit error =>
    have hkeeps : edit.placeholders (.error error) before = before := by
      cases edit with
      | alloc data container => cases container <;> rfl
      | _ => rfl
    rwa [hkeeps]
  | alloc data container =>
    have hgrown := hbefore.alloc hsound data container
    cases container with
    | none => exact hgrown
    | some owner => exact hgrown
  | root hkeeps data =>
    rw [hkeeps]
    exact hbefore.alloc hsound data none
  | @insert edit hkeeps container owner data howner hmay =>
    have hgrown := hbefore.alloc hsound data (some container)
    have hlisted : Tree.Awaits (Tree.enlist _ container ⟨tree.size⟩) _ := hgrown.enlist ?_ ?_
    · have hsame : before.filter (·.1 != ⟨tree.size⟩) = before :=
        List.filter_eq_self.mpr fun listing hmember =>
          bne_iff_ne.mpr (hbefore.id_ne_fresh hmember)
      rw [hkeeps]
      simpa [hsame] using hlisted
    · have hne : container ≠ ⟨tree.size⟩ := by
        rintro rfl
        exact Nat.lt_irrefl _ (Tree.lt_size_of_get? howner)
      rw [Tree.get?_alloc, if_neg hne, howner, Option.isSome_some]
    · rw [Tree.container?_alloc, if_pos rfl]
  | @attach parent child owner declaration howner hchild hmay hfree hfresh =>
    have hchildKnown : (tree.get? child).isSome := by rw [hchild, Option.isSome_some]
    have hpointed := hbefore.pointAt hchildKnown hfree hfresh
    have hlisted : Tree.Awaits (Tree.enlist _ parent child) _ := hpointed.enlist ?_ ?_
    · rw [List.filter_cons_of_neg (by simp)] at hlisted
      exact hlisted
    · rw [Tree.isSome_get?_pointAt, howner, Option.isSome_some]
    · rw [Tree.container?_pointAt, if_pos ⟨rfl, hchildKnown⟩]
  | link => exact hbefore.link

/-- An edit that fails has changed nothing. -/
theorem unchanged (heffect : Effect tree edit answer grown) {error : TreeError}
    (herror : answer = .error error) : grown = tree := by
  cases heffect with
  | refused edit error => rfl
  | _ => cases herror

end Effect

/-- A session keeps a tree sound, and tells which placeholders it leaves. -/
theorem runAll_keeps (edits : List Edit) (tree : Tree) (hsound : tree.Sound)
    {before : List (DeclId × DeclId)} (hbefore : tree.Awaits before) :
    (runAll edits tree).Sound ∧
      (runAll edits tree).Awaits (placeholdersAfter edits tree before) := by
  induction edits generalizing tree before with
  | nil => exact ⟨hsound, hbefore⟩
  | cons edit rest ih =>
    have heffect := effect_run hsound.listed edit
    exact ih (edit.run tree).2 (heffect.sound hsound) (heffect.awaits hsound hbefore)

end Edit

namespace Tree

namespace Sound

variable {tree : Tree} (hsound : tree.Sound)
include hsound

/-- What a listing of a sound tree ensures. -/
theorem owner_of_listing {parent child : DeclId} (hlisting : (parent, child) ∈ tree.listings) :
    ∃ owner declaration, tree.get? parent = some owner ∧ tree.get? child = some declaration ∧
      declaration.container = some parent ∧
      checkContainer declaration.kind owner.kind = .ok () := by
  have hchild := mem_listings.mp hlisting
  obtain ⟨declaration, hget, hcontainer⟩ :=
    container?_eq_some.mp (hsound.listed parent child hchild)
  obtain ⟨_, _, howner, hmember, hmay⟩ := hsound.placed parent child hchild
  obtain ⟨owner, hparent, rfl⟩ := Option.map_eq_some_iff.mp howner
  rw [signature?, hget, Option.map_some] at hmember
  cases hmember
  exact ⟨owner, declaration, hparent, hget, hcontainer, by rw [checkContainer, if_pos hmay]⟩

/-- The index leads to the first class or type alias of a name, if the tree has one. -/
theorem classifier?_eq_some {name : QualifiedName} {id : DeclId} :
    tree.classifier? name = some id ↔ tree.IsFirstClassifier name id := by
  refine ⟨hsound.first name id, fun hfirst => ?_⟩
  obtain ⟨found, hfound⟩ := Option.isSome_iff_exists.mp (hsound.indexed name id hfirst.1)
  have hother := hsound.first name found hfound
  have hsame : found.index = id.index :=
    Nat.le_antisymm (hother.2 id hfirst.1) (hfirst.2 found hother.1)
  rw [hfound, Option.some_inj]
  exact congrArg DeclId.mk hsame

/-- The ownership check of a sound tree stops only at a placeholder. -/
theorem checkOwnership {placeholders : List (DeclId × DeclId)}
    (hawaits : tree.Awaits placeholders) :
    (tree.checkOwnership = .ok () ↔ placeholders = []) ∧
      ∀ error, tree.checkOwnership = .error error → ∃ id container declaration,
        (id, container) ∈ placeholders ∧ tree.get? id = some declaration ∧
          declaration.container = some container ∧ id ∉ tree.children container ∧
          error = .brokenContainerLink declaration.qualifiedName container (some container) := by
  have hlistings : tree.checkListings tree.listings [] = .ok () := by
    refine checkListings_iff _ _ |>.mpr ⟨fun listing hlisting => ?_,
      nodup_listings hsound.listed hsound.distinct, fun _ _ => List.not_mem_nil⟩
    exact hsound.listed listing.1 listing.2 (mem_listings.mp hlisting)
  constructor
  · rw [checkOwnership_iff, List.eq_nil_iff_forall_not_mem]
    constructor
    · rintro howned ⟨id, container⟩ hmember
      obtain ⟨hcontainer, hunlisted⟩ := (hawaits id container).mp hmember
      exact hunlisted (howned.contained id container hcontainer)
    · intro hnone
      refine ⟨hsound.listed, hsound.distinct, fun id container hcontainer => ?_⟩
      by_cases hlisted : id ∈ tree.children container
      · exact hlisted
      · exact absurd ((hawaits id container).mpr ⟨hcontainer, hlisted⟩) (hnone (id, container))
  · intro error herror
    rw [Tree.checkOwnership, hlistings] at herror
    obtain ⟨⟨id, declaration⟩, hentry, container, hcontainer, hunlisted, rfl⟩ :=
      checkContainers_eq_error herror
    have hget : tree.get? id = some declaration := mem_entries.mp hentry
    have hchild : id ∉ tree.children container := fun hchild =>
      hunlisted (mem_map_listings.mpr ⟨container, hchild⟩)
    refine ⟨id, container, declaration, (hawaits id container).mpr ⟨?_, hchild⟩, hget, hcontainer,
      hchild, rfl⟩
    exact container?_eq_some.mpr ⟨declaration, hget, hcontainer⟩

end Sound

end Tree

/-- Building on the empty tree, with any ids and names and going on after every error. Each listed
child stands in one list only, which is that of its container, and is of a kind that its container
may own. A name leads to the first class or type alias that was allocated under it. The ownership
check fails when a placeholder is left, and then names one. The next edit, if it fails, changes
nothing. -/
theorem building_keeps_ownership (edits : List Edit) :
    let tree := Edit.runAll edits .empty
    let placeholders := Edit.placeholdersAfter edits .empty []
    (∀ parent child, (parent, child) ∈ tree.listings → ∃ owner declaration,
      tree.get? parent = some owner ∧ tree.get? child = some declaration ∧
        declaration.container = some parent ∧
        Tree.checkContainer declaration.kind owner.kind = .ok ()) ∧
      (tree.listings.map (·.2)).Nodup ∧
      (∀ name id, tree.classifier? name = some id ↔ tree.IsFirstClassifier name id) ∧
      (tree.checkOwnership = .ok () ↔ placeholders = []) ∧
      (∀ error, tree.checkOwnership = .error error → ∃ id container declaration,
        (id, container) ∈ placeholders ∧ tree.get? id = some declaration ∧
          declaration.container = some container ∧ id ∉ tree.children container ∧
          error = .brokenContainerLink declaration.qualifiedName container (some container)) ∧
      ∀ (edit : Edit) (error : TreeError),
        (edit.run tree).1 = .error error → (edit.run tree).2 = tree := by
  intro tree placeholders
  have hempty : Tree.empty.Awaits [] := fun id container => iff_of_false nofun nofun
  obtain ⟨hsound, hawaits⟩ := Edit.runAll_keeps edits .empty .empty hempty
  obtain ⟨hpasses, hstops⟩ := hsound.checkOwnership hawaits
  refine ⟨fun parent child hlisting => ?_, Tree.nodup_listings hsound.listed hsound.distinct,
    fun name id => hsound.classifier?_eq_some, hpasses, hstops, fun edit error herror => ?_⟩
  · exact hsound.owner_of_listing hlisting
  · exact (Edit.effect_run hsound.listed edit).unchanged herror

end Concord
