import Concord.Proofs.Declaration.Payload
import Concord.Proofs.Tree.Built
import Concord.Proofs.Tree.Descent

namespace Concord

namespace Tree

/-- The links of a tree are sound, and its index covers its classifiers. -/
structure Regular (tree : Tree) : Prop where
  built : tree.Built
  owned : tree.Owned
  roots : ∀ root ∈ tree.roots, ∃ declaration, tree.get? root = some declaration ∧
    declaration.kind = .module ∧ declaration.container = none
  placed : ∀ id declaration container, tree.get? id = some declaration →
    declaration.container = some container →
    ∃ owner, tree.get? container = some owner ∧ owner.kind.mayContain declaration.kind = true
  named : ∀ name id, tree.classifier? name = some id → ∃ declaration,
    tree.get? id = some declaration ∧ declaration.kind.isClassifier = true ∧
      declaration.qualifiedName = name
  indexed : ∀ id declaration, tree.get? id = some declaration →
    declaration.kind.isClassifier = true → (tree.classifier? declaration.qualifiedName).isSome
  reachable : ∀ id declaration, tree.get? id = some declaration → tree.Reachable id

variable {tree grown : Tree}

/-- What an insertion leaves where: the new declaration stands behind the others, and its container
lists it last. -/
theorem get?_insert {container id : DeclId} {data : Data}
    (hinsert : tree.insert container data = .ok (id, grown)) (other : DeclId) :
    grown.get? other =
      if other = id then some ⟨data, some container, []⟩
      else (tree.get? other).map fun declaration => { declaration with
        children := declaration.children ++ if other = container then [id] else [] } := by
  obtain ⟨owner, howner, -, rfl, rfl⟩ := insert_eq_ok hinsert
  have hne : container ≠ ⟨tree.size⟩ := by
    rintro rfl
    exact absurd (lt_size_of_get? howner) (Nat.lt_irrefl _)
  rw [get?_modify, get?_alloc]
  by_cases hnew : other = ⟨tree.size⟩
  · rw [if_pos hnew, if_pos hnew, if_neg (hnew ▸ hne.symm)]
  · rw [if_neg hnew, if_neg hnew]
    by_cases hcontainer : other = container
    · simp only [if_pos hcontainer]
    · simp only [if_neg hcontainer, List.append_nil, Option.map_id']

theorem Reachable.link {id : DeclId} (hreachable : tree.Reachable id) : tree.link.Reachable id := by
  induction hreachable with
  | root hroot => exact .root hroot
  | child _ hchild ih => exact .child ih (by rwa [children_link])

theorem id_of_insert {container id : DeclId} {data : Data}
    (hinsert : tree.insert container data = .ok (id, grown)) : id = ⟨tree.size⟩ := by
  obtain ⟨_, -, -, hid, -⟩ := insert_eq_ok hinsert
  exact hid

theorem size_insert {container id : DeclId} {data : Data}
    (hinsert : tree.insert container data = .ok (id, grown)) : grown.size = tree.size + 1 := by
  obtain ⟨_, -, -, -, rfl⟩ := insert_eq_ok hinsert
  rw [size_modify, size_alloc]

theorem roots_insert {container id : DeclId} {data : Data}
    (hinsert : tree.insert container data = .ok (id, grown)) : grown.roots = tree.roots := by
  obtain ⟨_, -, -, -, rfl⟩ := insert_eq_ok hinsert
  rw [roots_modify, roots_alloc]

theorem classifier?_insert {container id : DeclId} {data : Data}
    (hinsert : tree.insert container data = .ok (id, grown)) (name : QualifiedName) :
    grown.classifier? name = (tree.classifier? name).or
      (if data.kind.isClassifier ∧ data.qualifiedName = name then some id else none) := by
  obtain ⟨_, -, -, rfl, rfl⟩ := insert_eq_ok hinsert
  exact classifier?_alloc data (some container) name

/-- A tree whose declarations are those of another with one more, which nothing lists yet but its
own container. -/
private structure Extended (tree grown : Tree) (data : Data) (container : Option DeclId) : Prop where
  get? : ∀ other, grown.get? other =
    if other = ⟨tree.size⟩ then some ⟨data, container, []⟩
    else (tree.get? other).map fun declaration => { declaration with
      children := declaration.children ++ if some other = container then [⟨tree.size⟩] else [] }
  classifier? : ∀ name, grown.classifier? name = (tree.classifier? name).or
    (if data.kind.isClassifier ∧ data.qualifiedName = name then some ⟨tree.size⟩ else none)
  owner : ∀ id, container = some id → ∃ owner, tree.get? id = some owner ∧
    owner.kind.mayContain data.kind = true

namespace Extended

variable {data : Data} {container : Option DeclId} (hextended : Extended tree grown data container)
include hextended

private theorem owner_known {id : DeclId} (hid : container = some id) : id ≠ ⟨tree.size⟩ := by
  rintro rfl
  obtain ⟨owner, howner, -⟩ := hextended.owner _ hid
  exact absurd (lt_size_of_get? howner) (Nat.lt_irrefl _)

private theorem get?_known {id : DeclId} {declaration : Declaration}
    (hget : tree.get? id = some declaration) : ∃ children,
    grown.get? id = some { declaration with children } := by
  have hne : id ≠ ⟨tree.size⟩ := by
    rintro rfl
    exact absurd (lt_size_of_get? hget) (Nat.lt_irrefl _)
  exact ⟨_, by rw [hextended.get?, if_neg hne, hget, Option.map_some]⟩

private theorem get?_cases {id : DeclId} {declaration : Declaration}
    (hget : grown.get? id = some declaration) :
    (id = ⟨tree.size⟩ ∧ declaration = ⟨data, container, []⟩) ∨
      ∃ before, tree.get? id = some before ∧ before.data = declaration.data ∧
        before.container = declaration.container := by
  rw [hextended.get?] at hget
  split at hget
  · next hid => exact .inl ⟨hid, (Option.some.inj hget).symm⟩
  · obtain ⟨before, hbefore, rfl⟩ := Option.map_eq_some_iff.mp hget
    exact .inr ⟨before, hbefore, rfl, rfl⟩

private theorem container?_eq (id : DeclId) : grown.container? id =
    if id = ⟨tree.size⟩ then container else tree.container? id := by
  rw [Tree.container?, hextended.get?]
  split
  · rfl
  · rw [Tree.container?, Option.bind_map]
    rfl

private theorem mem_children {parent child : DeclId} : child ∈ grown.children parent ↔
    child ∈ tree.children parent ∨ some parent = container ∧ child = ⟨tree.size⟩ := by
  rw [children_eq_getD, hextended.get?, children_eq_getD]
  by_cases hparent : parent = ⟨tree.size⟩
  · have hnone : tree.get? parent = none := get?_eq_none.mpr (Nat.le_of_eq (by rw [hparent]))
    have hne : some parent ≠ container := fun hcontainer =>
      hextended.owner_known hcontainer.symm hparent
    simp only [if_pos hparent, hnone, hne, false_and, or_false, Option.map_some, Option.map_none,
      Option.getD_some, Option.getD_none]
  · rw [if_neg hparent]
    cases hget : tree.get? parent with
    | none =>
      have hne : some parent ≠ container := fun hcontainer => by
        obtain ⟨owner, howner, -⟩ := hextended.owner parent hcontainer.symm
        rw [hget] at howner
        cases howner
      simp [hne]
    | some declaration =>
      by_cases hcontainer : some parent = container
      · simp [hcontainer]
      · simp [hcontainer]

private theorem owned (howned : tree.Owned) : grown.Owned := by
  have hfresh (parent : DeclId) : (⟨tree.size⟩ : DeclId) ∉ tree.children parent := fun hmem => by
    obtain ⟨declaration, hget, -⟩ := container?_eq_some.mp (howned.listed _ _ hmem)
    exact absurd (lt_size_of_get? hget) (Nat.lt_irrefl _)
  refine ⟨fun parent child hchild => ?_, fun parent => ?_, fun id owner hcontainer => ?_⟩
  · rw [hextended.container?_eq]
    obtain hchild | ⟨hparent, rfl⟩ := hextended.mem_children.mp hchild
    · rw [if_neg fun heq : child = ⟨tree.size⟩ => hfresh parent (heq ▸ hchild)]
      exact howned.listed parent child hchild
    · rw [if_pos rfl, hparent]
  · have hdistinct := howned.distinct parent
    rw [children_eq_getD, hextended.get?]
    split
    · simp
    · rw [children_eq_getD] at hdistinct
      cases hget : tree.get? parent with
      | none => simp
      | some declaration =>
        rw [hget, Option.map_some, Option.getD_some] at hdistinct
        simp only [Option.map_some, Option.getD_some]
        split
        · refine List.nodup_append.mpr ⟨hdistinct, by simp, fun child hchild other hother => ?_⟩
          rintro rfl
          rw [List.mem_singleton] at hother
          exact hfresh parent (by rwa [children_of_get? hget, ← hother])
        · rwa [List.append_nil]
  · rw [hextended.container?_eq] at hcontainer
    split at hcontainer
    · next hid => exact hextended.mem_children.mpr (.inr ⟨hcontainer.symm, hid⟩)
    · exact hextended.mem_children.mpr (.inl (howned.contained id owner hcontainer))

private theorem reachable (hregular : tree.Regular)
    (hroots : ∀ root, root ∈ grown.roots ↔
      root ∈ tree.roots ∨ root = ⟨tree.size⟩ ∧ container = none)
    {id : DeclId} {declaration : Declaration} (hget : grown.get? id = some declaration) :
    grown.Reachable id := by
  have hknown {id : DeclId} (hreachable : tree.Reachable id) : grown.Reachable id := by
    induction hreachable with
    | root hroot => exact .root ((hroots _).mpr (.inl hroot))
    | child _ hchild ih => exact .child ih (hextended.mem_children.mpr (.inl hchild))
  obtain ⟨rfl, rfl⟩ | ⟨before, hbefore, -⟩ := hextended.get?_cases hget
  · cases hcontainer : container with
    | none => exact .root ((hroots _).mpr (.inr ⟨rfl, hcontainer⟩))
    | some owner =>
      obtain ⟨found, hfound, -⟩ := hextended.owner owner hcontainer
      exact .child (hknown (hregular.reachable owner found hfound))
        (hextended.mem_children.mpr (.inr ⟨hcontainer.symm, rfl⟩))
  · exact hknown (hregular.reachable id before hbefore)

private theorem regular (hregular : tree.Regular) (hbuilt : grown.Built)
    (hroots : ∀ root, root ∈ grown.roots ↔
      root ∈ tree.roots ∨ root = ⟨tree.size⟩ ∧ container = none)
    (hmodule : container = none → data.kind = .module) : grown.Regular := by
  refine ⟨hbuilt, hextended.owned hregular.owned, fun root hroot => ?_,
    fun id declaration owner hget hcontainer => ?_, fun name id hname => ?_,
    fun id declaration hget hkind => ?_, fun _ _ => hextended.reachable hregular hroots⟩
  · obtain hroot | ⟨rfl, hfree⟩ := (hroots root).mp hroot
    · obtain ⟨declaration, hget, hkind, hfree⟩ := hregular.roots root hroot
      obtain ⟨children, hgrown⟩ := hextended.get?_known hget
      exact ⟨_, hgrown, hkind, hfree⟩
    · exact ⟨⟨data, container, []⟩, by rw [hextended.get?, if_pos rfl], hmodule hfree, hfree⟩
  · have howner : ∃ declaration', tree.get? owner = some declaration' ∧
        declaration'.kind.mayContain declaration.kind = true := by
      obtain ⟨-, rfl⟩ | ⟨before, hbefore, hdata, hlink⟩ := hextended.get?_cases hget
      · exact hextended.owner owner hcontainer
      · rw [Declaration.kind, ← hdata]
        exact hregular.placed id before owner hbefore (hlink.trans hcontainer)
    obtain ⟨found, hfound, hmay⟩ := howner
    obtain ⟨children, hgrown⟩ := hextended.get?_known hfound
    exact ⟨_, hgrown, hmay⟩
  · rw [hextended.classifier?] at hname
    cases hindex : tree.classifier? name with
    | some found =>
      rw [hindex, Option.some_or] at hname
      cases hname
      obtain ⟨declaration, hget, hkind, hname⟩ := hregular.named name _ hindex
      obtain ⟨children, hgrown⟩ := hextended.get?_known hget
      exact ⟨_, hgrown, hkind, hname⟩
    | none =>
      rw [hindex, Option.none_or] at hname
      split at hname
      · next hnew =>
        cases hname
        exact ⟨⟨data, container, []⟩, by rw [hextended.get?, if_pos rfl], hnew.1, hnew.2⟩
      · cases hname
  · rw [hextended.classifier?, Option.isSome_or]
    obtain ⟨rfl, rfl⟩ | ⟨before, hbefore, hdata, -⟩ := hextended.get?_cases hget
    · exact Bool.or_eq_true_iff.mpr (.inr (by rw [if_pos ⟨hkind, rfl⟩, Option.isSome_some]))
    · rw [Declaration.qualifiedName, ← hdata]
      rw [Declaration.kind, ← hdata] at hkind
      exact Bool.or_eq_true_iff.mpr (.inl (hregular.indexed id before hbefore hkind))

end Extended

namespace Regular

theorem empty : Tree.empty.Regular where
  built := .empty
  owned := ⟨fun parent child hchild => by simp [Tree.children, Tree.get?, Tree.empty] at hchild,
    fun parent => by simp [Tree.children, Tree.get?, Tree.empty],
    fun id container hcontainer => by simp [Tree.container?, Tree.get?, Tree.empty] at hcontainer⟩
  roots := nofun
  placed id declaration container hget := by simp [Tree.get?, Tree.empty] at hget
  named name id hname := by simp [Tree.classifier?, Tree.empty] at hname
  indexed id declaration hget := by simp [Tree.get?, Tree.empty] at hget
  reachable id declaration hget := by simp [Tree.get?, Tree.empty] at hget

variable (hregular : tree.Regular)
include hregular

/-- The child lists of a regular tree form a forest. -/
theorem rooted : tree.Rooted := by
  refine ⟨hregular.owned, hregular.built.roots_sound.1, fun root hroot => ?_, fun root hroot => ?_⟩
  · obtain ⟨declaration, hget, -⟩ := hregular.roots root hroot
    exact ⟨declaration, hget⟩
  · obtain ⟨declaration, hget, -, hfree⟩ := hregular.roots root hroot
    rw [container?, hget, Option.bind_some, hfree]

theorem addRoot {data : Data} (hkind : data.kind = .module) : (tree.addRoot data).2.Regular := by
  have hextended : Extended tree (tree.addRoot data).2 data none :=
    ⟨fun other => by simp [get?_addRoot], classifier?_alloc data none, nofun⟩
  refine hextended.regular hregular (hregular.built.addRoot data) (fun root => ?_) fun _ => hkind
  show root ∈ tree.roots ++ [⟨tree.size⟩] ↔ _
  rw [List.mem_append, List.mem_singleton, and_iff_left rfl]

theorem insert {container id : DeclId} {data : Data}
    (hinsert : tree.insert container data = .ok (id, grown)) : grown.Regular := by
  obtain ⟨owner, howner, hmay, rfl, heq⟩ := insert_eq_ok hinsert
  have hextended : Extended tree grown data (some container) :=
    ⟨fun other => by simp only [get?_insert hinsert, Option.some.injEq],
      classifier?_insert hinsert, by rintro id ⟨⟩; exact ⟨owner, howner, hmay⟩⟩
  refine hextended.regular hregular (hregular.built.insert hinsert) (fun root => ?_) nofun
  rw [heq, roots_modify, roots_alloc]
  exact ⟨.inl, fun hroot => hroot.elim id nofun⟩

theorem link : tree.link.Regular := by
  refine ⟨hregular.built.link, ⟨fun parent child hchild => ?_, fun parent => ?_,
    fun id container hcontainer => ?_⟩, fun root hroot => ?_,
    fun id declaration container hget hcontainer => ?_, fun name id hname => ?_,
    fun id declaration hget hclassifier => ?_, fun id declaration hget => ?_⟩
  · rw [children_link] at hchild
    rw [container?_link]
    exact hregular.owned.listed parent child hchild
  · rw [children_link]
    exact hregular.owned.distinct parent
  · rw [container?_link] at hcontainer
    rw [children_link]
    exact hregular.owned.contained id container hcontainer
  · obtain ⟨declaration, hget, hmodule, hfree⟩ := hregular.roots root hroot
    exact ⟨_, get?_link_of_get? hget, (Data.kind_mapRefs _ _).trans hmodule, hfree⟩
  · rw [get?_link] at hget
    obtain ⟨before, hbefore, rfl⟩ := Option.map_eq_some_iff.mp hget
    obtain ⟨owner, howner, hmay⟩ := hregular.placed id before container hbefore hcontainer
    refine ⟨_, get?_link_of_get? howner, ?_⟩
    rwa [Declaration.kind, Declaration.kind, Data.kind_mapRefs, Data.kind_mapRefs]
  · obtain ⟨declaration, hget, hclassifier, hname⟩ := hregular.named name id hname
    refine ⟨_, get?_link_of_get? hget, ?_, hname⟩
    rwa [Declaration.kind, Data.kind_mapRefs]
  · rw [get?_link] at hget
    obtain ⟨before, hbefore, rfl⟩ := Option.map_eq_some_iff.mp hget
    rw [Declaration.kind, Data.kind_mapRefs] at hclassifier
    exact hregular.indexed id before hbefore hclassifier
  · rw [get?_link] at hget
    obtain ⟨before, hbefore, -⟩ := Option.map_eq_some_iff.mp hget
    exact (hregular.reachable id before hbefore).link

end Regular

end Tree

end Concord
