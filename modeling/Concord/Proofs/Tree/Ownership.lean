import Concord.Tree.Ownership

namespace Concord

namespace Tree

/-- Ownership is sound: the children of a declaration point back at it, none is listed twice, and
every declaration with a container is among its children. -/
structure Owned (tree : Tree) : Prop where
  listed : ∀ parent, ∀ child ∈ tree.children parent, tree.container? child = some parent
  distinct : ∀ parent, (tree.children parent).Nodup
  contained : ∀ id container, tree.container? id = some container → id ∈ tree.children container

variable {tree : Tree}

theorem mem_entries {id : DeclId} {declaration : Declaration} :
    (id, declaration) ∈ tree.entries ↔ tree.get? id = some declaration := by
  obtain ⟨index⟩ := id
  simp [entries, get?, List.mem_mapIdx, Array.getElem?_eq_some_iff]

private theorem map_listings : tree.listings.map (·.2) = tree.entries.flatMap (·.2.children) := by
  simp [listings, List.map_flatMap, Function.comp_def]

private theorem entries_ids_distinct :
    tree.entries.Pairwise fun entry other => entry.1 ≠ other.1 := by
  have hids : tree.entries.map (·.1) = (List.range tree.size).map DeclId.mk := by
    refine List.ext_getElem (by simp [entries, size]) fun index _ _ => ?_
    simp [entries]
  have hdistinct : ((List.range tree.size).map DeclId.mk).Pairwise (· ≠ ·) :=
    List.pairwise_map.mpr (List.nodup_range.imp fun hne heq => hne (DeclId.mk.inj heq))
  rw [← hids] at hdistinct
  exact List.pairwise_map.mp hdistinct

theorem mem_listings {parent child : DeclId} :
    (parent, child) ∈ tree.listings ↔ child ∈ tree.children parent := by
  simp only [listings, List.mem_flatMap, List.mem_map, Prod.exists, mem_entries, Prod.mk.injEq,
    children]
  constructor
  · rintro ⟨id, declaration, hget, child, hchild, rfl, rfl⟩
    simpa only [hget] using hchild
  · intro hchild
    cases hget : tree.get? parent with
    | none => simp [hget] at hchild
    | some declaration =>
      rw [hget] at hchild
      exact ⟨parent, declaration, hget, child, hchild, rfl, rfl⟩

theorem container?_eq_some {id container : DeclId} :
    tree.container? id = some container ↔
      ∃ declaration, tree.get? id = some declaration ∧ declaration.container = some container :=
  Option.bind_eq_some_iff

theorem checkListings_iff (listings : List (DeclId × DeclId)) (seen : List DeclId) :
    tree.checkListings listings seen = .ok () ↔
      (∀ listing ∈ listings, tree.container? listing.2 = some listing.1) ∧
        (listings.map (·.2)).Nodup ∧ ∀ listing ∈ listings, listing.2 ∉ seen := by
  induction listings generalizing seen with
  | nil => simp [checkListings]
  | cons listing rest ih =>
    obtain ⟨parent, child⟩ := listing
    cases hget : tree.get? child with
    | none => simp [checkListings, fetch, container?, hget, bind, Except.bind]
    | some declaration =>
      by_cases hseen : child ∈ seen
      · simp [checkListings, fetch, hget, hseen, bind, Except.bind, throw, throwThe,
          MonadExceptOf.throw]
      · by_cases hcontainer : declaration.container = some parent
        · have hrest : tree.checkListings ((parent, child) :: rest) seen =
              tree.checkListings rest (child :: seen) := by
            simp [checkListings, fetch, hget, hseen, hcontainer, bind, Except.bind]
          have hlink : tree.container? child = some parent :=
            container?_eq_some.mpr ⟨declaration, hget, hcontainer⟩
          rw [hrest, ih]
          simp only [List.map_cons, List.nodup_cons, List.mem_map, List.mem_cons, not_or]
          grind
        · simp [checkListings, fetch, container?, hget, hseen, hcontainer, bind, Except.bind,
            throw, throwThe, MonadExceptOf.throw]

/-- The check stops at a declaration with a container that is not among the listed ones. -/
theorem checkContainers_eq_error {listed : List DeclId} {entries : List (DeclId × Declaration)}
    {error : TreeError} (hcheck : checkContainers listed entries = .error error) :
    ∃ entry ∈ entries, ∃ container, entry.2.container = some container ∧ entry.1 ∉ listed ∧
      error = .brokenContainerLink entry.2.qualifiedName container (some container) := by
  induction entries with
  | nil => cases hcheck
  | cons entry rest ih =>
    obtain ⟨id, declaration⟩ := entry
    have hrest (hcheck : checkContainers listed rest = .error error) :
        ∃ entry ∈ (id, declaration) :: rest, ∃ container, entry.2.container = some container ∧
          entry.1 ∉ listed ∧
          error = .brokenContainerLink entry.2.qualifiedName container (some container) := by
      obtain ⟨entry, hentry, hstop⟩ := ih hcheck
      exact ⟨entry, List.mem_cons_of_mem _ hentry, hstop⟩
    cases hcontainer : declaration.container with
    | none =>
      rw [checkContainers, hcontainer] at hcheck
      exact hrest hcheck
    | some container =>
      rw [checkContainers, hcontainer] at hcheck
      by_cases hlisted : id ∈ listed
      · simp only [List.contains_iff_mem.mpr hlisted] at hcheck
        exact hrest hcheck
      · have hunlisted : ¬listed.contains id = true := fun h => hlisted (List.contains_iff_mem.mp h)
        simp only [hunlisted] at hcheck
        cases hcheck
        exact ⟨(id, declaration), List.mem_cons_self, container, hcontainer, hlisted, rfl⟩

private theorem checkContainers_iff (listed : List DeclId)
    (entries : List (DeclId × Declaration)) :
    checkContainers listed entries = .ok () ↔
      ∀ entry ∈ entries, entry.2.container.isSome → entry.1 ∈ listed := by
  induction entries with
  | nil => simp [checkContainers]
  | cons entry rest ih =>
    obtain ⟨id, declaration⟩ := entry
    cases hcontainer : declaration.container with
    | none => simp [checkContainers, hcontainer, ih]
    | some container =>
      by_cases hlisted : id ∈ listed
      · simp [checkContainers, hcontainer, hlisted, ih]
      · simp [checkContainers, hcontainer, hlisted, bind, Except.bind, throw, throwThe,
          MonadExceptOf.throw]

theorem mem_map_listings {id : DeclId} :
    id ∈ tree.listings.map (·.2) ↔ ∃ parent, id ∈ tree.children parent := by
  simp [List.mem_map, mem_listings]

/-- No declaration is listed twice when children point back and no declaration lists a child twice. -/
theorem nodup_listings
    (hlisted : ∀ parent, ∀ child ∈ tree.children parent, tree.container? child = some parent)
    (hdistinct : ∀ parent, (tree.children parent).Nodup) : (tree.listings.map (·.2)).Nodup := by
  rw [map_listings]
  refine List.pairwise_flatMap.mpr ⟨fun entry hentry => ?_, ?_⟩
  · have hdistinct := hdistinct entry.1
    rwa [children, mem_entries.mp hentry] at hdistinct
  · refine List.Pairwise.imp_of_mem (fun {entry other} hentry hother hne => ?_)
      entries_ids_distinct
    intro child hchild sibling hsibling heq
    have hfirst := hlisted entry.1 child (by rwa [children, mem_entries.mp hentry])
    have hsecond := hlisted other.1 sibling (by rwa [children, mem_entries.mp hother])
    exact hne (Option.some.inj (hfirst.symm.trans (heq ▸ hsecond)))

/-- A declaration lists no child twice when none is listed twice. -/
theorem distinct_of_nodup_listings (hnodup : (tree.listings.map (·.2)).Nodup) (parent : DeclId) :
    (tree.children parent).Nodup := by
  cases hget : tree.get? parent with
  | none => simp [children, hget]
  | some declaration =>
    rw [map_listings] at hnodup
    have hmember := (List.pairwise_flatMap.mp hnodup).1 (parent, declaration) (mem_entries.mpr hget)
    simpa only [children, hget, List.Nodup] using hmember

/-- The ownership check passes exactly the trees whose ownership is sound. -/
theorem checkOwnership_iff : tree.checkOwnership = .ok () ↔ tree.Owned := by
  have hcheck : tree.checkOwnership = .ok () ↔ tree.checkListings tree.listings [] = .ok () ∧
      checkContainers (tree.listings.map (·.2)) tree.entries = .ok () := by
    rw [checkOwnership]
    cases tree.checkListings tree.listings [] with
    | error error => simp [bind, Except.bind]
    | ok _ => simp [bind, Except.bind]
  rw [hcheck, checkListings_iff, checkContainers_iff]
  constructor
  · rintro ⟨⟨hlinks, hnodup, -⟩, hcontained⟩
    have hlinked (parent child : DeclId) (hchild : child ∈ tree.children parent) :
        tree.container? child = some parent :=
      hlinks (parent, child) (mem_listings.mpr hchild)
    refine ⟨hlinked, distinct_of_nodup_listings hnodup, fun id container hcontainer => ?_⟩
    obtain ⟨declaration, hget, hsome⟩ := container?_eq_some.mp hcontainer
    obtain ⟨parent, hparent⟩ := mem_map_listings.mp
      (hcontained (id, declaration) (mem_entries.mpr hget) (by simp [hsome]))
    have hsame : some parent = some container := (hlinked parent id hparent).symm.trans hcontainer
    exact Option.some.inj hsame ▸ hparent
  · intro howned
    refine ⟨⟨fun listing hlisting => ?_, nodup_listings howned.listed howned.distinct,
      fun _ _ => List.not_mem_nil⟩, fun entry hentry hsome => ?_⟩
    · exact howned.listed listing.1 listing.2 (mem_listings.mp hlisting)
    · obtain ⟨container, hcontainer⟩ := Option.isSome_iff_exists.mp hsome
      refine mem_map_listings.mpr ⟨container, howned.contained entry.1 container ?_⟩
      exact container?_eq_some.mpr ⟨entry.2, mem_entries.mp hentry, hcontainer⟩

end Tree

end Concord
