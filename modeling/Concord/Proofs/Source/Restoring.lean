import Concord.Proofs.Source.Tidy

namespace Concord

namespace Tree

open Source (tidy tidyAll)

mutual
/-- A declaration represents a source. It stands at or behind a place, has the data of the source,
and its children stand behind it and represent the members. -/
def Represents (tree : Tree) (place : Nat) (id : DeclId) : Source → Prop
  | .mk name visibility modality expectation payload members =>
    place ≤ id.index ∧ ∃ declaration, tree.get? id = some declaration ∧
      (Source.mk name visibility modality expectation payload members).data
        declaration.qualifiedName = .ok declaration.data ∧
      RepresentsAll tree (id.index + 1) declaration.children members
/-- Some declarations represent some sources, in order. -/
def RepresentsAll (tree : Tree) (place : Nat) (ids : List DeclId) : List Source → Prop
  | [] => ids = []
  | source :: sources => ∃ id rest, ids = id :: rest ∧ Represents tree place id source ∧
      RepresentsAll tree place rest sources
end

/-- One tree grows into another: a container has new children behind those that it had, and the tree
is left as it is otherwise. -/
def GrowsAt (tree grown : Tree) (container : DeclId) (ids : List DeclId) : Prop :=
  ∀ id declaration, tree.get? id = some declaration → grown.get? id = some { declaration with
    children := declaration.children ++ if id = container then ids else [] }

variable {tree middle grown : Tree} {container : DeclId}

section Growth

theorem GrowsAt.refl (tree : Tree) (container : DeclId) : tree.GrowsAt tree container [] := by
  intro id declaration hget
  rw [ite_self, List.append_nil, hget]

theorem GrowsAt.trans {ids others : List DeclId} (hfirst : tree.GrowsAt middle container ids)
    (hsecond : middle.GrowsAt grown container others) :
    tree.GrowsAt grown container (ids ++ others) := by
  intro id declaration hget
  rw [hsecond id _ (hfirst id declaration hget)]
  split <;> simp only [List.append_assoc, List.append_nil]

theorem GrowsAt.size_le {ids : List DeclId} (hgrows : tree.GrowsAt grown container ids) :
    tree.size ≤ grown.size := by
  refine Nat.le_of_not_lt fun hlt => ?_
  have hbefore : tree.get? ⟨grown.size⟩ ≠ none := fun hnone =>
    Nat.not_le_of_lt hlt (get?_eq_none.mp hnone)
  obtain ⟨declaration, hget⟩ := Option.ne_none_iff_exists'.mp hbefore
  exact Nat.lt_irrefl _ (lt_size_of_get? (hgrows _ declaration hget))

/-- Only the container is changed. -/
theorem GrowsAt.get?_of_ne {ids : List DeclId} (hgrows : tree.GrowsAt grown container ids)
    {id : DeclId} {declaration : Declaration} (hne : id ≠ container)
    (hget : tree.get? id = some declaration) : grown.get? id = some declaration := by
  rw [hgrows id declaration hget, if_neg hne, List.append_nil]

theorem growsAt_insert {id : DeclId} {data : Data}
    (hinsert : tree.insert container data = .ok (id, grown)) :
    tree.GrowsAt grown container [id] := by
  intro other declaration hget
  have hne : other ≠ id := by
    rintro rfl
    rw [id_of_insert hinsert] at hget
    exact Nat.lt_irrefl _ (lt_size_of_get? hget)
  rw [get?_insert hinsert, if_neg hne, hget, Option.map_some]

end Growth

section Keeping

mutual
/-- A declaration keeps representing a source while everything from its place on is kept. -/
theorem Represents.mono : ∀ (source : Source) {place lower : Nat} {id : DeclId},
    tree.Represents place id source → lower ≤ place →
    (∀ id declaration, place ≤ id.index → tree.get? id = some declaration →
      grown.get? id = some declaration) → grown.Represents lower id source
  | .mk name visibility modality expectation payload members, place, lower, id, hrepresents, hlower,
    hkeeps => by
    rw [Represents] at hrepresents ⊢
    obtain ⟨hplace, declaration, hget, hdata, hmembers⟩ := hrepresents
    refine ⟨Nat.le_trans hlower hplace, declaration, hkeeps id declaration hplace hget, hdata, ?_⟩
    refine RepresentsAll.mono members hmembers (Nat.le_refl _) fun below found hbelow => ?_
    exact hkeeps below found (Nat.le_trans hplace (Nat.le_of_succ_le hbelow))
theorem RepresentsAll.mono : ∀ (sources : List Source) {place lower : Nat}
    {ids : List DeclId}, tree.RepresentsAll place ids sources → lower ≤ place →
    (∀ id declaration, place ≤ id.index → tree.get? id = some declaration →
      grown.get? id = some declaration) → grown.RepresentsAll lower ids sources
  | [], _, _, _, hrepresents, _, _ => by
    rw [RepresentsAll] at hrepresents ⊢
    exact hrepresents
  | source :: sources, place, lower, ids, hrepresents, hlower, hkeeps => by
    rw [RepresentsAll] at hrepresents ⊢
    obtain ⟨id, rest, hids, hfirst, hrest⟩ := hrepresents
    exact ⟨id, rest, hids, Represents.mono source hfirst hlower hkeeps,
      RepresentsAll.mono sources hrest hlower hkeeps⟩
end

end Keeping

section Reading

mutual
/-- A member is declared behind what is there, with its own members behind it. -/
theorem addMember_represents : ∀ (member : Source) {tree grown : Tree}
    {container : DeclId}, tree.addMember container member = .ok grown →
    tree.GrowsAt grown container [⟨tree.size⟩] ∧
      grown.Represents tree.size ⟨tree.size⟩ member ∧ grown.roots = tree.roots
  | .mk name visibility modality expectation payload members, tree, grown, container, hadd => by
    rw [addMember] at hadd
    obtain ⟨qualifiedName, -, hadd⟩ := Except.bind_eq_ok.mp hadd
    obtain ⟨data, hdata, hadd⟩ := Except.bind_eq_ok.mp hadd
    obtain ⟨⟨id, middle⟩, hinsert, hadd⟩ := Except.bind_eq_ok.mp hadd
    obtain rfl := id_of_insert hinsert
    have hsize : middle.size = tree.size + 1 := size_insert hinsert
    have hroots : middle.roots = tree.roots := roots_insert hinsert
    obtain ⟨ids, hgrows, hmembers, hsame⟩ :=
      addMembers_represents members (hsize ▸ Nat.lt_succ_self _) hadd
    have hnew : middle.get? ⟨tree.size⟩ = some ⟨data, some container, []⟩ := by
      rw [get?_insert hinsert, if_pos rfl]
    have hinserted := growsAt_insert hinsert
    refine ⟨fun other declaration hget => ?_, ?_, hsame.trans hroots⟩
    · have hne : other ≠ ⟨tree.size⟩ := by
        rintro rfl
        exact Nat.lt_irrefl _ (lt_size_of_get? hget)
      exact hgrows.get?_of_ne hne (hinserted other declaration hget)
    · obtain ⟨-, -, rfl, -⟩ := Source.data_eq_ok hdata
      have hgrown := hgrows _ _ hnew
      rw [if_pos rfl, List.nil_append] at hgrown
      rw [Represents]
      rw [hsize] at hmembers
      exact ⟨Nat.le_refl _, _, hgrown, hdata, hmembers⟩
theorem addMembers_represents : ∀ (members : List Source) {tree grown : Tree}
    {container : DeclId}, container.index < tree.size →
    tree.addMembers container members = .ok grown → ∃ ids, tree.GrowsAt grown container ids ∧
      grown.RepresentsAll tree.size ids members ∧ grown.roots = tree.roots
  | [], tree, grown, container, _, hadd => by
    cases hadd
    exact ⟨[], .refl tree container, rfl, rfl⟩
  | member :: members, tree, grown, container, hcontainer, hadd => by
    rw [addMembers] at hadd
    obtain ⟨middle, hmiddle, hadd⟩ := Except.bind_eq_ok.mp hadd
    obtain ⟨hgrows, hmember, hroots⟩ := addMember_represents member hmiddle
    have hsize := hgrows.size_le
    obtain ⟨ids, hlater, hmembers, hsame⟩ :=
      addMembers_represents members (Nat.lt_of_lt_of_le hcontainer hsize) hadd
    refine ⟨[⟨tree.size⟩] ++ ids, hgrows.trans hlater, ?_, hsame.trans hroots⟩
    rw [List.singleton_append, RepresentsAll]
    refine ⟨_, _, rfl, ?_, RepresentsAll.mono members hmembers hsize fun _ _ _ hget => hget⟩
    -- The new members stand behind the container, which alone is changed by the ones after them.
    refine Represents.mono member hmember (Nat.le_refl _) fun id declaration hplace hget => ?_
    refine hlater.get?_of_ne ?_ hget
    rintro rfl
    exact Nat.not_lt_of_le hplace hcontainer
end

theorem addSource_represents {source : Source}
    (hadd : tree.addSource source = .ok grown) :
    grown.Represents tree.size ⟨tree.size⟩ source ∧ grown.roots = tree.roots ++ [⟨tree.size⟩] ∧
      ∀ id declaration, tree.get? id = some declaration → grown.get? id = some declaration := by
  obtain ⟨name, visibility, modality, expectation, payload, members⟩ := source
  obtain ⟨data, hdata, -, hadd⟩ := addSource_eq_ok hadd
  have hsize : (tree.addRoot data).2.size = tree.size + 1 := size_alloc data none
  obtain ⟨ids, hgrows, hmembers, hroots⟩ :=
    addMembers_represents members (hsize ▸ Nat.lt_succ_self _) hadd
  refine ⟨?_, hroots, fun id declaration hget => ?_⟩
  · have hnew : (tree.addRoot data).2.get? ⟨tree.size⟩ = some ⟨data, none, []⟩ := by
      rw [get?_addRoot, if_pos rfl]
    have hgrown := hgrows _ _ hnew
    obtain ⟨-, -, hqualified, -⟩ := Source.data_eq_ok hdata
    rw [if_pos rfl, List.nil_append] at hgrown
    rw [hsize] at hmembers
    rw [Represents]
    refine ⟨Nat.le_refl _, _, hgrown, ?_, hmembers⟩
    rw [← hqualified] at hdata
    exact hdata
  · have hne : id ≠ ⟨tree.size⟩ := by
      rintro rfl
      exact Nat.lt_irrefl _ (lt_size_of_get? hget)
    refine hgrows.get?_of_ne hne ?_
    rw [get?_addRoot, if_neg hne, hget]

theorem foldlM_addSource_represents {sources : List Source}
    (hdraft : sources.foldlM addSource tree = .ok grown) : ∃ ids,
    grown.roots = tree.roots ++ ids ∧ grown.RepresentsAll 0 ids sources ∧
      ∀ id declaration, tree.get? id = some declaration → grown.get? id = some declaration := by
  induction sources generalizing tree with
  | nil =>
    cases hdraft
    exact ⟨[], (List.append_nil _).symm, rfl, fun _ _ hget => hget⟩
  | cons source sources ih =>
    rw [List.foldlM_cons] at hdraft
    obtain ⟨middle, hmiddle, hdraft⟩ := Except.bind_eq_ok.mp hdraft
    obtain ⟨hsource, hroot, hkept⟩ := addSource_represents hmiddle
    obtain ⟨ids, hroots, hsources, hkeeps⟩ := ih hdraft
    refine ⟨⟨tree.size⟩ :: ids, ?_, ?_, fun id declaration hget => ?_⟩
    · rw [hroots, hroot, List.append_assoc, List.singleton_append]
    · rw [RepresentsAll]
      refine ⟨_, _, rfl, ?_, hsources⟩
      exact Represents.mono source hsource (Nat.zero_le _) fun id declaration _ =>
        hkeeps id declaration
    · exact hkeeps id declaration (hkept id declaration hget)

end Reading

section Writing

variable {draft : Tree} {read : List Source}

/-- A payload that was read is written back. -/
private theorem payloadSource_linked (hregular : draft.Regular) {owner : SimpleName}
    {written : Source.Payload} {payload : Payload ClassifierRef}
    (hlegible : draft.link.Legible (payload.mapRefs draft.linkRef))
    (hbind : Source.bindPayload owner written = .ok payload) :
    draft.link.payloadSource (payload.mapRefs draft.linkRef) = written.tidy := by
  have hspelled (spelling : Spelling) (reference : ClassifierRef)
      (hreference : Source.bind owner spelling = .ok reference) :
      (draft.link.spell ∘ draft.linkRef) reference = id spelling := by
    obtain ⟨_ | name, _ | parameter⟩ := spelling
    · cases hreference
    · cases hreference
      rfl
    · cases hreference
      exact spell_linkRef hregular.link.named name
    · cases hreference
  rw [payloadSource_of_legible hlegible, Payload.mapRefs_mapRefs,
    Source.mapRefs_of_bindPayload hspelled hbind, Payload.mapRefs_id,
    Source.Payload.write_explicit]

mutual
/-- The source of a declaration is the one that it represents. A declaration stands behind those
that own it, so there are levels enough. -/
theorem sourceWithin_of_represents (hread : ofSources read = .ok draft.link)
    (hregular : draft.Regular) : ∀ (source : Source) {place depth : Nat} {id : DeclId},
    draft.Represents place id source → draft.size ≤ place + depth →
    draft.link.sourceWithin depth id = some source.tidy
  | .mk name visibility modality expectation payload members, place, depth, id, hrepresents,
    hdepth => by
    rw [Represents] at hrepresents
    obtain ⟨hplace, ⟨⟨_, qualifiedName, _, _, _, _⟩, container, children⟩, hget, hdata, hmembers⟩ :=
      hrepresents
    have hsize := lt_size_of_get? hget
    obtain ⟨depth, rfl⟩ : ∃ levels, depth = levels + 1 := Nat.exists_eq_add_one.mpr (by omega)
    have hlinked := get?_link_of_get? hget
    obtain ⟨bound, hbound, heq⟩ := Except.bind_eq_ok.mp hdata
    cases heq
    have hpayload := payloadSource_linked hregular (ofSources_legible hread hlinked) hbound
    rw [sourceWithin_of_get? hlinked, tidy,
      filterMap_of_represents hread hregular members hmembers (by omega), ← hpayload]
    rfl
theorem filterMap_of_represents (hread : ofSources read = .ok draft.link)
    (hregular : draft.Regular) : ∀ (sources : List Source) {place depth : Nat} {ids : List DeclId},
    draft.RepresentsAll place ids sources → draft.size ≤ place + depth →
    ids.filterMap (draft.link.sourceWithin depth) = tidyAll sources
  | [], _, _, _, hrepresents, _ => by
    rw [RepresentsAll] at hrepresents
    rw [hrepresents, List.filterMap_nil, tidyAll]
  | source :: sources, place, depth, ids, hrepresents, hdepth => by
    rw [RepresentsAll] at hrepresents
    obtain ⟨id, rest, rfl, hfirst, hrest⟩ := hrepresents
    rw [List.filterMap_cons, sourceWithin_of_represents hread hregular source hfirst hdepth,
      filterMap_of_represents hread hregular sources hrest hdepth, tidyAll]
end

/-- A tree that is read from sources has these sources, as they are written back. -/
theorem toSources_of_ofSources {sources : List Source} {tree : Tree}
    (hread : ofSources sources = .ok tree) : tree.toSources = tidyAll sources := by
  obtain ⟨draft, hdraft, heq⟩ := Except.bind_eq_ok.mp hread
  obtain rfl := Except.pure_eq_ok.mp heq
  obtain ⟨ids, hroots, hsources, -⟩ := foldlM_addSource_represents hdraft
  have hregular := (foldlM_addSource_regular hdraft).1
  have hsize : draft.link.size = draft.size := Array.size_map
  have hids : draft.link.roots = ids := hroots
  rw [toSources, hids]
  refine filterMap_of_represents hread hregular sources hsources ?_
  rw [hsize]
  exact Nat.le_add_left _ _

end Writing

end Tree

end Concord
