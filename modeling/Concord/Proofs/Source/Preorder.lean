import Concord.Proofs.Source.Restoring

namespace Concord

namespace Source

mutual
/-- A source and everything below it, every source before its members. -/
def walk : Source → List Source
  | mk name visibility modality expectation payload members =>
    mk name visibility modality expectation payload members :: walkAll members
/-- Some sources and everything below them, in order. -/
def walkAll : List Source → List Source
  | [] => []
  | source :: sources => walk source ++ walkAll sources
end

end Source

namespace Tree

open Source (walk walkAll tidy)

variable {tree middle grown : Tree}

/-- One tree is another with declarations for some sources behind it, in order. -/
structure Follows (tree grown : Tree) (sources : List Source) : Prop where
  size : grown.size = tree.size + sources.length
  represents : ∀ index source, sources[index]? = some source →
    grown.Represents tree.size ⟨tree.size + index⟩ source

theorem Follows.nil (tree : Tree) : tree.Follows tree [] :=
  ⟨rfl, by simp⟩

/-- What follows is followed by more, where what stood before that is kept. -/
theorem Follows.append {sources others : List Source} (hfirst : tree.Follows middle sources)
    (hsecond : middle.Follows grown others)
    (hkeeps : ∀ id declaration, tree.size ≤ id.index → middle.get? id = some declaration →
      grown.get? id = some declaration) : tree.Follows grown (sources ++ others) := by
  have hsize := hfirst.size
  refine ⟨?_, fun index source hindex => ?_⟩
  · rw [hsecond.size, hsize, List.length_append, Nat.add_assoc]
  · rw [List.getElem?_append] at hindex
    split at hindex
    · exact Represents.mono source (hfirst.represents index source hindex) (Nat.le_refl _) hkeeps
    · have hrepresents := hsecond.represents _ source hindex
      have hplace : middle.size + (index - sources.length) = tree.size + index := by omega
      rw [hplace] at hrepresents
      exact Represents.mono source hrepresents (by omega) fun _ _ _ hget => hget

/-- A declaration is followed by what is below it. -/
private theorem Follows.cons {source : Source} {sources : List Source}
    (hsource : grown.Represents tree.size ⟨tree.size⟩ source)
    (hsize : middle.size = tree.size + 1) (hbelow : middle.Follows grown sources) :
    tree.Follows grown (source :: sources) := by
  refine ⟨?_, fun index below hindex => ?_⟩
  · rw [hbelow.size, hsize, List.length_cons]
    omega
  · cases index with
    | zero =>
      cases hindex
      exact hsource
    | succ index =>
      have hrepresents := hbelow.represents index below hindex
      have hplace : middle.size + index = tree.size + (index + 1) := by omega
      rw [hplace] at hrepresents
      exact Represents.mono below hrepresents (by omega) fun _ _ _ hget => hget

mutual
/-- A member is followed by what is below it. -/
private theorem addMember_follows : ∀ (member : Source) {tree grown : Tree} {container : DeclId},
    tree.addMember container member = .ok grown → tree.Follows grown (walk member)
  | .mk name visibility modality expectation payload members, tree, grown, container, hadd => by
    obtain ⟨-, hmember, -⟩ := addMember_represents _ hadd
    rw [addMember] at hadd
    obtain ⟨qualifiedName, -, hadd⟩ := Except.bind_eq_ok.mp hadd
    obtain ⟨data, -, hadd⟩ := Except.bind_eq_ok.mp hadd
    obtain ⟨⟨id, middle⟩, hinsert, hadd⟩ := Except.bind_eq_ok.mp hadd
    have hsize : middle.size = tree.size + 1 := size_insert hinsert
    obtain rfl := id_of_insert hinsert
    have hbelow := addMembers_follows members (hsize ▸ Nat.lt_succ_self _) hadd
    rw [walk]
    exact .cons hmember hsize hbelow
private theorem addMembers_follows : ∀ (members : List Source) {tree grown : Tree}
    {container : DeclId}, container.index < tree.size →
    tree.addMembers container members = .ok grown → tree.Follows grown (walkAll members)
  | [], tree, grown, container, _, hadd => by
    cases hadd
    exact .nil tree
  | member :: members, tree, grown, container, hcontainer, hadd => by
    rw [addMembers] at hadd
    obtain ⟨middle, hmiddle, hadd⟩ := Except.bind_eq_ok.mp hadd
    have hmember := addMember_follows member hmiddle
    have hsize : container.index < middle.size := by
      rw [hmember.size]
      omega
    obtain ⟨ids, hgrows, -, -⟩ := addMembers_represents members hsize hadd
    rw [walkAll]
    refine hmember.append (addMembers_follows members hsize hadd) fun id declaration hplace hget => ?_
    -- The container stands before its members, and is all that the later ones change.
    refine hgrows.get?_of_ne ?_ hget
    rintro rfl
    omega
end

private theorem addSource_follows {source : Source} (hadd : tree.addSource source = .ok grown) :
    tree.Follows grown (walk source) := by
  obtain ⟨hsource, -⟩ := addSource_represents hadd
  obtain ⟨name, visibility, modality, expectation, payload, members⟩ := source
  obtain ⟨data, -, -, hadd⟩ := addSource_eq_ok hadd
  have hsize : (tree.addRoot data).2.size = tree.size + 1 := size_alloc data none
  rw [walk]
  exact .cons hsource hsize (addMembers_follows members (hsize ▸ Nat.lt_succ_self _) hadd)

private theorem foldlM_addSource_follows {sources : List Source}
    (hdraft : sources.foldlM addSource tree = .ok grown) : tree.Follows grown (walkAll sources) := by
  induction sources generalizing tree with
  | nil =>
    cases hdraft
    exact .nil grown
  | cons source sources ih =>
    rw [List.foldlM_cons] at hdraft
    obtain ⟨middle, hmiddle, hdraft⟩ := Except.bind_eq_ok.mp hdraft
    obtain ⟨ids, -, -, hkeeps⟩ := foldlM_addSource_represents hdraft
    rw [walkAll]
    exact (addSource_follows hmiddle).append (ih hdraft) fun id declaration _ => hkeeps id declaration

/-- The declarations of a tree that was read stand in the order of the sources. Each has the data of
its source, linked in the tree. -/
theorem ofSources_walkAll {sources : List Source} (hread : ofSources sources = .ok tree) :
    tree.size = (walkAll sources).length ∧
    ∀ index source, (walkAll sources)[index]? = some source →
      tree.source? ⟨index⟩ = some source.tidy ∧ ∃ declaration data,
        tree.get? ⟨index⟩ = some declaration ∧
        source.data declaration.qualifiedName = .ok data ∧
        declaration.data = data.mapRefs tree.linkRef := by
  obtain ⟨draft, hdraft, heq⟩ := Except.bind_eq_ok.mp hread
  have hlink := Except.pure_eq_ok.mp heq
  subst hlink
  have hregular := (foldlM_addSource_regular hdraft).1
  have hfollows := foldlM_addSource_follows hdraft
  have hsize : draft.link.size = draft.size := Array.size_map
  have hstart : Tree.empty.size = 0 := rfl
  refine ⟨?_, fun index source hindex => ?_⟩
  · rw [hsize, hfollows.size, hstart, Nat.zero_add]
  · have hrepresents := hfollows.represents index source hindex
    rw [hstart, Nat.zero_add] at hrepresents
    refine ⟨?_, ?_⟩
    · rw [source?, hsize]
      exact sourceWithin_of_represents hread hregular source hrepresents (by omega)
    · obtain ⟨name, visibility, modality, expectation, payload, members⟩ := source
      rw [Represents] at hrepresents
      obtain ⟨-, declaration, hget, hdata, -⟩ := hrepresents
      exact ⟨_, _, get?_link_of_get? hget, hdata, rfl⟩

end Tree

end Concord
