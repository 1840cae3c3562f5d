import Concord.Proofs.Steps
import Concord.Proofs.Tree.Lookup

namespace Concord

namespace Tree

/-- A tree made from the empty one by building steps. -/
inductive Built : Tree → Prop
  | empty : Built empty
  | alloc {tree : Tree} (htree : Built tree) (data : Data) (container : Option DeclId) :
      Built (tree.alloc data container).2
  | addRoot {tree : Tree} (htree : Built tree) (data : Data) : Built (tree.addRoot data).2
  | insert {tree grown : Tree} {container id : DeclId} {data : Data} (htree : Built tree)
      (hinsert : tree.insert container data = .ok (id, grown)) : Built grown
  | attach {tree grown : Tree} {parent child : DeclId} (htree : Built tree)
      (hattach : tree.attach parent child = .ok grown) : Built grown
  | setData {tree : Tree} (htree : Built tree) (id : DeclId) (data : Data) :
      Built (tree.setData id data)
  | link {tree : Tree} (htree : Built tree) : Built tree.link

variable {tree grown : Tree}

/-- What an insertion does: it allocates the declaration and lists it in its container. -/
theorem insert_eq_ok {container id : DeclId} {data : Data}
    (hinsert : tree.insert container data = .ok (id, grown)) :
    ∃ owner, tree.get? container = some owner ∧ owner.kind.mayContain data.kind = true ∧
      id = ⟨tree.size⟩ ∧
      grown = (tree.alloc data (some container)).2.modify container fun owner =>
        { owner with children := owner.children ++ [id] } := by
  cases hget : tree.get? container with
  | none => simp [insert, fetch, hget, bind, Except.bind] at hinsert
  | some owner =>
    by_cases hkind : owner.kind.mayContain data.kind = true
    · simp [insert, fetch, hget, checkContainer, hkind, bind, Except.bind, pure, Except.pure]
        at hinsert
      obtain ⟨rfl, rfl⟩ := hinsert
      exact ⟨owner, rfl, hkind, rfl, rfl⟩
    · simp [insert, fetch, hget, checkContainer, hkind, bind, Except.bind] at hinsert

/-- What an attachment does: the child points at its container, which lists it from then on. -/
theorem attach_eq_ok {parent child : DeclId} (hattach : tree.attach parent child = .ok grown) :
    ∃ container declaration, tree.get? parent = some container ∧
      tree.get? child = some declaration ∧
      container.kind.mayContain declaration.kind = true ∧
      grown = (tree.modify child ({ · with container := some parent })).modify parent
        fun container => { container with children := container.children ++ [child] } := by
  obtain ⟨container, hcontainer, hattach⟩ := Except.bind_eq_ok.mp hattach
  obtain ⟨declaration, hdeclaration, hattach⟩ := Except.bind_eq_ok.mp hattach
  obtain ⟨_, hkind, hattach⟩ := Except.bind_eq_ok.mp hattach
  refine ⟨container, declaration, ?_, ?_, ?_, ?_⟩
  · simpa [fetch_eq_ok] using hcontainer
  · simpa [fetch_eq_ok] using hdeclaration
  · by_cases hmay : container.kind.mayContain declaration.kind = true
    · exact hmay
    · simp [checkContainer, hmay] at hkind
  · dsimp only at hattach
    obtain ⟨-, hattach⟩ := Except.refusal_eq_ok.mp hattach
    obtain ⟨-, hattach⟩ := Except.refusal_eq_ok.mp hattach
    exact (Except.pure_eq_ok.mp hattach).symm

/-- What belongs elsewhere is not attached. -/
theorem container?_of_attach {parent child owner : DeclId}
    (hattach : tree.attach parent child = .ok grown) (howner : tree.container? child = some owner) :
    owner = parent := by
  obtain ⟨container, -, hattach⟩ := Except.bind_eq_ok.mp hattach
  obtain ⟨declaration, hdeclaration, hattach⟩ := Except.bind_eq_ok.mp hattach
  obtain ⟨_, -, hattach⟩ := Except.bind_eq_ok.mp hattach
  dsimp only at hattach
  obtain ⟨helsewhere, -⟩ := Except.refusal_eq_ok.mp hattach
  have hcontainer : declaration.container = some owner := by
    rw [container?, fetch_eq_ok.mp hdeclaration] at howner
    exact howner
  simpa [hcontainer] using helsewhere

theorem insert_succeeds {container : DeclId} {data : Data} {owner : Declaration}
    (howner : tree.get? container = some owner) (hmay : owner.kind.mayContain data.kind = true) :
    (tree.insert container data).Succeeds := by
  simp [Except.Succeeds, insert, fetch, howner, checkContainer, hmay, bind, Except.bind, pure,
    Except.pure]

/-- A declaration can be attached to the container that it points at, once. -/
theorem attach_succeeds {parent child : DeclId} {container declaration : Declaration}
    (hcontainer : tree.get? parent = some container)
    (hdeclaration : tree.get? child = some declaration)
    (hmay : container.kind.mayContain declaration.kind = true)
    (hlink : declaration.container = some parent) (hfresh : child ∉ tree.children parent) :
    (tree.attach parent child).Succeeds := by
  have hunlisted : child ∉ (tree.modify child ({ · with container := some parent })).children
      parent := by
    rw [children_eq_getD, get?_modify]
    rw [children_eq_getD] at hfresh
    split
    · rwa [Option.map_map]
    · exact hfresh
  simp [Except.Succeeds, attach, fetch, hcontainer, hdeclaration, checkContainer, hmay, hlink,
    hunlisted, bind, Except.bind, pure, Except.pure]

/-- The roots of a built tree are distinct declarations of the tree. -/
theorem Built.roots_sound (hbuilt : tree.Built) :
    tree.roots.Nodup ∧ ∀ root ∈ tree.roots, root.index < tree.size := by
  induction hbuilt with
  | empty => simp [Tree.empty]
  | alloc _ data container ih =>
    simp only [roots_alloc, size_alloc]
    exact ⟨ih.1, fun root hroot => Nat.lt_succ_of_lt (ih.2 root hroot)⟩
  | @addRoot tree _ data ih =>
    have hfresh : (⟨tree.size⟩ : DeclId) ∉ tree.roots := fun hroot =>
      Nat.lt_irrefl _ (ih.2 _ hroot)
    refine ⟨?_, fun root hroot => ?_⟩
    · simp only [Tree.addRoot, Tree.alloc]
      refine List.nodup_append.mpr ⟨ih.1, by simp, fun root hroot other hother => ?_⟩
      rintro rfl
      exact hfresh (List.mem_singleton.mp hother ▸ hroot)
    · simp only [Tree.addRoot, Tree.alloc, size, Array.size_push, List.mem_append,
        List.mem_singleton] at hroot ⊢
      obtain hroot | rfl := hroot
      · exact Nat.lt_succ_of_lt (ih.2 root hroot)
      · exact Nat.lt_succ_self _
  | insert _ hinsert ih =>
    obtain ⟨owner, -, -, -, rfl⟩ := insert_eq_ok hinsert
    simp only [roots_modify, size_modify, roots_alloc, size_alloc]
    exact ⟨ih.1, fun root hroot => Nat.lt_succ_of_lt (ih.2 root hroot)⟩
  | attach _ hattach ih =>
    obtain ⟨_, _, -, -, -, rfl⟩ := attach_eq_ok hattach
    simpa only [roots_modify, size_modify] using ih
  | setData _ id data ih => simpa only [Tree.setData, roots_modify, size_modify] using ih
  | link _ ih => simpa [Tree.link, size] using ih

theorem Built.roots_known (hbuilt : tree.Built) :
    ∀ root ∈ tree.roots, ∃ found, tree.get? root = some found :=
  fun root hroot => ⟨_, Array.getElem?_eq_getElem (hbuilt.roots_sound.2 root hroot)⟩

end Tree

end Concord
