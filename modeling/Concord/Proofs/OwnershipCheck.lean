import Mathlib.Data.List.Nodup
import Concord.Proofs.Source.Spelling
import Concord.Proofs.Tree.Descent
import Concord.Tree.Editing

namespace Concord

namespace Tree

/-- How a declaration is written, with no bound on how deep its members nest: its children are
written first, then it is written itself. There is nothing to write for an unknown id. -/
inductive Writes (tree : Tree) : DeclId → Option Source → Prop
  | unknown {id : DeclId} (hget : tree.get? id = none) : Writes tree id none
  | known {id : DeclId} {declaration : Declaration} {below : DeclId → Option Source}
      (hget : tree.get? id = some declaration)
      (hbelow : ∀ child ∈ declaration.children, Writes tree child (below child)) :
      Writes tree id (some (.mk declaration.data.name declaration.data.visibility
        declaration.data.modality declaration.data.expectation
        (tree.payloadSource declaration.data.payload) (declaration.children.filterMap below)))

variable {tree : Tree}

section Lines

variable {root : DeclId} (hrooted : ({ tree with roots := [root] } : Tree).Rooted)
include hrooted

/-- A declaration on a line of descent is written by as many levels as the line leaves of the size
of the tree. -/
private theorem writes_of_line {above : List DeclId} {depth : Nat} {id : DeclId}
    (hline : ({ tree with roots := [root] } : Tree).Line id above)
    (hdepth : tree.size ≤ above.length + depth) : tree.Writes id (tree.sourceWithin depth id) := by
  induction depth generalizing id above with
  | zero =>
    have hlength : above.length < tree.size := hrooted.line_length hline
    omega
  | succ depth ih =>
    obtain ⟨declaration, hget⟩ : ∃ declaration, tree.get? id = some declaration :=
      hrooted.line_known hline
    rw [sourceWithin_of_get? hget]
    apply Writes.known hget
    intro child hchild
    rw [← children_of_get? hget] at hchild
    apply ih (Line.child hline hchild)
    rw [List.length_cons]
    omega

end Lines

/-- In a tree of sound ownership, a root without a container is written to its end. Levels beyond
the size of the tree make no difference. -/
theorem Owned.writes_root (howned : tree.Owned) {root : DeclId}
    (hfree : tree.container? root = none) {depth : Nat} (hdepth : tree.size ≤ depth) :
    tree.Writes root (tree.sourceWithin depth root) := by
  cases hget : tree.get? root with
  | none =>
    have hnone : tree.sourceWithin depth root = none := by
      cases depth with
      | zero => rfl
      | succ depth => simp [sourceWithin, hget]
    rw [hnone]
    exact .unknown hget
  | some declaration =>
    have hrooted : ({ tree with roots := [root] } : Tree).Rooted := by
      refine ⟨⟨howned.listed, howned.distinct, howned.contained⟩, List.nodup_singleton root, ?_, ?_⟩
      · exact List.forall_mem_singleton.mpr ⟨declaration, hget⟩
      · exact List.forall_mem_singleton.mpr hfree
    exact writes_of_line hrooted (.root (List.mem_singleton_self root)) (by simpa using hdepth)

/-- Writing has one result. -/
theorem Writes.unique {id : DeclId} {source other : Option Source} (hwrites : tree.Writes id source)
    (hother : tree.Writes id other) : source = other := by
  induction hwrites generalizing other with
  | unknown hget =>
    cases hother with
    | unknown => rfl
    | known hget' => cases hget.symm.trans hget'
  | @known id declaration below hget hbelow ih =>
    cases hother with
    | unknown hget' => cases hget.symm.trans hget'
    | known hget' hbelow' =>
      cases hget.symm.trans hget'
      rw [List.filterMap_congr fun child hchild => ih child hchild (hbelow' child hchild)]

/-- What is below itself is not written to its end. -/
theorem not_writes_of_self {id : DeclId} (hself : id ∈ tree.children id) (source : Option Source) :
    ¬tree.Writes id source := by
  intro hwrites
  induction hwrites with
  | unknown hget => simp [children, hget] at hself
  | @known id declaration below hget hbelow ih =>
    have hchild := hself
    rw [children_of_get? hget] at hchild
    exact ih id hchild hself

/-- The ownership check passes exactly if every listed child exists, nothing is listed twice, listed
children point back and what has a container is listed by it. If then no root has a container
either, every root is written to its end, and so are all sources. -/
theorem ownership_check_exact (tree : Tree) :
    (tree.checkOwnership = .ok () ↔
      (∀ parent, ∀ child ∈ tree.children parent, ∃ declaration, tree.get? child = some declaration) ∧
      (tree.listings.map (·.2)).Nodup ∧
      (∀ parent, ∀ child ∈ tree.children parent, tree.container? child = some parent) ∧
      ∀ id container, tree.container? id = some container → id ∈ tree.children container) ∧
    (tree.checkOwnership = .ok () → (∀ root ∈ tree.roots, tree.container? root = none) →
      ∃ sources : DeclId → Option Source, tree.toSources = tree.roots.filterMap sources ∧
        ∀ root ∈ tree.roots, ∀ source, tree.Writes root source ↔ source = sources root) := by
  rw [checkOwnership_iff]
  refine ⟨⟨fun howned => ⟨?_, ?_, howned.listed, howned.contained⟩, ?_⟩, fun howned hfree => ?_⟩
  · intro parent child hchild
    obtain ⟨declaration, hget, -⟩ := container?_eq_some.mp (howned.listed parent child hchild)
    exact ⟨declaration, hget⟩
  · exact nodup_listings howned.listed howned.distinct
  · rintro ⟨-, hdistinct, hlisted, hcontained⟩
    exact ⟨hlisted, fun parent => distinct_of_nodup_listings hdistinct parent, hcontained⟩
  · refine ⟨tree.source?, rfl, fun root hroot source => ?_⟩
    have hwrites := howned.writes_root (hfree root hroot) (Nat.le_refl tree.size)
    exact ⟨fun hsource => hsource.unique hwrites, fun heq => heq ▸ hwrites⟩

/-- A class that was made a root and then attached to itself. -/
private def selfOwned : Tree :=
  Edit.runAll [.addRoot (Data.ofPayload ⟨"C"⟩ ⟨"C"⟩ (.classType (.ofKind .ordinary))),
    .attach ⟨0⟩ ⟨0⟩] .empty

/-- A root that was attached to itself passes the check, although it has a container, and is never
written to its end. -/
theorem self_owned_root_passes : selfOwned.checkOwnership = .ok () ∧ selfOwned.roots = [⟨0⟩] ∧
    selfOwned.container? ⟨0⟩ = some ⟨0⟩ ∧ ∀ source, ¬selfOwned.Writes ⟨0⟩ source := by
  have hself : (⟨0⟩ : DeclId) ∈ selfOwned.children ⟨0⟩ := by decide +kernel
  exact ⟨rfl, rfl, rfl, not_writes_of_self hself⟩

end Tree

end Concord
