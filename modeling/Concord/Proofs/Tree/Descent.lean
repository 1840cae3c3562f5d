import Concord.Proofs.Tree.Ownership

namespace Concord

namespace Tree

/-- A root, or a declaration that hangs below a root over any number of steps. -/
inductive Reachable (tree : Tree) : DeclId → Prop
  | root {id : DeclId} (hroot : id ∈ tree.roots) : Reachable tree id
  | child {parent id : DeclId} (hparent : Reachable tree parent)
      (hchild : id ∈ tree.children parent) : Reachable tree id

/-- A declaration and the ones above it, from its container up to a root. -/
inductive Line (tree : Tree) : DeclId → List DeclId → Prop
  | root {id : DeclId} (hroot : id ∈ tree.roots) : Line tree id []
  | child {parent id : DeclId} {above : List DeclId} (hparent : Line tree parent above)
      (hchild : id ∈ tree.children parent) : Line tree id (parent :: above)

/-- The line of a declaration passes another one so many steps below a root. -/
def Passes (tree : Tree) (id via : DeclId) (depth : Nat) : Prop :=
  ∃ above rest, tree.Line id above ∧ via :: rest <:+ id :: above ∧ rest.length = depth

/-- The child lists form a forest below the roots: ownership is sound, and the roots are distinct
declarations without a container. -/
structure Rooted (tree : Tree) : Prop where
  owned : tree.Owned
  distinct : tree.roots.Nodup
  known : ∀ root ∈ tree.roots, ∃ declaration, tree.get? root = some declaration
  free : ∀ root ∈ tree.roots, tree.container? root = none

variable {tree : Tree} {id : DeclId} {above : List DeclId}

/-- Distinct declarations of a tree are no more than the tree is large. -/
theorem length_le_size {ids : List DeclId} (hnodup : ids.Nodup)
    (hbound : ∀ id ∈ ids, id.index < tree.size) : ids.length ≤ tree.size := by
  have hindices : (ids.map DeclId.index).Nodup := by
    refine List.pairwise_map.mpr (hnodup.imp fun {a b} hne heq => hne ?_)
    cases a
    cases b
    exact congrArg DeclId.mk heq
  have hsubset : ids.map DeclId.index ⊆ List.range tree.size := by
    intro index hindex
    obtain ⟨id, hid, rfl⟩ := List.mem_map.mp hindex
    exact List.mem_range.mpr (hbound id hid)
  simpa using hindices.length_le_of_subset hsubset

/-- Distinct declarations that are all of a tree are as many as the tree is large. -/
theorem length_eq_size {ids : List DeclId} (hnodup : ids.Nodup)
    (hall : ∀ id, id ∈ ids ↔ id.index < tree.size) : ids.length = tree.size := by
  refine Nat.le_antisymm (length_le_size hnodup fun id => (hall id).mp) ?_
  have hindices : ((List.range tree.size).map DeclId.mk).Nodup :=
    List.pairwise_map.mpr (List.nodup_range.imp fun hne heq => hne (DeclId.mk.inj heq))
  have hsubset : (List.range tree.size).map DeclId.mk ⊆ ids := by
    intro id hid
    obtain ⟨index, hindex, rfl⟩ := List.mem_map.mp hid
    exact (hall ⟨index⟩).mpr (List.mem_range.mp hindex)
  simpa using hindices.length_le_of_subset hsubset

theorem reachable_iff_line : tree.Reachable id ↔ ∃ above, tree.Line id above := by
  constructor
  · intro hreachable
    induction hreachable with
    | root hroot => exact ⟨[], .root hroot⟩
    | child _ hchild ih =>
      obtain ⟨above, hline⟩ := ih
      exact ⟨_, .child hline hchild⟩
  · rintro ⟨above, hline⟩
    induction hline with
    | root hroot => exact .root hroot
    | child _ hchild ih => exact .child ih hchild

/-- The owners on a line have the rest of the line above them. -/
theorem Line.above_suffix (hline : tree.Line id above) {owner : DeclId} {rest : List DeclId}
    (hsuffix : owner :: rest <:+ above) : tree.Line owner rest := by
  induction hline with
  | root => simp at hsuffix
  | child hparent _ ih =>
    obtain heq | hrest := List.suffix_cons_iff.mp hsuffix
    · obtain ⟨rfl, rfl⟩ := List.cons.inj heq
      exact hparent
    · exact ih hrest

/-- A line passes its own declaration. -/
theorem Line.passes (hline : tree.Line id above) : tree.Passes id id above.length :=
  ⟨above, above, hline, List.suffix_rfl, rfl⟩

namespace Rooted

variable (hrooted : tree.Rooted)
include hrooted

theorem line_unique {other : List DeclId} (hline : tree.Line id above)
    (hother : tree.Line id other) : above = other := by
  induction hline generalizing other with
  | root hroot =>
    cases hother with
    | root => rfl
    | child _ hchild =>
      have hcontainer := hrooted.owned.listed _ _ hchild
      rw [hrooted.free _ hroot] at hcontainer
      cases hcontainer
  | child _ hchild ih =>
    have hcontainer := hrooted.owned.listed _ _ hchild
    cases hother with
    | root hroot =>
      rw [hrooted.free _ hroot] at hcontainer
      cases hcontainer
    | child hparent hchild' =>
      rw [hrooted.owned.listed _ _ hchild'] at hcontainer
      cases hcontainer
      rw [ih hparent]

theorem line_known (hline : tree.Line id above) :
    ∃ declaration, tree.get? id = some declaration := by
  cases hline with
  | root hroot => exact hrooted.known _ hroot
  | child _ hchild =>
    obtain ⟨declaration, hget, -⟩ := container?_eq_some.mp (hrooted.owned.listed _ _ hchild)
    exact ⟨declaration, hget⟩

theorem reachable_known (hreachable : tree.Reachable id) :
    ∃ declaration, tree.get? id = some declaration := by
  obtain ⟨above, hline⟩ := reachable_iff_line.mp hreachable
  exact hrooted.line_known hline

theorem line_nodup (hline : tree.Line id above) : (id :: above).Nodup := by
  have hself {id : DeclId} {above : List DeclId} (hline : tree.Line id above) : id ∉ above := by
    intro hmem
    obtain ⟨lower, upper, rfl⟩ := List.append_of_mem hmem
    have hupper := hline.above_suffix (List.suffix_append lower (id :: upper))
    have hlength := congrArg List.length (hrooted.line_unique hline hupper)
    simp only [List.length_append, List.length_cons] at hlength
    omega
  induction hline with
  | root => simp
  | child hparent hchild ih => exact List.nodup_cons.mpr ⟨hself (.child hparent hchild), ih⟩

/-- A line of descent is shorter than the tree is large. -/
theorem line_length (hline : tree.Line id above) : above.length < tree.size := by
  have hbound {id : DeclId} {above : List DeclId} (hline : tree.Line id above) :
      id.index < tree.size := by
    obtain ⟨declaration, hget⟩ := hrooted.line_known hline
    exact (Array.getElem?_eq_some_iff.mp hget).1
  refine length_le_size (hrooted.line_nodup hline) fun owner howner => ?_
  obtain rfl | habove := List.mem_cons.mp howner
  · exact hbound hline
  · obtain ⟨lower, upper, rfl⟩ := List.append_of_mem habove
    exact hbound (hline.above_suffix (List.suffix_append lower (owner :: upper)))

/-- A line passes one declaration at each depth. -/
theorem passes_unique {via other : DeclId} {depth : Nat} (hvia : tree.Passes id via depth)
    (hother : tree.Passes id other depth) : via = other := by
  obtain ⟨above, rest, hline, hsuffix, hdepth⟩ := hvia
  obtain ⟨above', rest', hline', hsuffix', hdepth'⟩ := hother
  rw [← hrooted.line_unique hline hline'] at hsuffix'
  have hlength : (via :: rest).length = (other :: rest').length := by
    rw [List.length_cons, List.length_cons, hdepth, hdepth']
  have hsame := List.suffix_of_suffix_length_le hsuffix hsuffix' (Nat.le_of_eq hlength)
  exact (List.cons.inj (hsame.eq_of_length hlength)).1

/-- A line passes nothing below its own declaration. -/
theorem not_passes_below (hline : tree.Line id above) (via : DeclId) :
    ¬ tree.Passes id via (above.length + 1) := by
  rintro ⟨above', rest, hline', hsuffix, hdepth⟩
  have hlength := hsuffix.length_le
  rw [← hrooted.line_unique hline hline', List.length_cons, List.length_cons, hdepth] at hlength
  exact Nat.not_succ_le_self _ (Nat.le_of_succ_le_succ hlength)

/-- A line that passes a declaration passes its container. -/
theorem passes_container {parent child : DeclId} {depth : Nat}
    (hpasses : tree.Passes id child (depth + 1)) (hchild : child ∈ tree.children parent) :
    tree.Passes id parent depth := by
  obtain ⟨above, rest, hline, hsuffix, hdepth⟩ := hpasses
  have hrest : tree.Line child rest := by
    obtain heq | hsuffix := List.suffix_cons_iff.mp hsuffix
    · obtain ⟨rfl, rfl⟩ := List.cons.inj heq
      exact hline
    · exact hline.above_suffix hsuffix
  cases hrest with
  | root => cases hdepth
  | @child owner _ rest _ howner =>
    have hcontainer := hrooted.owned.listed _ _ howner
    rw [hrooted.owned.listed _ _ hchild] at hcontainer
    obtain rfl := Option.some.inj hcontainer
    exact ⟨above, rest, hline, (List.suffix_cons _ _).trans hsuffix, Nat.succ.inj hdepth⟩

end Rooted

end Tree

end Concord
