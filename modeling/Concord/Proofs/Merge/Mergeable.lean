import Concord.Proofs.Tree.Descent
import Concord.Proofs.Tree.Regular
import Concord.Merge.Trees

namespace Concord

private theorem forM_eq_ok {α ε : Type} {check : α → Except ε Unit} {items : List α} :
    items.forM check = .ok () ↔ ∀ item ∈ items, check item = .ok () := by
  induction items with
  | nil => simp [pure, Except.pure]
  | cons item items ih =>
    rw [List.forall_mem_cons]
    constructor
    · intro hrun
      obtain ⟨_, hitem, hitems⟩ := Except.bind_eq_ok.mp hrun
      exact ⟨hitem, ih.mp hitems⟩
    · rintro ⟨hitem, hitems⟩
      exact Except.bind_eq_ok.mpr ⟨(), hitem, ih.mpr hitems⟩

/-- A tree can be merged when its ownership is sound and its roots are modules. -/
theorem checkMergeable_iff {tree : Tree} {side : Output} :
    checkMergeable tree side = .ok () ↔
      tree.Owned ∧ ∀ root ∈ tree.roots, (tree.declaration root).kind = .module := by
  have hroot (root : DeclId) : (do
      let declaration := tree.declaration root
      unless declaration.kind = .module do
        throw (.invalidInput side (.rootNotModule declaration.name.text declaration.kind)) :
          Except RunError Unit) = .ok () ↔ (tree.declaration root).kind = .module := by
    by_cases hkind : (tree.declaration root).kind = .module
    · simp [hkind, pure, Except.pure]
    · simp [hkind, throw, throwThe, MonadExceptOf.throw]
  rw [checkMergeable, Except.bind_eq_ok]
  simp only [Except.mapError_eq_ok, forM_eq_ok, hroot, ← Tree.checkOwnership_iff]
  constructor
  · rintro ⟨_, howned, hroots⟩
    exact ⟨howned, hroots⟩
  · rintro ⟨howned, hroots⟩
    exact ⟨(), howned, hroots⟩

/-- The parameters of functions own nothing. Attachment puts only parameters into functions, and
nothing into parameters. -/
def Tree.ParametersBare (tree : Tree) : Prop :=
  ∀ id declaration, tree.get? id = some declaration → declaration.kind = .function →
    ∀ child ∈ declaration.children, tree.children child = []

/-- The parameters of functions are values. -/
def Tree.ParametersAreValues (tree : Tree) : Prop :=
  ∀ id child, (tree.declaration id).kind = .function → child ∈ tree.children id →
    (tree.declaration child).kind = .value

/-- A tree whose child lists are a forest, and in which the parameters of functions own nothing. -/
structure Tree.Mergeable (tree : Tree) : Prop where
  rooted : tree.Rooted
  bare : tree.ParametersBare

/-- The parameters of a function own nothing. -/
theorem Tree.Mergeable.children_parameter {tree : Tree} (hmergeable : tree.Mergeable)
    {id child : DeclId} (hfunction : (tree.declaration id).kind = .function)
    (hchild : child ∈ tree.children id) : tree.children child = [] := by
  cases hget : tree.get? id with
  | none => simp [Tree.children, hget] at hchild
  | some declaration =>
    rw [Tree.declaration_of_get? hget] at hfunction
    rw [Tree.children, hget] at hchild
    exact hmergeable.bare id declaration hget hfunction child hchild

/-- A built tree that passes its check, with roots that belong nowhere, is a forest below its roots. -/
theorem Tree.Built.rooted {tree : Tree} {side : Output} (hbuilt : tree.Built)
    (hcheck : checkMergeable tree side = .ok ())
    (hfree : ∀ root ∈ tree.roots, tree.container? root = none) : tree.Rooted :=
  ⟨(checkMergeable_iff.mp hcheck).1, hbuilt.roots_sound.1, hbuilt.roots_known, hfree⟩

/-- If the parameters of functions own nothing in it, such a tree can be merged. -/
theorem Tree.Built.mergeable {tree : Tree} {side : Output} (hbuilt : tree.Built)
    (hcheck : checkMergeable tree side = .ok ())
    (hfree : ∀ root ∈ tree.roots, tree.container? root = none) (hbare : tree.ParametersBare) :
    tree.Mergeable :=
  ⟨hbuilt.rooted hcheck hfree, hbare⟩

/-- What a declaration lists is a declaration that it may own. -/
theorem Tree.Regular.child_placed {tree : Tree} (hregular : tree.Regular) {id child : DeclId}
    (hchild : child ∈ tree.children id) : ∃ owner declaration, tree.get? id = some owner ∧
      tree.get? child = some declaration ∧ owner.kind.mayContain declaration.kind = true := by
  obtain ⟨declaration, hget, hcontainer⟩ :=
    Tree.container?_eq_some.mp (hregular.owned.listed id child hchild)
  obtain ⟨owner, howner, hmay⟩ := hregular.placed child declaration id hget hcontainer
  exact ⟨owner, declaration, howner, hget, hmay⟩

/-- A declaration that belongs nowhere is a root. -/
theorem Tree.Regular.root_of_free {tree : Tree} (hregular : tree.Regular) {id : DeclId}
    {declaration : Declaration} (hget : tree.get? id = some declaration)
    (hfree : tree.container? id = none) : id ∈ tree.roots := by
  cases hregular.reachable id declaration hget with
  | root hroot => exact hroot
  | child _ hchild => cases hfree.symm.trans (hregular.owned.listed _ _ hchild)

theorem Tree.Regular.child_not_module {tree : Tree} (hregular : tree.Regular) {id child : DeclId}
    (hchild : child ∈ tree.children id) : (tree.declaration child).kind ≠ .module := by
  obtain ⟨owner, declaration, -, hget, hmay⟩ := hregular.child_placed hchild
  rw [Tree.declaration_of_get? hget]
  intro hmodule
  rw [hmodule] at hmay
  cases hmay

/-- Attachment puts only values into functions. -/
theorem Tree.Regular.parametersAreValues {tree : Tree} (hregular : tree.Regular) :
    tree.ParametersAreValues := by
  intro id child hkind hchild
  obtain ⟨owner, parameter, howner, hparameter, hmay⟩ := hregular.child_placed hchild
  rw [Tree.declaration_of_get? howner] at hkind
  rw [Tree.declaration_of_get? hparameter]
  rw [hkind] at hmay
  cases hvalue : parameter.kind <;> rw [hvalue] at hmay <;> first | rfl | cases hmay

/-- A tree whose links and index fit together can be merged. -/
theorem Tree.Regular.mergeable {tree : Tree} (hregular : tree.Regular) : tree.Mergeable := by
  refine ⟨hregular.rooted, fun id declaration hget hkind child hchild => ?_⟩
  rw [← Tree.children_of_get? hget] at hchild
  obtain ⟨owner, parameter, howner, hparameter, hmay⟩ := hregular.child_placed hchild
  rw [hget] at howner
  cases howner
  refine List.eq_nil_iff_forall_not_mem.mpr fun below hbelow => ?_
  obtain ⟨owner, found, howner, -, hmay'⟩ := hregular.child_placed hbelow
  rw [hparameter] at howner
  cases howner
  rw [hkind] at hmay
  cases hparameterKind : parameter.kind <;> rw [hparameterKind] at hmay <;> cases hmay
  rw [hparameterKind] at hmay'
  cases hfound : found.kind <;> rw [hfound] at hmay' <;> cases hmay'

theorem Tree.Regular.checkMergeable {tree : Tree} (hregular : tree.Regular) (side : Output) :
    Concord.checkMergeable tree side = .ok () := by
  refine checkMergeable_iff.mpr ⟨hregular.owned, fun root hroot => ?_⟩
  obtain ⟨declaration, hget, hkind, -⟩ := hregular.roots root hroot
  rwa [Tree.declaration_of_get? hget]

end Concord
