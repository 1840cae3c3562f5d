import Concord.Proofs.Comparison.Vouching
import Concord.Proofs.Comparison.Shapes
import Concord.Proofs.Declaration.Restating
import Concord.Proofs.Linking
import Concord.Proofs.Merge.Runs

namespace Concord

/-- A type in which no name is left to look up. -/
def Ty.Linked (type : Ty ClassifierRef) : Prop :=
  ∀ reference ∈ type.refs, ∀ name, reference ≠ .symbolic name

/-- A tree in which no name is left to look up. -/
def Tree.Linked (tree : Tree) : Prop :=
  ∀ id, ∀ type ∈ (tree.declaration id).payload.types, type.Linked

namespace Tree

variable {tree : Tree}

/-- Linking leaves no name to look up. -/
theorem linked_link : tree.link.Linked := by
  intro id type htype reference href
  rw [Tree.declaration] at htype
  cases hget : tree.link.get? id with
  | none =>
    rw [hget] at htype
    cases htype
  | some declaration =>
    rw [hget, Option.getD_some] at htype
    have hrefs : reference ∈ declaration.payload.refs := List.mem_flatMap.mpr ⟨type, htype, href⟩
    exact Payload.every_iff.mp (every_of_get?_link hget) reference hrefs

/-- In a tree that is read from sources no name is left to look up. -/
theorem ofSources_linked {sources : List Source} (hread : ofSources sources = .ok tree) :
    tree.Linked := by
  obtain ⟨draft, -, rfl, -⟩ := ofSources_regular hread
  exact linked_link

theorem spell_of_nameOf? {reference : ClassifierRef} {name : QualifiedName}
    (hname : tree.nameOf? reference = some name) : tree.spell reference = ⟨some name, none⟩ := by
  cases reference with
  | typeParameter parameter => cases hname
  | _ => exact congrArg (Spelling.mk · none) hname

/-- What a reference leads to gives it its name, once the reference is linked. -/
theorem nameOf?_of_resolve? {reference : ClassifierRef} {id : DeclId}
    (hlinked : ∀ name, reference ≠ .symbolic name) (hresolve : tree.resolve? reference = some id) :
    tree.nameOf? reference = some (tree.declaration id).qualifiedName := by
  cases reference with
  | resolved target =>
    obtain ⟨declaration, hget, rfl⟩ := Option.map_eq_some_iff.mp hresolve
    rw [nameOf?, hget, declaration_of_get? hget]
    rfl
  | symbolic name => exact absurd rfl (hlinked name)
  | external name => cases hresolve
  | typeParameter name => cases hresolve

end Tree

namespace Sides

variable {sides : Sides} {R : DeclId → DeclId → Prop} (hconsistent : sides.Consistent)
  (hnames : ∀ a b, R a b →
    (sides.first.declaration a).qualifiedName = (sides.second.declaration b).qualifiedName)
include hconsistent hnames

omit hconsistent in
/-- References that agree are spelled alike. -/
theorem RefsAgree.spelled {x y : ClassifierRef} (hx : ∀ name, x ≠ .symbolic name)
    (hy : ∀ name, y ≠ .symbolic name) (hagree : sides.RefsAgree R x y) :
    sides.first.spell x = sides.second.spell y := by
  cases hagree with
  | typeParameter name => rfl
  | byName hfirst hsecond _ => rw [Tree.spell_of_nameOf? hfirst, Tree.spell_of_nameOf? hsecond]
  | @shared _ _ a b hfirst hsecond _ hR =>
    rw [Tree.spell_of_nameOf? (Tree.nameOf?_of_resolve? hx hfirst),
      Tree.spell_of_nameOf? (Tree.nameOf?_of_resolve? hy hsecond), hnames a b hR]

/-- References that are alike are spelled alike. -/
theorem RefsAlike.spelled {x y : ClassifierRef} (hx : ∀ name, x ≠ .symbolic name)
    (hy : ∀ name, y ≠ .symbolic name) (halike : sides.RefsAlike R x y) :
    sides.first.spell x = sides.second.spell y := by
  obtain ⟨hsame, rfl⟩ | hagree := halike
  · rw [hconsistent hsame]
  · exact hagree.spelled hnames hx hy

/-- Types that agree are spelled alike, as comparisons read them. -/
theorem TypesAgree.spelled {a b : Ty ClassifierRef} (ha : a.Linked) (hb : b.Linked)
    (hagree : sides.TypesAgree R a b) :
    sides.first.typeSource a.compared = sides.second.typeSource b.compared := by
  refine Ty.map_eq_map _ _ hagree.shape (forall₂_imp_of_mem hagree.refs fun x hx y hy hxy => ?_)
  exact hxy.spelled hconsistent hnames (ha x (Ty.refs_compared a hx)) (hb y (Ty.refs_compared b hy))

/-- Types that agree are spelled alike in their alias spelling, if comparisons read all of it. -/
theorem TypesAgree.collapse_spelled {a b : Ty ClassifierRef} (ha : a.Linked) (hb : b.Linked)
    (honce : a.spelledOnce = true ∧ b.spelledOnce = true) (hagree : sides.TypesAgree R a b) :
    sides.first.typeSource a.collapse = sides.second.typeSource b.collapse := by
  rw [← Ty.compared_eq_collapse a honce.1, ← Ty.compared_eq_collapse b honce.2]
  exact hagree.spelled hconsistent hnames ha hb

end Sides

end Concord
