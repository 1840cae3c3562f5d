import Concord.Proofs.Source.References
import Concord.Proofs.Source.Preorder
import Concord.Proofs.Tree.Ownership

namespace Concord

namespace Tree

open Source (walkAll tidy tidyAll)

variable {sources : List Source} {tree : Tree}

/-- What is read from sources is sound, follows the sources one by one, is written back as they are,
and is read from that again. -/
theorem ofSources_roundTrip (hread : ofSources sources = .ok tree) :
    tree.checkOwnership = .ok () ∧
    tree.size = (walkAll sources).length ∧
    (∀ index source, (walkAll sources)[index]? = some source →
      tree.source? ⟨index⟩ = some source.tidy ∧ ∃ declaration data,
        tree.get? ⟨index⟩ = some declaration ∧
        source.data declaration.qualifiedName = .ok data ∧
        declaration.data = data.mapRefs tree.linkRef) ∧
    (∀ id declaration, tree.get? id = some declaration →
      if declaration.kind = .module ∨ declaration.kind = .package then
        declaration.qualifiedName = ⟨declaration.name.text⟩
      else ∃ container owner, declaration.container = some container ∧
        tree.get? container = some owner ∧
        declaration.qualifiedName = owner.qualifiedName.child declaration.name) ∧
    tree.toSources = tidyAll sources ∧
    ofSources tree.toSources = .ok tree := by
  have htitled := ofSources_titled hread
  have hwritten := toSources_of_ofSources hread
  obtain ⟨hsize, hplaces⟩ := ofSources_walkAll hread
  refine ⟨checkOwnership_iff.mpr (regular_of_ofSources hread).owned, hsize, hplaces,
    fun id declaration hget => ?_, hwritten, ?_⟩
  · split
    · next hwhole => exact htitled.whole id declaration hget hwhole
    · next hnested =>
      obtain ⟨hmodule, hpackage⟩ := not_or.mp hnested
      obtain ⟨-, hcontainer⟩ := htitled.nested id declaration hget hmodule hpackage
      exact hcontainer
  · rw [hwritten, ofSources_tidyAll, hread]

/-- A class that is bounded by an alias of itself, and that alias with its expanded type written
out. -/
private def recurring : List Source :=
  [.mk ⟨"m"⟩ .everyone .final .plain (.module ⟨none⟩)
    [.mk ⟨"p"⟩ .everyone .final .plain .package
      [.mk ⟨"A"⟩ .everyone .final .plain
        (.typeAlias ⟨.simple ⟨⟨some ⟨"p.C"⟩, none⟩, [], false, false, none⟩,
          some (.simple ⟨⟨some ⟨"p.C"⟩, none⟩, [], false, false, none⟩), []⟩) [],
      .mk ⟨"C"⟩ .everyone .abstract .expect
        (.classType ⟨.interface, false, false, false, false, false,
          [⟨⟨"T"⟩, .invariant, [.simple ⟨⟨some ⟨"p.A"⟩, none⟩, [], false, false, none⟩], false⟩],
          [], []⟩) []]]]

/-- Four declarations are read, and the alias is written back without its expanded type. -/
theorem recurring_roundTrip : ∃ tree, ofSources recurring = .ok tree ∧ tree.size = 4 ∧
    tree.toSources = tidyAll recurring ∧ ofSources tree.toSources = .ok tree := by
  have hknown : (ofSources recurring).isOk = true := by decide +kernel
  obtain ⟨tree, hread⟩ := Except.succeeds_of_isOk hknown
  obtain ⟨-, hsize, -, -, hwritten, hagain⟩ := ofSources_roundTrip hread
  exact ⟨tree, hread, hsize, hwritten, hagain⟩

end Tree

end Concord
