import Concord.Proofs.Source.References
import Concord.Proofs.Source.Readable

namespace Concord

namespace Source

/-- Nothing is lost of a spelled payload when it is written. -/
theorem explicit_write (payload : Concord.Payload Spelling) : (write payload).explicit = payload := by
  cases payload with
  | typeAlias info =>
    obtain ⟨typeParameters, underlying, expanded⟩ := info
    rw [write, Payload.explicit]
    by_cases hsame : expanded = underlying
    · rw [if_pos hsame, Option.getD_none, hsame]
    · rw [if_neg hsame, Option.getD_some]
  | _ => rfl

end Source

namespace Tree

variable {tree : Tree}

theorem kind_payloadSource (payload : Payload ClassifierRef) :
    (tree.payloadSource payload).kind = payload.kind := by
  cases payload <;> rfl

/-- What is spelled so that it is found again names one thing. -/
theorem Spells.succeeds_bind {reference : ClassifierRef} (hspells : tree.Spells reference)
    (owner : SimpleName) : (Source.bind owner (tree.spell reference)).Succeeds := by
  cases reference with
  | resolved id =>
    cases hget : tree.get? id with
    | some declaration =>
      rw [spell_resolved, hget]
      exact ⟨.symbolic declaration.qualifiedName, rfl⟩
    | none =>
      rw [Spells, spell_resolved, hget] at hspells
      cases hspells
  | symbolic name => exact ⟨_, rfl⟩
  | external name => exact ⟨_, rfl⟩
  | typeParameter name => exact ⟨_, rfl⟩

/-- A tree that can be written as sources and read again. -/
structure Writable (tree : Tree) : Prop where
  rooted : tree.Rooted
  reachable : ∀ id declaration, tree.get? id = some declaration → tree.Reachable id
  modules : ∀ root ∈ tree.roots, ∃ declaration, tree.get? root = some declaration ∧
    declaration.kind = .module
  placed : ∀ id declaration container, tree.get? id = some declaration →
    declaration.container = some container →
    ∃ owner, tree.get? container = some owner ∧ owner.kind.mayContain declaration.kind = true
  titled : tree.Titled
  named : ∀ name id, tree.classifier? name = some id → ∃ declaration,
    tree.get? id = some declaration ∧ declaration.kind.isClassifier = true ∧
      declaration.qualifiedName = name
  indexed : ∀ id declaration, tree.get? id = some declaration →
    declaration.kind.isClassifier = true → (tree.classifier? declaration.qualifiedName).isSome
  spells : ∀ id declaration, tree.get? id = some declaration →
    ∀ reference ∈ declaration.payload.refs, tree.Spells reference

/-- A tree that was read can be written. -/
theorem writable_of_ofSources {sources : List Source} (hread : ofSources sources = .ok tree) :
    tree.Writable := by
  have hregular := regular_of_ofSources hread
  refine ⟨hregular.rooted, hregular.reachable, fun root hroot => ?_, hregular.placed,
    ofSources_titled hread, hregular.named, hregular.indexed,
    fun _ _ hget _ href => ofSources_spells hread hget href⟩
  obtain ⟨declaration, hget, hkind, -⟩ := hregular.roots root hroot
  exact ⟨declaration, hget, hkind⟩

namespace Writable

variable (hwritable : tree.Writable)
include hwritable

/-- The payloads of the tree are written as they are spelled. -/
theorem payloadSource_eq {id : DeclId} {declaration : Declaration}
    (hget : tree.get? id = some declaration) :
    tree.payloadSource declaration.payload = Source.write (declaration.payload.mapRefs tree.spell) :=
  payloadSource_of_legible (legible_of_spells (hwritable.spells id declaration hget))

/-- What is owned may be owned, and is named by a segment unless it is a package. -/
private theorem child_placed {id child : DeclId} {declaration : Declaration}
    (hget : tree.get? id = some declaration) (hchild : child ∈ declaration.children) :
    ∃ below, tree.get? child = some below ∧
      declaration.kind.mayContain below.kind = true ∧
      (below.kind ≠ .package → below.name.isSegment = true) := by
  rw [← children_of_get? hget] at hchild
  obtain ⟨below, hbelow, hcontainer⟩ :=
    container?_eq_some.mp (hwritable.rooted.owned.listed id child hchild)
  obtain ⟨owner, howner, hmay⟩ := hwritable.placed child below id hbelow hcontainer
  cases hget.symm.trans howner
  refine ⟨below, hbelow, hmay, fun hpackage => ?_⟩
  refine (hwritable.titled.nested child below hbelow (fun hmodule => ?_) hpackage).1
  rw [hmodule] at hmay
  cases hmay

/-- The payloads of the tree are read again from how they are written. -/
private theorem succeeds_bindPayload {id : DeclId} {declaration : Declaration}
    (hget : tree.get? id = some declaration) (owner : SimpleName) :
    (Source.bindPayload owner (tree.payloadSource declaration.payload)).Succeeds := by
  rw [Source.succeeds_bindPayload, hwritable.payloadSource_eq hget, Source.explicit_write,
    Payload.refs_mapRefs, List.forall_mem_map]
  intro reference href
  exact (hwritable.spells id declaration hget reference href).succeeds_bind owner

/-- What is written for a declaration can be read, and leaves out what can be left out. -/
private theorem readable_sourceWithin : ∀ (depth : Nat) {id : DeclId} {declaration : Declaration}
    {source : Source}, tree.get? id = some declaration → tree.sourceWithin depth id = some source →
    source.kind = declaration.kind ∧ source.name = declaration.name ∧ source.Readable ∧
      source.tidy = source
  | 0, _, _, _, _, hsource => by cases hsource
  | depth + 1, id, declaration, source, hget, hsource => by
    rw [sourceWithin_of_get? hget] at hsource
    cases hsource
    have hmembers (member : Source)
        (hmember : member ∈ declaration.children.filterMap (tree.sourceWithin depth)) :
        (declaration.kind.mayContain member.kind = true ∧
          (member.kind ≠ .package → member.name.isSegment = true) ∧ member.Readable) ∧
          member.tidy = member := by
      obtain ⟨child, hchild, hsource⟩ := List.mem_filterMap.mp hmember
      obtain ⟨below, hbelow, hmay, hsegment⟩ := hwritable.child_placed hget hchild
      obtain ⟨hkind, hname, hreadable, htidy⟩ := readable_sourceWithin depth hbelow hsource
      rw [hkind, hname]
      exact ⟨⟨hmay, hsegment, hreadable⟩, htidy⟩
    refine ⟨kind_payloadSource _, rfl, ?_, ?_⟩
    · rw [Source.Readable, Source.readableAll_iff, kind_payloadSource]
      exact ⟨hwritable.succeeds_bindPayload hget _, fun member hmember => (hmembers member hmember).1⟩
    · have hpayload := hwritable.payloadSource_eq hget
      rw [Declaration.payload] at hpayload
      rw [Source.tidy, ← Source.Payload.write_explicit, hpayload, Source.explicit_write,
        Source.tidyAll_eq_map, List.map_congr_left fun member hmember => (hmembers member hmember).2,
        List.map_id']

/-- What is written for the tree can be read, as a tree for which the same is written. -/
theorem reads_back : ∃ again, ofSources tree.toSources = .ok again ∧
    again.toSources = tree.toSources := by
  have hsources (source : Source) (hsource : source ∈ tree.toSources) :
      (source.kind = .module ∧ source.Readable) ∧ source.tidy = source := by
    obtain ⟨root, hroot, hsource⟩ := List.mem_filterMap.mp hsource
    obtain ⟨declaration, hget, hmodule⟩ := hwritable.modules root hroot
    obtain ⟨hkind, -, hreadable, htidy⟩ := hwritable.readable_sourceWithin _ hget hsource
    exact ⟨⟨hkind.trans hmodule, hreadable⟩, htidy⟩
  obtain ⟨again, hread⟩ := ofSources_succeeds_iff.mpr fun source hsource => (hsources source hsource).1
  refine ⟨again, hread, ?_⟩
  rw [toSources_of_ofSources hread, Source.tidyAll_eq_map,
    List.map_congr_left fun source hsource => (hsources source hsource).2, List.map_id']

end Writable

end Tree

end Concord
