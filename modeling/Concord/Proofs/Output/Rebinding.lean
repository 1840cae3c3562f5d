import Concord.Output.Filling
import Concord.Proofs.Source.Spelling

namespace Concord

namespace Binding

variable {binding : Binding} {output : Output} {input tree : Tree} {data bound : Data}

/-- The classifiers that are registered for an output bear their names in a tree. -/
def NamedIn (binding : Binding) (output : Output) (tree : Tree) : Prop :=
  ∀ name id, binding.registry.classifier? name output = some id →
    ∃ declaration, tree.get? id = some declaration ∧ declaration.qualifiedName = name

/-- A detached reference is bound to what it is spelled as. -/
private theorem ref_spelled (hnamed : binding.NamedIn output tree) {owner : QualifiedName}
    {reference found : ClassifierRef} (hbind : binding.ref owner output reference = .ok found) :
    tree.spell found = input.spell reference := by
  cases reference with
  | symbolic name =>
    rw [ref] at hbind
    cases hindex : binding.registry.classifier? name output with
    | some id =>
      rw [hindex] at hbind
      cases hbind
      obtain ⟨declaration, hget, rfl⟩ := hnamed name id hindex
      rw [Tree.spell_resolved, hget]
      rfl
    | none =>
      simp only [hindex] at hbind
      split at hbind
      · cases hbind
        rfl
      · cases hbind
  | resolved id => cases hbind
  | external name =>
    cases hbind
    rfl
  | typeParameter name =>
    cases hbind
    rfl

theorem data_eq_ok (hbind : binding.data output data = .ok bound) :
    data.payload.mapRefsM (binding.ref data.qualifiedName output) = .ok bound.payload ∧
      bound = { data with payload := bound.payload } := by
  obtain ⟨payload, hpayload, heq⟩ := Except.bind_eq_ok.mp hbind
  cases heq
  exact ⟨hpayload, rfl⟩

theorem data_kind (hbind : binding.data output data = .ok bound) : bound.kind = data.kind := by
  have hkind := Payload.mapTypes_of_mapTypesM (g := fun _ => (default : Ty Unit))
    (h := fun _ => default) (fun _ _ _ => rfl) (data_eq_ok hbind).1
  have hsame := congrArg Payload.kind hkind
  rwa [Payload.kind_mapTypes, Payload.kind_mapTypes] at hsame

/-- Data that is moved from one tree into an output is spelled as before. -/
theorem data_spelled (hnamed : binding.NamedIn output tree)
    (hbind : binding.data output (data.mapRefs input.detachRef) = .ok bound) :
    bound.payload.mapRefs tree.spell = data.payload.mapRefs input.spell := by
  have hspelled := Payload.mapRefs_of_mapRefsM (h := input.spell)
    (fun _ _ => ref_spelled hnamed) (data_eq_ok hbind).1
  rw [hspelled, Data.mapRefs, Payload.mapRefs_mapRefs]
  congr 1
  exact funext input.spell_detachRef

/-- Data that could be read off its spelling still can. -/
private theorem data_legible (hnamed : binding.NamedIn output tree)
    (hlegible : input.Legible data.payload)
    (hbind : binding.data output (data.mapRefs input.detachRef) = .ok bound) :
    tree.Legible bound.payload := by
  obtain ⟨read, hread⟩ := hlegible
  have hrun := (data_eq_ok hbind).1
  let rebind (reference : ClassifierRef) : ClassifierRef :=
    match binding.ref data.qualifiedName output reference with
    | .ok found => found
    | .error _ => default
  have hrebind : bound.payload = (data.payload.mapRefs input.detachRef).mapRefs rebind := by
    have hsame := Payload.mapRefs_of_mapRefsM (g := id) (h := rebind)
      (fun reference found (hfound : binding.ref data.qualifiedName output reference = _) => by
        simp only [rebind, hfound, id]) hrun
    rwa [Payload.mapRefs_id] at hsame
  -- what a spelling is bound to anew is what the reference it was read off was bound to
  refine ⟨rebind ∘ input.detachRef ∘ read, ?_⟩
  have hagain := Payload.mapRefs_of_mapRefsM
    (h := rebind ∘ input.detachRef ∘ read ∘ input.spell)
    (fun reference found (hfound : binding.ref data.qualifiedName output reference = _) => by
      show rebind (input.detachRef (read (tree.spell found))) = _
      rw [ref_spelled hnamed hfound]
      rfl) hrun
  calc
    bound.payload.mapRefs ((rebind ∘ input.detachRef ∘ read) ∘ tree.spell) =
        (data.payload.mapRefs input.detachRef).mapRefs
          (rebind ∘ input.detachRef ∘ read ∘ input.spell) := hagain
    _ = data.payload.mapRefs (rebind ∘ input.detachRef ∘ read ∘ input.spell) := by
      rw [Payload.mapRefs_mapRefs]
      congr 1
      funext reference
      simp only [Function.comp_apply, input.spell_detachRef]
    _ = (data.payload.mapRefs (read ∘ input.spell)).mapRefs (rebind ∘ input.detachRef) := by
      rw [Payload.mapRefs_mapRefs]
      rfl
    _ = bound.payload := by rw [hread, hrebind, Payload.mapRefs_mapRefs]

/-- Data that is moved into an output has the same source. -/
theorem data_source (hnamed : binding.NamedIn output tree)
    (hlegible : input.Legible data.payload)
    (hbind : binding.data output (data.mapRefs input.detachRef) = .ok bound) :
    tree.payloadSource bound.payload = input.payloadSource data.payload := by
  rw [Tree.payloadSource_of_legible hlegible,
    Tree.payloadSource_of_legible (data_legible hnamed hlegible hbind), data_spelled hnamed hbind]

end Binding

end Concord
