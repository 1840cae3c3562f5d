import Concord.Proofs.Source.Restoring

namespace Concord

namespace Source

mutual
/-- A source whose types can be bound and whose members can be read. -/
def Readable : Source → Prop
  | mk name _ _ _ payload members =>
    (bindPayload name payload).Succeeds ∧ ReadableAll payload.kind members
/-- Some sources that can be read as members of a declaration of a kind. -/
def ReadableAll (owner : Kind) : List Source → Prop
  | [] => True
  | member :: members => (owner.mayContain member.kind = true ∧
      (member.kind ≠ .package → member.name.isSegment = true) ∧ Readable member) ∧
    ReadableAll owner members
end

theorem readableAll_iff {owner : Kind} {members : List Source} : ReadableAll owner members ↔
    ∀ member ∈ members, owner.mayContain member.kind = true ∧
      (member.kind ≠ .package → member.name.isSegment = true) ∧ member.Readable := by
  induction members with
  | nil =>
    rw [ReadableAll]
    exact iff_of_true trivial (List.forall_mem_nil _)
  | cons member members ih => rw [ReadableAll, List.forall_mem_cons, ih]

/-- Three steps that do not need what the others give succeed together in every order. -/
private theorem succeeds_three {ε α β γ δ : Type} {first : Except ε α} {second : Except ε β}
    {third : Except ε γ} {f : α → β → γ → δ} :
    (do return f (← first) (← second) (← third)).Succeeds ↔
      first.Succeeds ∧ second.Succeeds ∧ third.Succeeds :=
  Except.succeeds_bind fun _ => Except.succeeds_bind fun _ => Except.succeeds_map

/-- A written payload can be bound when each of its spellings can. The order in which its types are
bound does not matter for that. -/
theorem succeeds_bindPayload {owner : SimpleName} {payload : Payload} :
    (bindPayload owner payload).Succeeds ↔
      ∀ spelling ∈ payload.explicit.refs, (bind owner spelling).Succeeds := by
  rw [← Concord.Payload.succeeds_mapRefsM]
  cases payload with
  | function info =>
    refine succeeds_three.trans (Iff.trans ?_ (Except.succeeds_map.trans succeeds_three).symm)
    rw [and_comm, and_assoc, and_left_comm]
    exact Iff.rfl
  | property info =>
    refine succeeds_three.trans (Iff.trans ?_ (Except.succeeds_map.trans succeeds_three).symm)
    rw [and_comm, and_assoc, and_left_comm]
    exact Iff.rfl
  | typeAlias info =>
    obtain ⟨underlying, expanded, typeParameters⟩ := info
    cases expanded with
    | some expanded =>
      refine succeeds_three.trans (Iff.trans ?_ (Except.succeeds_map.trans succeeds_three).symm)
      rw [← and_assoc, and_comm]
      exact Iff.rfl
    | none =>
      refine (Except.succeeds_bind fun _ => Except.succeeds_map).trans
        (Iff.trans ?_ (Except.succeeds_map.trans succeeds_three).symm)
      rw [and_comm]
      exact and_congr_right fun _ => (and_self_iff).symm
  | _ => exact Iff.rfl

end Source

namespace Tree

variable {tree : Tree} {container : DeclId} {owner : Declaration}

private theorem succeeds_memberName (howner : tree.get? container = some owner) {member : Source} :
    (tree.memberName container member).Succeeds ↔
      (member.kind ≠ .package → member.name.isSegment = true) := by
  have hextends : (do
      let owner ← tree.fetch container
      unless member.name.isSegment do throw (.invalidName member.name.text)
      return owner.qualifiedName.child member.name : Except TreeError QualifiedName).Succeeds ↔
        member.name.isSegment = true := by
    rw [fetch_eq_ok.mpr howner]
    by_cases hsegment : member.name.isSegment = true
    · simp [Except.Succeeds, hsegment, bind, Except.bind, pure, Except.pure]
    · simp [Except.Succeeds, hsegment, bind, Except.bind, throw, throwThe, MonadExceptOf.throw]
  rw [memberName]
  cases hkind : member.kind with
  | package => exact iff_of_true Except.succeeds_pure fun hne => absurd rfl hne
  | _ => rw [hextends]; simp

private theorem succeeds_insert (howner : tree.get? container = some owner) {data : Data} :
    (tree.insert container data).Succeeds ↔ owner.kind.mayContain data.kind = true := by
  refine ⟨?_, insert_succeeds howner⟩
  rintro ⟨⟨id, grown⟩, hinsert⟩
  obtain ⟨found, hfound, hmay, -⟩ := insert_eq_ok hinsert
  cases howner.symm.trans hfound
  exact hmay

mutual
/-- Whether a member can be read into a declaration depends on the kind of the declaration only. -/
private theorem succeeds_addMember : ∀ (member : Source) {tree : Tree} {container : DeclId}
    {owner : Declaration}, tree.get? container = some owner →
    ((tree.addMember container member).Succeeds ↔ owner.kind.mayContain member.kind = true ∧
      (member.kind ≠ .package → member.name.isSegment = true) ∧ member.Readable)
  | .mk name visibility modality expectation payload members, tree, container, owner, howner => by
    rw [addMember, Source.Readable]
    refine (Except.succeeds_bind_of_ok (P := (Source.bindPayload name payload).Succeeds ∧
      owner.kind.mayContain payload.kind = true ∧ Source.ReadableAll payload.kind members)
      fun qualifiedName _ => ?_).trans ?_
    · refine (Except.succeeds_bind_of_ok (P := owner.kind.mayContain payload.kind = true ∧
        Source.ReadableAll payload.kind members) fun data hdata => ?_).trans
        (and_congr_left' Except.succeeds_map)
      obtain ⟨hkind, -⟩ := Source.data_eq_ok hdata
      refine (Except.succeeds_bind_of_ok (P := Source.ReadableAll payload.kind members)
        fun inserted hinsert => ?_).trans ?_
      · obtain ⟨id, grown⟩ := inserted
        have hnew : grown.get? id = some ⟨data, some container, []⟩ := by
          rw [get?_insert hinsert, if_pos rfl]
        have hmembers := succeeds_addMembers members hnew
        rwa [Declaration.kind, hkind] at hmembers
      · rw [succeeds_insert howner, hkind]
        exact Iff.rfl
    · rw [succeeds_memberName howner]
      constructor
      · rintro ⟨hname, hbind, hmay, hmembers⟩
        exact ⟨hmay, hname, hbind, hmembers⟩
      · rintro ⟨hmay, hname, hbind, hmembers⟩
        exact ⟨hname, hbind, hmay, hmembers⟩
private theorem succeeds_addMembers : ∀ (members : List Source) {tree : Tree} {container : DeclId}
    {owner : Declaration}, tree.get? container = some owner →
    ((tree.addMembers container members).Succeeds ↔ Source.ReadableAll owner.kind members)
  | [], tree, container, owner, howner => by
    rw [addMembers, Source.ReadableAll]
    exact iff_of_true Except.succeeds_pure trivial
  | member :: members, tree, container, owner, howner => by
    rw [addMembers, Source.ReadableAll, ← succeeds_addMember member howner]
    refine Except.succeeds_bind_of_ok fun grown hgrown => ?_
    -- The container is still there, with one more child.
    obtain ⟨hgrows, -⟩ := addMember_represents member hgrown
    have hmembers := succeeds_addMembers members (hgrows container owner howner)
    exact hmembers
end

private theorem succeeds_addSource {source : Source} :
    (tree.addSource source).Succeeds ↔ source.kind = .module ∧ source.Readable := by
  obtain ⟨name, visibility, modality, expectation, payload, members⟩ := source
  by_cases hmodule : payload.kind = .module
  · simp only [addSource, hmodule]
    rw [Source.Readable]
    refine Iff.trans ?_ (and_iff_right hmodule).symm
    refine (Except.succeeds_bind_of_ok (P := Source.ReadableAll payload.kind members)
      fun data hdata => ?_).trans (and_congr_left' Except.succeeds_map)
    obtain ⟨hkind, -⟩ := Source.data_eq_ok hdata
    have hnew : (tree.addRoot data).2.get? ⟨tree.size⟩ = some ⟨data, none, []⟩ := by
      rw [get?_addRoot, if_pos rfl]
    have hmembers := succeeds_addMembers members hnew
    rwa [Declaration.kind, hkind] at hmembers
  · refine iff_of_false ?_ fun hreadable => hmodule hreadable.1
    rintro ⟨grown, hadd⟩
    obtain ⟨data, hdata, hkind, -⟩ := addSource_eq_ok hadd
    exact hmodule ((Source.data_eq_ok hdata).1.symm.trans hkind)

/-- Sources can be read exactly when they are modules that can be read. -/
theorem ofSources_succeeds_iff {sources : List Source} : (ofSources sources).Succeeds ↔
    ∀ source ∈ sources, source.kind = .module ∧ source.Readable := by
  refine Except.succeeds_map.trans ?_
  exact Except.succeeds_foldlM (P := fun source : Source => source.kind = .module ∧ source.Readable)
    fun _ _ => succeeds_addSource

end Tree

end Concord
