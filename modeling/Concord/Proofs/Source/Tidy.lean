import Concord.Proofs.Source.Encoding
import Concord.Proofs.Source.Spelling

namespace Concord

namespace Source

/-- A payload as it is written back: without the expanded type of an alias, if that equals the
underlying one. -/
def Payload.tidy : Payload → Payload
  | .typeAlias info => .typeAlias { info with
      expanded := if info.expanded = some info.underlying then none else info.expanded }
  | payload => payload

/-- What a payload leaves unsaid is left out again when it is written. -/
theorem Payload.write_explicit (payload : Payload) : write payload.explicit = payload.tidy := by
  cases payload with
  | typeAlias info =>
    obtain ⟨underlying, expanded, typeParameters⟩ := info
    rw [tidy, explicit, write]
    cases expanded with
    | none => simp
    | some expanded => simp only [Option.getD_some, Option.some.injEq]
  | _ => rfl

mutual
/-- A source as it is written back, here and in all members. -/
def tidy : Source → Source
  | mk name visibility modality expectation payload members =>
    mk name visibility modality expectation payload.tidy (tidyAll members)
/-- Some sources as they are written back. -/
def tidyAll : List Source → List Source
  | [] => []
  | source :: sources => tidy source :: tidyAll sources
end

theorem tidyAll_eq_map (sources : List Source) : tidyAll sources = sources.map tidy := by
  induction sources with
  | nil => rw [tidyAll, List.map_nil]
  | cons source sources ih => rw [tidyAll, ih, List.map_cons]

theorem Payload.kind_tidy (payload : Payload) : payload.tidy.kind = payload.kind := by
  cases payload <;> rfl

/-- What is left out of a payload does not change what it is bound to. -/
theorem bindPayload_tidy (owner : SimpleName) (payload : Payload) :
    bindPayload owner payload.tidy = bindPayload owner payload := by
  cases payload with
  | typeAlias info =>
    obtain ⟨underlying, expanded, typeParameters⟩ := info
    rw [Payload.tidy]
    by_cases hsame : expanded = some underlying
    · -- Binding the same type once more gives the same again.
      subst hsame
      rw [if_pos rfl, bindPayload, bindPayload]
      cases hbound : bindType owner underlying with
      | error error => rfl
      | ok bound => simp only [hbound]; rfl
    · rw [if_neg hsame]
  | _ => rfl

end Source

namespace Tree

open Source (tidy tidyAll)

mutual
private theorem addMember_tidy : ∀ (member : Source) (tree : Tree) (container : DeclId),
    tree.addMember container member.tidy = tree.addMember container member
  | .mk name visibility modality expectation payload members, tree, container => by
    have hname : tree.memberName container
        (.mk name visibility modality expectation payload.tidy (tidyAll members)) =
        tree.memberName container (.mk name visibility modality expectation payload members) := by
      rw [memberName, Source.kind, Source.payload, payload.kind_tidy]
      rfl
    rw [tidy, addMember, addMember]
    simp only [hname, Source.data, Source.bindPayload_tidy, addMembers_tidy members]
private theorem addMembers_tidy : ∀ (members : List Source) (tree : Tree) (container : DeclId),
    tree.addMembers container (tidyAll members) = tree.addMembers container members
  | [], _, _ => rfl
  | member :: members, tree, container => by
    rw [tidyAll, addMembers, addMembers, addMember_tidy member]
    simp only [addMembers_tidy members]
end

private theorem addSource_tidy (tree : Tree) (source : Source) :
    tree.addSource source.tidy = tree.addSource source := by
  cases source
  rw [tidy, addSource, addSource]
  simp only [Source.data, Source.Payload.kind_tidy, Source.bindPayload_tidy, addMembers_tidy]

/-- What is left out of sources does not change the tree that is read from them. -/
theorem ofSources_tidyAll (sources : List Source) :
    ofSources (tidyAll sources) = ofSources sources := by
  rw [ofSources, ofSources, Source.tidyAll_eq_map, List.foldlM_map]
  simp only [addSource_tidy]

end Tree

namespace Source

open Json (EachField)

/-- What holds of the fields of a payload holds of those that are written back. -/
private theorem eachField_tidy {P : Json → Prop} {payload : Payload}
    (hfields : EachField P (payloadEntries payload)) :
    EachField P (payloadEntries payload.tidy) := by
  cases payload with
  | typeAlias info =>
    obtain ⟨underlying, expanded, typeParameters⟩ := info
    obtain ⟨hunderlying, hrest⟩ := List.forall_mem_cons.mp hfields
    obtain ⟨hexpanded, hparameters⟩ := List.forall_mem_cons.mp hrest
    refine .cons hunderlying (.cons (fun value hvalue => hexpanded value ?_) hparameters)
    dsimp only at hvalue
    split at hvalue
    · cases hvalue
    · exact hvalue
  | _ => exact hfields

private theorem height_lt_of_mem_entries {source : Source} {name : String} {value : Json}
    (hentry : (name, some value) ∈ source.entries) : value.height < (toJson source).height := by
  rw [toJson_eq]
  exact Json.height_lt_of_mem hentry

mutual
private theorem height_tidy : ∀ source : Source, (toJson source.tidy).height ≤ (toJson source).height
  | .mk name visibility modality expectation payload members => by
    have hpositive :
        0 < (toJson (.mk name visibility modality expectation payload members)).height := by
      rw [toJson_eq]
      exact Nat.succ_pos _
    have hpayload : EachField (·.height < (toJson (.mk name visibility modality expectation payload
        members)).height) (payloadEntries payload) := by
      rintro ⟨field, value⟩ hentry _ rfl
      exact height_lt_of_mem_entries (List.mem_append_left _ (List.mem_append_right _ hentry))
    rw [tidy, toJson_eq]
    refine (eachField_source ⟨fun _ => hpositive, fun _ => hpositive⟩ (eachField_tidy hpayload)
      fun hsome => ?_).height_le hpositive
    have hwritten : itemsEntry (membersJson members) = some (.array (membersJson members)) := by
      cases members with
      | nil => exact absurd rfl hsome
      | cons member members => rfl
    have hmembers : ("members", some (.array (membersJson members))) ∈
        entries (.mk name visibility modality expectation payload members) :=
      List.mem_append_right _ (List.mem_singleton.mpr (by rw [hwritten]))
    have hlower := height_lt_of_mem_entries hmembers
    have hitems := heightItems_tidyAll members
    rw [← membersJson_eq_map]
    rw [Json.height] at hlower ⊢
    omega
private theorem heightItems_tidyAll : ∀ sources : List Source,
    Json.heightItems (membersJson (tidyAll sources)) ≤ Json.heightItems (membersJson sources)
  | [] => Nat.le_refl _
  | source :: sources => by
    have hfirst := height_tidy source
    have hrest := heightItems_tidyAll sources
    rw [tidyAll, membersJson, membersJson, Json.heightItems, Json.heightItems]
    omega
end

/-- What is written for sources that are written back stands no higher. -/
theorem height_of_tidyAll (sources : List Source) :
    (Json.array (membersJson (tidyAll sources))).height ≤
      (Json.array (membersJson sources)).height := by
  rw [Json.height, Json.height, Nat.add_le_add_iff_right]
  exact heightItems_tidyAll sources

end Source

end Concord
