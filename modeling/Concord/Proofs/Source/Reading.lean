import Concord.Proofs.Tree.Regular
import Concord.Source.Tree

namespace Concord

namespace QualifiedName

variable (container : QualifiedName) {name : SimpleName}

/-- The name of a child read backward: its own name, and behind a separator that of the container. -/
private theorem reverse_child (name : SimpleName) :
    (container.child name).text.toList.reverse = name.text.toList.reverse ++
      if container.isRoot then [] else separator :: container.text.toList.reverse := by
  rw [child]
  split
  · rw [List.append_nil]
  · simp [String.toList_append, Char.toString]

variable (hsegment : name.isSegment = true)
include hsegment

private theorem passed_of_isSegment :
    ∀ c ∈ name.text.toList.reverse, decide (c ≠ separator) = true := by
  intro c hc
  rw [List.mem_reverse] at hc
  refine decide_eq_true fun hseparator => ?_
  simp [SimpleName.isSegment, ← hseparator, hc] at hsegment

/-- The name of a segment is found again behind the last separator. -/
theorem shortName_child : (container.child name).shortName = name := by
  rw [shortName, reverse_child, List.takeWhile_append_of_pos (passed_of_isSegment hsegment)]
  split <;> simp

/-- The name of the container is found again in front of the last separator. -/
theorem parent?_child : (container.child name).parent? = some container := by
  have hroot : ¬(container.child name).isRoot = true := by
    rw [isRoot, String.isEmpty_iff, ← String.toList_eq_nil_iff, ← List.reverse_eq_nil_iff,
      reverse_child]
    intro hnothing
    obtain ⟨hname, -⟩ := List.append_eq_nil_iff.mp hnothing
    rw [List.reverse_eq_nil_iff, String.toList_eq_nil_iff] at hname
    simp [SimpleName.isSegment, SimpleName.isEmpty, hname] at hsegment
  rw [parent?, if_neg hroot, reverse_child,
    List.dropWhile_append_of_pos (passed_of_isSegment hsegment)]
  split
  · next hroot =>
    rw [isRoot, String.isEmpty_iff] at hroot
    obtain ⟨text⟩ := container
    subst hroot
    rfl
  · simp

end QualifiedName

/-- A reference as it is read: a name or a type parameter. -/
def ClassifierRef.unbound : ClassifierRef → ClassifierRef
  | symbolic name => symbolic name
  | typeParameter name => typeParameter name
  | resolved _ | external _ => symbolic default

/-- The name that ends a qualified name: of modules and packages the whole text, of anything else
the last segment. -/
def QualifiedName.nameOf (qualifiedName : QualifiedName) : Kind → SimpleName
  | .module | .package => ⟨qualifiedName.text⟩
  | _ => qualifiedName.shortName

/-- Data as it is read. -/
structure Data.Read (data : Data) : Prop where
  unbound : data.mapRefs ClassifierRef.unbound = data
  name : data.name = data.qualifiedName.nameOf data.kind

namespace Source

/-- The reference that a spelling is bound to. -/
def bound : Spelling → ClassifierRef
  | ⟨some name, _⟩ => .symbolic name
  | ⟨none, some name⟩ => .typeParameter name
  | ⟨none, none⟩ => default

theorem bind_eq {owner : SimpleName} {spelling : Spelling} {reference : ClassifierRef}
    (hbind : bind owner spelling = .ok reference) :
    reference = bound spelling ∧ reference.unbound = bound spelling := by
  obtain ⟨_ | name, _ | parameter⟩ := spelling
  · cases hbind
  · cases hbind
    exact ⟨rfl, rfl⟩
  · cases hbind
    exact ⟨rfl, rfl⟩
  · cases hbind

/-- A written payload with what it leaves out: an alias without an expanded type expands to its
underlying one. -/
def Payload.explicit : Payload → Concord.Payload Spelling
  | .module info => .module info
  | .package => .package
  | .classType info => .classType info
  | .function info => .function info
  | .property info => .property info
  | .typeAlias info => .typeAlias
    ⟨info.typeParameters, info.underlying, info.expanded.getD info.underlying⟩
  | .value info => .value info

theorem Payload.kind_explicit (payload : Payload) : payload.explicit.kind = payload.kind := by
  cases payload <;> rfl

section Payloads

variable {owner : SimpleName} {payload : Payload} {read : Concord.Payload ClassifierRef}

/-- What is told from the bound types of a payload is told from the written ones, where that holds
of each type. -/
private theorem mapTypes_of_bindPayload {τ : Type} {g : Ty ClassifierRef → Ty τ}
    {h : Ty Spelling → Ty τ} (hf : ∀ type bound, bindType owner type = .ok bound → g bound = h type)
    (hbind : bindPayload owner payload = .ok read) :
    read.mapTypes g = payload.explicit.mapTypes h := by
  have hparameters {parameters : List (TypeParameter Spelling)}
      {bound : List (TypeParameter ClassifierRef)}
      (hrun : parameters.mapM (·.mapTypesM (bindType owner)) = .ok bound) :
      bound.map (·.mapTypes g) = parameters.map (·.mapTypes h) :=
    Except.map_of_mapM hrun fun _ _ => TypeParameter.mapTypes_of_mapTypesM hf
  cases payload with
  | module info =>
    cases hbind
    rfl
  | package =>
    cases hbind
    rfl
  | classType info =>
    obtain ⟨inner, hinner, heq⟩ := Except.bind_eq_ok.mp hbind
    cases heq
    simp only [Payload.explicit, Concord.Payload.mapTypes_classType,
      ClassInfo.mapTypes_of_mapTypesM hf hinner]
  | function info =>
    obtain ⟨returnType, hreturnType, hrun⟩ := Except.bind_eq_ok.mp hbind
    obtain ⟨receiver, hreceiver, hrun⟩ := Except.bind_eq_ok.mp hrun
    obtain ⟨typeParameters, htypeParameters, heq⟩ := Except.bind_eq_ok.mp hrun
    cases heq
    simp only [Payload.explicit, Concord.Payload.mapTypes_function, FunctionInfo.mapTypes_eq,
      hf _ _ hreturnType, optionalType_of_optionalTypeM hf hreceiver, hparameters htypeParameters]
  | property info =>
    obtain ⟨type, htype, hrun⟩ := Except.bind_eq_ok.mp hbind
    obtain ⟨receiver, hreceiver, hrun⟩ := Except.bind_eq_ok.mp hrun
    obtain ⟨typeParameters, htypeParameters, heq⟩ := Except.bind_eq_ok.mp hrun
    cases heq
    simp only [Payload.explicit, Concord.Payload.mapTypes_property, PropertyInfo.mapTypes_eq,
      hf _ _ htype, optionalType_of_optionalTypeM hf hreceiver, hparameters htypeParameters]
  | typeAlias info =>
    obtain ⟨underlying, hunderlying, hrun⟩ := Except.bind_eq_ok.mp hbind
    cases hexpanded : info.expanded with
    | none =>
      simp only [hexpanded, pure_bind] at hrun
      obtain ⟨typeParameters, htypeParameters, heq⟩ := Except.bind_eq_ok.mp hrun
      cases heq
      simp only [Payload.explicit, Concord.Payload.mapTypes_typeAlias, Concord.AliasInfo.mapTypes,
        hexpanded, Option.getD_none, hf _ _ hunderlying, hparameters htypeParameters]
    | some type =>
      simp only [hexpanded] at hrun
      obtain ⟨expanded, hbound, hrun⟩ := Except.bind_eq_ok.mp hrun
      obtain ⟨typeParameters, htypeParameters, heq⟩ := Except.bind_eq_ok.mp hrun
      cases heq
      simp only [Payload.explicit, Concord.Payload.mapTypes_typeAlias, Concord.AliasInfo.mapTypes,
        hexpanded, Option.getD_some, hf _ _ hunderlying, hf _ _ hbound, hparameters htypeParameters]
  | value info =>
    obtain ⟨inner, hinner, heq⟩ := Except.bind_eq_ok.mp hbind
    cases heq
    simp only [Payload.explicit, Concord.Payload.mapTypes_value,
      ValueInfo.mapTypes_of_mapTypesM hf hinner]

/-- What is told from the references of a payload is told from its spellings, where that holds of
each of them. -/
theorem mapRefs_of_bindPayload {τ : Type} {g : ClassifierRef → τ} {h : Spelling → τ}
    (hf : ∀ spelling reference, bind owner spelling = .ok reference → g reference = h spelling)
    (hbind : bindPayload owner payload = .ok read) :
    read.mapRefs g = payload.explicit.mapRefs h :=
  mapTypes_of_bindPayload (Ty.map_of_mapM hf) hbind

/-- The references of a payload that is read are names and type parameters. -/
private theorem bindPayload_unbound (hbind : bindPayload owner payload = .ok read) :
    read.mapRefs ClassifierRef.unbound = read := by
  have hsame : read.mapRefs id = payload.explicit.mapRefs bound :=
    mapRefs_of_bindPayload (fun _ _ hspelling => (bind_eq hspelling).1) hbind
  rw [mapRefs_of_bindPayload (fun _ _ hspelling => (bind_eq hspelling).2) hbind, ← hsame,
    Concord.Payload.mapRefs_id]

private theorem bindPayload_kind (hbind : bindPayload owner payload = .ok read) :
    read.kind = payload.kind := by
  have hsame : read.mapRefs id = payload.explicit.mapRefs bound :=
    mapRefs_of_bindPayload (fun _ _ hspelling => (bind_eq hspelling).1) hbind
  rw [← payload.kind_explicit, ← payload.explicit.kind_mapRefs bound, ← hsame,
    Concord.Payload.mapRefs_id]

end Payloads

/-- The data of a source has its attributes, and references that are names and type parameters. -/
theorem data_eq_ok {source : Source} {qualifiedName : QualifiedName} {data : Data}
    (hdata : source.data qualifiedName = .ok data) :
    data.kind = source.kind ∧ data.name = source.name ∧ data.qualifiedName = qualifiedName ∧
      data.mapRefs ClassifierRef.unbound = data := by
  cases source
  obtain ⟨payload, hpayload, heq⟩ := Except.bind_eq_ok.mp hdata
  cases heq
  refine ⟨bindPayload_kind hpayload, rfl, rfl, ?_⟩
  simp only [Data.mapRefs, bindPayload_unbound hpayload]

end Source

namespace Tree

/-- What is read into a container: its data is as it is read, and its name extends the one of the
container, unless it is a package. -/
structure Admits (tree : Tree) (container : DeclId) (data : Data) : Prop where
  read : data.Read
  named : data.kind ≠ .package → data.name.isSegment = true ∧ ∃ owner,
    tree.get? container = some owner ∧ data.qualifiedName = owner.qualifiedName.child data.name

/-- A member that is inserted into a container is read into it. -/
private theorem admits_of_insert {tree grown : Tree} {container id : DeclId} {member : Source}
    {qualifiedName : QualifiedName} {data : Data}
    (hname : tree.memberName container member = .ok qualifiedName)
    (hdata : member.data qualifiedName = .ok data)
    (hinsert : tree.insert container data = .ok (id, grown)) : tree.Admits container data := by
  obtain ⟨owner, -, hmay, -⟩ := insert_eq_ok hinsert
  obtain ⟨hkind, hsame, hqualified, hunbound⟩ := Source.data_eq_ok hdata
  have hextends (hmember : member.kind ≠ .package) : member.name.isSegment = true ∧ ∃ owner,
      tree.get? container = some owner ∧
        qualifiedName = owner.qualifiedName.child member.name := by
    rw [memberName] at hname
    split at hname
    · contradiction
    · obtain ⟨owner, howner, hname⟩ := Except.bind_eq_ok.mp hname
      split at hname
      · next hsegment =>
        cases hname
        exact ⟨hsegment, owner, fetch_eq_ok.mp howner, rfl⟩
      · cases hname
  have hsegment (hmember : member.kind ≠ .package) :
      member.name = qualifiedName.shortName := by
    obtain ⟨hsegment, owner, -, rfl⟩ := hextends hmember
    rw [QualifiedName.shortName_child _ hsegment]
  rw [← hkind, ← hsame, ← hqualified] at hextends
  refine ⟨⟨hunbound, ?_⟩, hextends⟩
  rw [hsame, hkind, hqualified]
  cases hmember : member.kind with
  | module =>
    rw [hkind, hmember] at hmay
    cases hmay
  | package =>
    rw [memberName, hmember] at hname
    cases hname
    rfl
  | classType | function | property | typeAlias | value =>
    exact hsegment (by rw [hmember]; nofun)

section Induction

variable {P : Tree → Prop}

mutual
private theorem addMember_induction
    (hinsert : ∀ {tree grown : Tree} {container id : DeclId} {data : Data}, P tree →
      tree.Admits container data → tree.insert container data = .ok (id, grown) → P grown) :
    ∀ (member : Source) {tree grown : Tree} {container : DeclId}, P tree →
      tree.addMember container member = .ok grown → P grown
  | .mk name visibility modality expectation payload members, tree, grown, container, htree,
    hadd => by
    rw [addMember] at hadd
    obtain ⟨qualifiedName, hname, hadd⟩ := Except.bind_eq_ok.mp hadd
    obtain ⟨data, hdata, hadd⟩ := Except.bind_eq_ok.mp hadd
    obtain ⟨⟨id, middle⟩, hmiddle, hadd⟩ := Except.bind_eq_ok.mp hadd
    have hadmits := admits_of_insert hname hdata hmiddle
    exact addMembers_induction hinsert members (hinsert htree hadmits hmiddle) hadd
private theorem addMembers_induction
    (hinsert : ∀ {tree grown : Tree} {container id : DeclId} {data : Data}, P tree →
      tree.Admits container data → tree.insert container data = .ok (id, grown) → P grown) :
    ∀ (members : List Source) {tree grown : Tree} {container : DeclId}, P tree →
      tree.addMembers container members = .ok grown → P grown
  | [], tree, grown, container, htree, hadd => by
    cases hadd
    exact htree
  | member :: members, tree, grown, container, htree, hadd => by
    rw [addMembers] at hadd
    obtain ⟨middle, hmiddle, hadd⟩ := Except.bind_eq_ok.mp hadd
    have hmiddle := addMember_induction hinsert member htree hmiddle
    exact addMembers_induction hinsert members hmiddle hadd
end

/-- What adding a source does: it adds a module as a root, and then declares its members. -/
theorem addSource_eq_ok {name : SimpleName} {visibility : Visibility} {modality : Modality}
    {expectation : Expectation} {payload : Source.Payload} {members : List Source}
    {tree grown : Tree} (hadd : tree.addSource
      (.mk name visibility modality expectation payload members) = .ok grown) : ∃ data,
    (Source.mk name visibility modality expectation payload members).data ⟨name.text⟩ = .ok data ∧
      data.kind = .module ∧ (tree.addRoot data).2.addMembers ⟨tree.size⟩ members = .ok grown := by
  by_cases hkind : payload.kind = .module
  · simp only [addSource, hkind] at hadd
    obtain ⟨data, hdata, hadd⟩ := Except.bind_eq_ok.mp hadd
    exact ⟨data, hdata, (Source.data_eq_ok hdata).1.trans hkind, hadd⟩
  · simp only [addSource, hkind] at hadd
    obtain ⟨_, -, hthrow⟩ := Except.bind_eq_ok.mp hadd
    cases hthrow

/-- What adding a module and inserting a member keep holds of what is read from sources, before its
names are bound. -/
theorem foldlM_addSource_induction (hempty : P empty)
    (hroot : ∀ {tree : Tree} {data : Data}, P tree → data.kind = .module → data.Read →
      P (tree.addRoot data).2)
    (hinsert : ∀ {tree grown : Tree} {container id : DeclId} {data : Data}, P tree →
      tree.Admits container data → tree.insert container data = .ok (id, grown) → P grown)
    {sources : List Source} {draft : Tree} (hdraft : sources.foldlM addSource empty = .ok draft) :
    P draft := by
  refine Except.foldlM_keeps (fun before source after _ hbefore hadd => ?_) hempty hdraft
  obtain ⟨name, visibility, modality, expectation, payload, members⟩ := source
  obtain ⟨data, hdata, hmodule, hadd⟩ := addSource_eq_ok hadd
  obtain ⟨-, hname, hqualified, hunbound⟩ := Source.data_eq_ok hdata
  have hread : data.Read := by
    refine ⟨hunbound, ?_⟩
    rw [hmodule, hname, hqualified]
    rfl
  exact addMembers_induction hinsert members (hroot hbefore hmodule hread) hadd

end Induction

/-- The links of what is read from sources are sound. Before they are bound, its references are
names and type parameters. -/
theorem foldlM_addSource_regular {sources : List Source} {draft : Tree}
    (hdraft : sources.foldlM addSource empty = .ok draft) :
    draft.Regular ∧ ∀ id declaration, draft.get? id = some declaration → declaration.data.Read := by
  refine foldlM_addSource_induction
    (P := fun draft => draft.Regular ∧
      ∀ id declaration, draft.get? id = some declaration → declaration.data.Read)
    ⟨.empty, fun id declaration hget => by simp [get?, empty] at hget⟩
    (fun {tree data} htree hkind hdata => ⟨htree.1.addRoot hkind, fun id declaration hget => ?_⟩)
    (fun {tree grown container new data} htree hadmits hinsert =>
      ⟨htree.1.insert hinsert, fun id declaration hget => ?_⟩) hdraft
  · rw [get?_addRoot] at hget
    split at hget
    · cases hget
      exact hdata
    · exact htree.2 id declaration hget
  · rw [get?_insert hinsert] at hget
    split at hget
    · cases hget
      exact hadmits.read
    · obtain ⟨before, hbefore, rfl⟩ := Option.map_eq_some_iff.mp hget
      exact htree.2 id before hbefore

/-- The links of a tree that is read from sources are sound. Its references were names and type
parameters before they were bound. -/
theorem ofSources_regular {sources : List Source} {tree : Tree}
    (hread : ofSources sources = .ok tree) :
    ∃ draft : Tree, draft.Regular ∧ tree = draft.link ∧
      ∀ id declaration, draft.get? id = some declaration → declaration.data.Read := by
  obtain ⟨draft, hdraft, heq⟩ := Except.bind_eq_ok.mp hread
  obtain ⟨hregular, hdata⟩ := foldlM_addSource_regular hdraft
  exact ⟨draft, hregular, (Except.pure_eq_ok.mp heq).symm, hdata⟩

theorem regular_of_ofSources {sources : List Source} {tree : Tree}
    (hread : ofSources sources = .ok tree) : tree.Regular := by
  obtain ⟨draft, hdraft, rfl, -⟩ := ofSources_regular hread
  exact hdraft.link

/-- In a tree that is read from sources, names end qualified names. -/
theorem name_of_ofSources {sources : List Source} {tree : Tree} (hread : ofSources sources = .ok tree)
    {id : DeclId} {declaration : Declaration} (hget : tree.get? id = some declaration) :
    declaration.name = declaration.qualifiedName.nameOf declaration.kind := by
  obtain ⟨draft, -, rfl, hdrafted⟩ := ofSources_regular hread
  rw [get?_link] at hget
  obtain ⟨before, hbefore, rfl⟩ := Option.map_eq_some_iff.mp hget
  rw [Declaration.kind, Data.kind_mapRefs]
  exact (hdrafted id before hbefore).name

end Tree

end Concord
