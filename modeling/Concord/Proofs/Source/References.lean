import Concord.Proofs.Source.Reading
import Concord.Proofs.Declaration.References

namespace Concord

namespace Tree

/-- The names of a tree follow its containers. -/
structure Titled (tree : Tree) : Prop where
  whole : ∀ id declaration, tree.get? id = some declaration →
    declaration.kind = .module ∨ declaration.kind = .package →
    declaration.qualifiedName = ⟨declaration.name.text⟩
  nested : ∀ id declaration, tree.get? id = some declaration → declaration.kind ≠ .module →
    declaration.kind ≠ .package → declaration.name.isSegment = true ∧ ∃ container owner,
      declaration.container = some container ∧ tree.get? container = some owner ∧
      declaration.qualifiedName = owner.qualifiedName.child declaration.name

variable {tree grown : Tree}

private theorem whole_of_read {data : Data} (hread : data.Read)
    (hkind : data.kind = .module ∨ data.kind = .package) : data.qualifiedName = ⟨data.name.text⟩ := by
  rw [hread.name]
  obtain hkind | hkind := hkind
  · rw [hkind]
    rfl
  · rw [hkind]
    rfl

/-- What keeps data and containers, and adds declarations with fitting names, keeps the names. -/
private theorem Titled.extend (htitled : tree.Titled)
    (hknown : ∀ id declaration, tree.get? id = some declaration → ∃ children,
      grown.get? id = some { declaration with children })
    (hcases : ∀ id declaration, grown.get? id = some declaration →
      (∃ before, tree.get? id = some before ∧ before.data = declaration.data ∧
        before.container = declaration.container) ∨
      (declaration.data.Read ∧ (declaration.kind ≠ .module → declaration.kind ≠ .package →
        declaration.name.isSegment = true ∧ ∃ container owner,
          declaration.container = some container ∧ tree.get? container = some owner ∧
          declaration.qualifiedName = owner.qualifiedName.child declaration.name))) :
    grown.Titled := by
  refine ⟨fun id declaration hget hkind => ?_, fun id declaration hget hmodule hpackage => ?_⟩
  · obtain ⟨before, hbefore, hdata, -⟩ | ⟨hread, -⟩ := hcases id declaration hget
    · rw [Declaration.kind, ← hdata] at hkind
      have hwhole := htitled.whole id before hbefore hkind
      rwa [Declaration.qualifiedName, Declaration.name, hdata] at hwhole
    · exact whole_of_read hread hkind
  · have hnested : declaration.name.isSegment = true ∧ ∃ container owner,
        declaration.container = some container ∧ tree.get? container = some owner ∧
        declaration.qualifiedName = owner.qualifiedName.child declaration.name := by
      obtain ⟨before, hbefore, hdata, hcontainer⟩ | ⟨-, hnew⟩ := hcases id declaration hget
      · rw [Declaration.kind, ← hdata] at hmodule hpackage
        have hnested := htitled.nested id before hbefore hmodule hpackage
        rwa [Declaration.qualifiedName, Declaration.name, hdata, hcontainer] at hnested
      · exact hnew hmodule hpackage
    obtain ⟨hsegment, container, owner, hcontainer, howner, hname⟩ := hnested
    obtain ⟨children, howner'⟩ := hknown container owner howner
    exact ⟨hsegment, container, _, hcontainer, howner', hname⟩

private theorem Titled.addRoot (htitled : tree.Titled) {data : Data} (hmodule : data.kind = .module)
    (hread : data.Read) : (tree.addRoot data).2.Titled := by
  refine htitled.extend (fun id declaration hget => ⟨declaration.children, ?_⟩)
    fun id declaration hget => ?_
  · have hne : id ≠ ⟨tree.size⟩ := by
      rintro rfl
      exact Nat.lt_irrefl _ (lt_size_of_get? hget)
    rw [get?_addRoot, if_neg hne, hget]
  · rw [get?_addRoot] at hget
    split at hget
    · cases hget
      exact .inr ⟨hread, fun hne => absurd hmodule hne⟩
    · exact .inl ⟨declaration, hget, rfl, rfl⟩

private theorem Titled.insert (htitled : tree.Titled) {container id : DeclId} {data : Data}
    (hadmits : tree.Admits container data)
    (hinsert : tree.insert container data = .ok (id, grown)) : grown.Titled := by
  refine htitled.extend (fun other declaration hget => ?_) fun other declaration hget => ?_
  · have hne : other ≠ id := by
      rintro rfl
      rw [id_of_insert hinsert] at hget
      exact Nat.lt_irrefl _ (lt_size_of_get? hget)
    exact ⟨_, by rw [get?_insert hinsert, if_neg hne, hget, Option.map_some]⟩
  · rw [get?_insert hinsert] at hget
    split at hget
    · cases hget
      refine .inr ⟨hadmits.read, fun _ hpackage => ?_⟩
      obtain ⟨hsegment, owner, howner, hname⟩ := hadmits.named hpackage
      exact ⟨hsegment, container, owner, rfl, howner, hname⟩
    · obtain ⟨before, hbefore, rfl⟩ := Option.map_eq_some_iff.mp hget
      exact .inl ⟨before, hbefore, rfl, rfl⟩

private theorem Titled.link (htitled : tree.Titled) : tree.link.Titled := by
  refine ⟨fun id declaration hget hkind => ?_, fun id declaration hget hmodule hpackage => ?_⟩
  · rw [get?_link] at hget
    obtain ⟨before, hbefore, rfl⟩ := Option.map_eq_some_iff.mp hget
    rw [Declaration.kind, Data.kind_mapRefs] at hkind
    exact htitled.whole id before hbefore hkind
  · rw [get?_link] at hget
    obtain ⟨before, hbefore, rfl⟩ := Option.map_eq_some_iff.mp hget
    rw [Declaration.kind, Data.kind_mapRefs] at hmodule hpackage
    obtain ⟨hsegment, container, owner, hcontainer, howner, hname⟩ :=
      htitled.nested id before hbefore hmodule hpackage
    exact ⟨hsegment, container, _, hcontainer, get?_link_of_get? howner, hname⟩

/-- The names of a tree that is read from sources follow its containers. -/
theorem ofSources_titled {sources : List Source} (hread : ofSources sources = .ok tree) :
    tree.Titled := by
  obtain ⟨draft, hdraft, heq⟩ := Except.bind_eq_ok.mp hread
  obtain rfl := Except.pure_eq_ok.mp heq
  refine Titled.link (foldlM_addSource_induction (P := Titled) ?_
    (fun htree hmodule hdata => htree.addRoot hmodule hdata)
    (fun htree hadmits hinsert => htree.insert hadmits hinsert) hdraft)
  exact ⟨fun id declaration hget => by simp [get?, empty] at hget,
    fun id declaration hget => by simp [get?, empty] at hget⟩

end Tree

namespace Tree

/-- A reference of a declaration of the tree, without its link into the tree. -/
def Mentions (tree : Tree) (reference : ClassifierRef) : Prop :=
  ∃ id declaration, tree.get? id = some declaration ∧
    ∃ bound ∈ declaration.payload.refs, tree.detachRef bound = reference

/-- A reference that leads to a class or type alias of the tree, or needs none. -/
def Binds (tree : Tree) : ClassifierRef → Prop
  | .resolved id => ∃ declaration, tree.get? id = some declaration ∧
      declaration.kind.isClassifier = true
  | .symbolic _ => False
  | .external _ | .typeParameter _ => True

/-- Every reference of the tree is bound. -/
def Bound (tree : Tree) : Prop :=
  ∀ id declaration, tree.get? id = some declaration →
    ∀ reference ∈ declaration.payload.refs, tree.Binds reference

/-- A reference that leads where its name says: to a class or type alias of the tree, or out of a
tree that declares none of its name. A type parameter needs nothing. -/
def Leads (tree : Tree) : ClassifierRef → Prop
  | .resolved id => ∃ declaration, tree.get? id = some declaration ∧
      declaration.kind.isClassifier = true
  | .symbolic _ => False
  | .external name => ∀ id declaration, tree.get? id = some declaration →
      declaration.kind.isClassifier = true → declaration.qualifiedName ≠ name
  | .typeParameter _ => True

variable {tree : Tree} {reference : ClassifierRef}

theorem Leads.binds (hleads : tree.Leads reference) : tree.Binds reference := by
  cases reference with
  | resolved id => exact hleads
  | symbolic name => exact hleads
  | external name => trivial
  | typeParameter name => trivial

/-- What is mentioned bears the name of a classifier of the tree, lies outside of it, or is a type
parameter. -/
theorem Bound.mentions (hbound : tree.Bound) (hmentions : tree.Mentions reference) :
    (∃ id declaration, tree.get? id = some declaration ∧ declaration.kind.isClassifier = true ∧
      reference = .symbolic declaration.qualifiedName) ∨
    (∃ name, reference = .external name) ∨ ∃ name, reference = .typeParameter name := by
  obtain ⟨id, declaration, hget, bound, href, rfl⟩ := hmentions
  have hbinds := hbound id declaration hget bound href
  cases bound with
  | resolved target =>
    obtain ⟨found, hfound, hclassifier⟩ := hbinds
    exact .inl ⟨target, found, hfound, hclassifier, by rw [detachRef, hfound]⟩
  | symbolic name => exact hbinds.elim
  | external name => exact .inr (.inl ⟨name, rfl⟩)
  | typeParameter name => exact .inr (.inr ⟨name, rfl⟩)

/-- A name that is looked up in an index of all classifiers leads where it says. -/
theorem leads_linkRef
    (hnamed : ∀ name id, tree.classifier? name = some id → ∃ declaration,
      tree.get? id = some declaration ∧ declaration.kind.isClassifier = true ∧
        declaration.qualifiedName = name)
    (hindexed : ∀ id declaration, tree.get? id = some declaration →
      declaration.kind.isClassifier = true → (tree.classifier? declaration.qualifiedName).isSome)
    (name : QualifiedName) : tree.Leads (tree.linkRef (.symbolic name)) := by
  rw [linkRef]
  cases hname : tree.classifier? name with
  | some id =>
    obtain ⟨declaration, hget, hclassifier, -⟩ := hnamed name id hname
    exact ⟨declaration, hget, hclassifier⟩
  | none =>
    rintro id declaration hget hclassifier rfl
    have hfound := hindexed id declaration hget hclassifier
    rw [hname] at hfound
    cases hfound

/-- The references of a tree that is read from sources are names that were looked up in it, and type
parameters. -/
theorem refs_of_ofSources {sources : List Source} (hread : ofSources sources = .ok tree)
    {id : DeclId} {declaration : Declaration} (hget : tree.get? id = some declaration)
    (href : reference ∈ declaration.payload.refs) :
    (∃ name, reference = tree.linkRef (.symbolic name)) ∨
      ∃ name, reference = .typeParameter name := by
  obtain ⟨draft, -, rfl, hdrafted⟩ := ofSources_regular hread
  rw [get?_link] at hget
  obtain ⟨before, hbefore, rfl⟩ := Option.map_eq_some_iff.mp hget
  have hpayload : before.payload.mapRefs ClassifierRef.unbound = before.payload :=
    congrArg Data.payload (hdrafted id before hbefore).unbound
  have hrefs : (before.data.payload.mapRefs draft.linkRef).refs =
      (before.payload.refs.map ClassifierRef.unbound).map draft.linkRef := by
    rw [← Payload.refs_mapRefs, ← Payload.refs_mapRefs, hpayload]
    rfl
  obtain ⟨unbound, hunbound, rfl⟩ := List.mem_map.mp (hrefs ▸ href)
  obtain ⟨spelled, -, rfl⟩ := List.mem_map.mp hunbound
  cases spelled with
  | typeParameter name => exact .inr ⟨name, rfl⟩
  | symbolic name => exact .inl ⟨name, rfl⟩
  | resolved id => exact .inl ⟨default, rfl⟩
  | external name => exact .inl ⟨default, rfl⟩

/-- Every reference of a tree that is read from sources leads where its name says. -/
theorem ofSources_leads {sources : List Source} (hread : ofSources sources = .ok tree)
    {id : DeclId} {declaration : Declaration} (hget : tree.get? id = some declaration)
    (href : reference ∈ declaration.payload.refs) : tree.Leads reference := by
  have hregular := regular_of_ofSources hread
  obtain ⟨name, rfl⟩ | ⟨name, rfl⟩ := refs_of_ofSources hread hget href
  · exact leads_linkRef hregular.named hregular.indexed name
  · trivial

theorem ofSources_bound {sources : List Source} (hread : ofSources sources = .ok tree) :
    tree.Bound :=
  fun _ _ hget _ href => (ofSources_leads hread hget href).binds

end Tree

end Concord
