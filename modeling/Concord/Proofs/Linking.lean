import Mathlib.Data.List.Forall2
import Concord.Proofs.Source.Spelling

namespace Concord

section Positions

variable {ρ σ : Type} (R : ρ → σ → Prop)

mutual
/-- Types of one shape whose references are related position by position. -/
inductive Ty.Pairs : Ty ρ → Ty σ → Prop
  | simple {type : SimpleType ρ} {other : SimpleType σ} (hpairs : SimpleType.Pairs type other) :
      Ty.Pairs (.simple type) (.simple other)
  | flexible {lower upper : SimpleType ρ} {lower' upper' : SimpleType σ}
      (hlower : SimpleType.Pairs lower lower') (hupper : SimpleType.Pairs upper upper') :
      Ty.Pairs (.flexible lower upper) (.flexible lower' upper')
/-- A simple type names its classifier, what its arguments name, and what its alias spelling names. -/
inductive SimpleType.Pairs : SimpleType ρ → SimpleType σ → Prop
  | mk {classifier : ρ} {classifier' : σ} {arguments : List (TypeArgument ρ)}
      {arguments' : List (TypeArgument σ)} {abbreviation : Option (SimpleType ρ)}
      {abbreviation' : Option (SimpleType σ)} (nullable definitelyNotNull : Bool)
      (hclassifier : R classifier classifier') (harguments : ArgumentsPair arguments arguments')
      (habbreviation : AbbreviationPairs abbreviation abbreviation') :
      SimpleType.Pairs ⟨classifier, arguments, nullable, definitelyNotNull, abbreviation⟩
        ⟨classifier', arguments', nullable, definitelyNotNull, abbreviation'⟩
/-- Argument lists of one shape, at every depth. -/
inductive ArgumentsPair : List (TypeArgument ρ) → List (TypeArgument σ) → Prop
  | nil : ArgumentsPair [] []
  | star {rest : List (TypeArgument ρ)} {rest' : List (TypeArgument σ)}
      (hrest : ArgumentsPair rest rest') : ArgumentsPair (.star :: rest) (.star :: rest')
  | projection (variance : Variance) {type : Ty ρ} {other : Ty σ} {rest : List (TypeArgument ρ)}
      {rest' : List (TypeArgument σ)} (hpairs : Ty.Pairs type other)
      (hrest : ArgumentsPair rest rest') :
      ArgumentsPair (.projection variance type :: rest) (.projection variance other :: rest')
/-- Alias spellings of one shape, or none. -/
inductive AbbreviationPairs : Option (SimpleType ρ) → Option (SimpleType σ) → Prop
  | none : AbbreviationPairs none none
  | some {spelling : SimpleType ρ} {other : SimpleType σ} (hpairs : SimpleType.Pairs spelling other) :
      AbbreviationPairs (some spelling) (some other)
end

/-- Type parameters that differ in what their bounds name. -/
inductive TypeParameter.Pairs (parameter : TypeParameter ρ) : TypeParameter σ → Prop
  | mk {upperBounds : List (Ty σ)}
      (hbounds : List.Forall₂ (Ty.Pairs R) parameter.upperBounds upperBounds) :
      TypeParameter.Pairs parameter { parameter with upperBounds }

/-- Parameters of constructors that differ in what their types name. -/
inductive ConstructorParameter.Pairs (parameter : ConstructorParameter ρ) :
    ConstructorParameter σ → Prop
  | mk {type : Ty σ} (htype : parameter.type.Pairs R type) :
      ConstructorParameter.Pairs parameter { parameter with type }

/-- Constructors that differ in what the types of their parameters name. -/
inductive Constructor.Pairs (constructor : Constructor ρ) : Constructor σ → Prop
  | mk {parameters : List (ConstructorParameter σ)}
      (hparameters : List.Forall₂ (ConstructorParameter.Pairs R) constructor.parameters parameters) :
      Constructor.Pairs constructor { constructor with parameters }

/-- Payloads that are the same but for what they name, which is related position by position. -/
inductive Payload.Pairs : Payload ρ → Payload σ → Prop
  | module (info : ModuleInfo) : Payload.Pairs (.module info) (.module info)
  | package : Payload.Pairs .package .package
  | classType {info : ClassInfo ρ} {typeParameters : List (TypeParameter σ)}
      {supertypes : List (Ty σ)} {constructors : List (Constructor σ)}
      (hparameters : List.Forall₂ (TypeParameter.Pairs R) info.typeParameters typeParameters)
      (hsupertypes : List.Forall₂ (Ty.Pairs R) info.supertypes supertypes)
      (hconstructors : List.Forall₂ (Constructor.Pairs R) info.constructors constructors) :
      Payload.Pairs (.classType info)
        (.classType { info with typeParameters, supertypes, constructors })
  | function {info : FunctionInfo ρ} {typeParameters : List (TypeParameter σ)}
      {receiver : Option (Ty σ)} {returnType : Ty σ}
      (hparameters : List.Forall₂ (TypeParameter.Pairs R) info.typeParameters typeParameters)
      (hreceiver : Option.Rel (Ty.Pairs R) info.receiver receiver)
      (hreturn : info.returnType.Pairs R returnType) :
      Payload.Pairs (.function info) (.function { info with typeParameters, receiver, returnType })
  | property {info : PropertyInfo ρ} {typeParameters : List (TypeParameter σ)}
      {receiver : Option (Ty σ)} {type : Ty σ}
      (hparameters : List.Forall₂ (TypeParameter.Pairs R) info.typeParameters typeParameters)
      (hreceiver : Option.Rel (Ty.Pairs R) info.receiver receiver)
      (htype : info.type.Pairs R type) :
      Payload.Pairs (.property info) (.property { info with typeParameters, receiver, type })
  | typeAlias {info : AliasInfo ρ} {other : AliasInfo σ}
      (hparameters : List.Forall₂ (TypeParameter.Pairs R) info.typeParameters other.typeParameters)
      (hunderlying : info.underlying.Pairs R other.underlying)
      (hexpanded : info.expanded.Pairs R other.expanded) :
      Payload.Pairs (.typeAlias info) (.typeAlias other)
  | value {info : ValueInfo ρ} {type : Ty σ} (htype : info.type.Pairs R type) :
      Payload.Pairs (.value info) (.value { info with type })

end Positions

/-- A property of the reference at every position of a payload. -/
def Payload.Every {ρ : Type} (P : ρ → Prop) (payload : Payload ρ) : Prop :=
  payload.Pairs (fun reference _ => P reference) payload

variable {ρ σ : Type}

section Map

variable {R : ρ → σ → Prop} {f : ρ → σ}

mutual
/-- A map of references acts position by position. -/
theorem Ty.pairs_map : ∀ {type : Ty ρ},
    (∀ reference ∈ type.refs, R reference (f reference)) → type.Pairs R (type.map f)
  | .simple type, hrefs => by
    rw [Ty.map_simple]
    exact .simple (SimpleType.pairs_map hrefs)
  | .flexible lower upper, hrefs => by
    rw [Ty.refs, List.forall_mem_append] at hrefs
    rw [Ty.map_flexible]
    exact .flexible (SimpleType.pairs_map hrefs.1) (SimpleType.pairs_map hrefs.2)
theorem SimpleType.pairs_map : ∀ {type : SimpleType ρ},
    (∀ reference ∈ type.refs, R reference (f reference)) → type.Pairs R (type.map f)
  | ⟨classifier, arguments, nullable, definitelyNotNull, abbreviation⟩, hrefs => by
    rw [SimpleType.refs, List.forall_mem_cons, List.forall_mem_append] at hrefs
    rw [SimpleType.map_mk]
    exact .mk nullable definitelyNotNull hrefs.1 (argumentsPair_map hrefs.2.1)
      (abbreviationPairs_map hrefs.2.2)
theorem argumentsPair_map : ∀ {arguments : List (TypeArgument ρ)},
    (∀ reference ∈ argumentRefs arguments, R reference (f reference)) →
    ArgumentsPair R arguments (mapArguments f arguments)
  | [], _ => .nil
  | .star :: rest, hrefs => by
    rw [mapArguments_star]
    exact .star (argumentsPair_map hrefs)
  | .projection variance type :: rest, hrefs => by
    rw [argumentRefs, List.forall_mem_append] at hrefs
    rw [mapArguments_projection]
    exact .projection variance (Ty.pairs_map hrefs.1) (argumentsPair_map hrefs.2)
theorem abbreviationPairs_map : ∀ {spelling : Option (SimpleType ρ)},
    (∀ reference ∈ abbreviationRefs spelling, R reference (f reference)) →
    AbbreviationPairs R spelling (mapAbbreviation f spelling)
  | none, _ => .none
  | some spelling, hrefs => by
    rw [mapAbbreviation_some]
    exact .some (SimpleType.pairs_map hrefs)
end

mutual
/-- What is related position by position is related in the order of a walk. -/
theorem Ty.Pairs.refs : ∀ {type : Ty ρ} {other : Ty σ}, type.Pairs R other →
    List.Forall₂ R type.refs other.refs
  | _, _, .simple hpairs => hpairs.refs
  | _, _, .flexible hlower hupper => List.rel_append hlower.refs hupper.refs
theorem SimpleType.Pairs.refs : ∀ {type : SimpleType ρ} {other : SimpleType σ},
    type.Pairs R other → List.Forall₂ R type.refs other.refs
  | _, _, .mk _ _ hclassifier harguments habbreviation =>
    .cons hclassifier (List.rel_append harguments.refs habbreviation.refs)
theorem ArgumentsPair.refs : ∀ {arguments : List (TypeArgument ρ)}
    {others : List (TypeArgument σ)}, ArgumentsPair R arguments others →
    List.Forall₂ R (argumentRefs arguments) (argumentRefs others)
  | _, _, .nil => .nil
  | _, _, .star hrest => hrest.refs
  | _, _, .projection _ hpairs hrest => List.rel_append hpairs.refs hrest.refs
theorem AbbreviationPairs.refs : ∀ {spelling : Option (SimpleType ρ)}
    {other : Option (SimpleType σ)}, AbbreviationPairs R spelling other →
    List.Forall₂ R (abbreviationRefs spelling) (abbreviationRefs other)
  | _, _, .none => .nil
  | _, _, .some hpairs => hpairs.refs
end

end Map

section Payloads

variable {R : ρ → σ → Prop} {g : Ty ρ → Ty σ}

theorem forall₂_map {α β : Type} {S : α → β → Prop} {f : α → β} {items : List α}
    (hall : ∀ item ∈ items, S item (f item)) : List.Forall₂ S items (items.map f) :=
  List.forall₂_map_right_iff.mpr (List.forall₂_same.mpr hall)

private theorem typeParameters_pairs {parameters : List (TypeParameter ρ)}
    (htypes : ∀ type ∈ parameters.flatMap (·.upperBounds), type.Pairs R (g type)) :
    List.Forall₂ (TypeParameter.Pairs R) parameters (parameters.map (·.mapTypes g)) := by
  apply forall₂_map
  intro parameter hparameter
  rw [TypeParameter.mapTypes_eq]
  apply TypeParameter.Pairs.mk
  apply forall₂_map
  intro type htype
  exact htypes type (List.mem_flatMap.mpr ⟨parameter, hparameter, htype⟩)

private theorem constructors_pair {constructors : List (Constructor ρ)}
    (htypes : ∀ type ∈ constructors.flatMap (·.types), type.Pairs R (g type)) :
    List.Forall₂ (Constructor.Pairs R) constructors (constructors.map (·.mapTypes g)) := by
  apply forall₂_map
  intro constructor hconstructor
  apply Constructor.Pairs.mk
  apply forall₂_map
  intro parameter hparameter
  apply ConstructorParameter.Pairs.mk
  apply htypes
  exact List.mem_flatMap.mpr ⟨constructor, hconstructor, List.mem_map_of_mem hparameter⟩

private theorem receiver_pairs {receiver : Option (Ty ρ)}
    (htypes : ∀ type ∈ receiver.toList, type.Pairs R (g type)) :
    Option.Rel (Ty.Pairs R) receiver (receiver.map g) := by
  cases receiver with
  | none => exact .none
  | some type => exact .some (htypes type List.mem_cons_self)

/-- A map of types that acts position by position on each type does so on a payload. -/
theorem Payload.pairs_mapTypes {payload : Payload ρ}
    (htypes : ∀ type ∈ payload.types, type.Pairs R (g type)) :
    payload.Pairs R (payload.mapTypes g) := by
  cases payload with
  | module info => exact .module info
  | package => exact .package
  | classType info =>
    simp only [types, ClassInfo.types, List.forall_mem_append] at htypes
    obtain ⟨hbounds, hsupertypes, hconstructors⟩ := htypes
    rw [mapTypes_classType, ClassInfo.mapTypes_eq]
    exact .classType (typeParameters_pairs hbounds) (forall₂_map hsupertypes)
      (constructors_pair hconstructors)
  | function info =>
    simp only [types, FunctionInfo.types, List.forall_mem_append] at htypes
    obtain ⟨hbounds, hreceiver, hreturn⟩ := htypes
    rw [mapTypes_function, FunctionInfo.mapTypes_eq]
    exact .function (typeParameters_pairs hbounds) (receiver_pairs hreceiver)
      (hreturn _ List.mem_cons_self)
  | property info =>
    simp only [types, PropertyInfo.types, List.forall_mem_append] at htypes
    obtain ⟨hbounds, hreceiver, htype⟩ := htypes
    rw [mapTypes_property, PropertyInfo.mapTypes_eq]
    exact .property (typeParameters_pairs hbounds) (receiver_pairs hreceiver)
      (htype _ List.mem_cons_self)
  | typeAlias info =>
    simp only [types, AliasInfo.types, List.forall_mem_append] at htypes
    obtain ⟨hbounds, hright⟩ := htypes
    rw [mapTypes_typeAlias]
    exact .typeAlias (typeParameters_pairs hbounds) (hright _ List.mem_cons_self)
      (hright _ (List.mem_cons_of_mem _ List.mem_cons_self))
  | value info =>
    rw [mapTypes_value, ValueInfo.mapTypes_eq]
    exact .value (htypes _ List.mem_cons_self)

/-- A map of references acts position by position. -/
theorem Payload.pairs_mapRefs {f : ρ → σ} {payload : Payload ρ}
    (hrefs : ∀ reference ∈ payload.refs, R reference (f reference)) :
    payload.Pairs R (payload.mapRefs f) := by
  apply pairs_mapTypes
  intro type htype
  apply Ty.pairs_map
  intro reference href
  exact hrefs reference (List.mem_flatMap.mpr ⟨type, htype, href⟩)

private theorem TypeParameter.Pairs.bounds {parameter : TypeParameter ρ}
    {other : TypeParameter σ} (hpairs : parameter.Pairs R other) :
    List.Forall₂ (Ty.Pairs R) parameter.upperBounds other.upperBounds := by
  cases hpairs with
  | mk hbounds => exact hbounds

private theorem Constructor.Pairs.types {constructor : Constructor ρ} {other : Constructor σ}
    (hpairs : constructor.Pairs R other) :
    List.Forall₂ (Ty.Pairs R) constructor.types other.types := by
  cases hpairs with
  | mk hparameters =>
    refine List.rel_map ?_ hparameters
    rintro parameter _ ⟨htype⟩
    exact htype

private theorem receivers_pair {receiver : Option (Ty ρ)} {other : Option (Ty σ)}
    (hpairs : Option.Rel (Ty.Pairs R) receiver other) :
    List.Forall₂ (Ty.Pairs R) receiver.toList other.toList := by
  cases hpairs with
  | none => exact .nil
  | some htype => exact .cons htype .nil

/-- Payloads that are related position by position have related types. -/
theorem Payload.Pairs.types {payload : Payload ρ} {other : Payload σ}
    (hpairs : payload.Pairs R other) :
    List.Forall₂ (Ty.Pairs R) payload.types other.types := by
  cases hpairs with
  | module info => exact .nil
  | package => exact .nil
  | classType hparameters hsupertypes hconstructors =>
    apply List.rel_append (List.rel_flatMap hparameters fun _ _ hone => hone.bounds)
    exact List.rel_append hsupertypes (List.rel_flatMap hconstructors fun _ _ hone => hone.types)
  | function hparameters hreceiver hreturn =>
    apply List.rel_append (List.rel_flatMap hparameters fun _ _ hone => hone.bounds)
    exact List.rel_append (receivers_pair hreceiver) (.cons hreturn .nil)
  | property hparameters hreceiver htype =>
    apply List.rel_append (List.rel_flatMap hparameters fun _ _ hone => hone.bounds)
    exact List.rel_append (receivers_pair hreceiver) (.cons htype .nil)
  | typeAlias hparameters hunderlying hexpanded =>
    apply List.rel_append (List.rel_flatMap hparameters fun _ _ hone => hone.bounds)
    exact .cons hunderlying (.cons hexpanded .nil)
  | value htype => exact .cons htype .nil

/-- A property holds of the references at every position if it holds of all that a walk visits. -/
theorem Payload.every_iff {P : ρ → Prop} {payload : Payload ρ} :
    payload.Every P ↔ ∀ reference ∈ payload.refs, P reference := by
  constructor
  · intro hevery
    have hsame : List.Forall₂ (fun reference _ => P reference) payload.refs payload.refs :=
      List.rel_flatMap hevery.types fun _ _ hone => hone.refs
    intro reference href
    exact List.forall₂_same.mp hsame reference href
  · intro hrefs
    have hsame := pairs_mapRefs (R := fun reference _ => P reference) (f := id) hrefs
    rwa [mapRefs_id] at hsame

end Payloads

namespace Tree

/-- What linking makes of a reference. -/
inductive LinksTo (tree : Tree) : ClassifierRef → ClassifierRef → Prop
  | known {name : QualifiedName} {id : DeclId} (hknown : tree.classifier? name = some id) :
      LinksTo tree (.symbolic name) (.resolved id)
  | unknown {name : QualifiedName} (hunknown : tree.classifier? name = none) :
      LinksTo tree (.symbolic name) (.external name)
  | untouched {reference : ClassifierRef} (hother : ∀ name, reference ≠ .symbolic name) :
      LinksTo tree reference reference

/-- What detaching makes of a reference. -/
inductive DetachesTo (tree : Tree) : ClassifierRef → ClassifierRef → Prop
  | bound {id : DeclId} {target : Declaration} (hget : tree.get? id = some target) :
      DetachesTo tree (.resolved id) (.symbolic target.qualifiedName)
  | untouched {reference : ClassifierRef}
      (hother : ∀ id, reference = .resolved id → tree.get? id = none) :
      DetachesTo tree reference reference

/-- A tree that differs from another in that every name in it is bound. -/
structure LinkOf (tree linked : Tree) : Prop where
  roots : linked.roots = tree.roots
  classifiers : linked.classifiers = tree.classifiers
  size : linked.size = tree.size
  declarations : ∀ id declaration, tree.get? id = some declaration → ∃ payload,
    linked.get? id = some { declaration with data := { declaration.data with payload } } ∧
      declaration.payload.Pairs tree.LinksTo payload

/-- Every reference into the tree leads to the first classifier of its name. -/
def LeadsToFirst (tree : Tree) (payload : Payload ClassifierRef) : Prop :=
  payload.Every fun reference => ∀ id target, reference = .resolved id → tree.get? id = some target →
    tree.classifier? target.qualifiedName = some id

/-- Data that differ from those of a declaration in that they hold no link into the tree. -/
structure DetachedOf (tree : Tree) (data detached : Data) : Prop where
  attributes : detached = { data with payload := detached.payload }
  detaches : data.payload.Pairs tree.DetachesTo detached.payload
  free : detached.payload.Every fun reference =>
    ∀ id, reference = .resolved id → tree.get? id = none
  names : data.payload.Pairs (fun reference other => tree.nameOf? other = tree.nameOf? reference)
    detached.payload
  restores : tree.LeadsToFirst data.payload → detached.mapRefs tree.linkRef = data

variable {tree : Tree}

theorem linksTo_linkRef (reference : ClassifierRef) :
    tree.LinksTo reference (tree.linkRef reference) := by
  cases reference with
  | symbolic name =>
    rw [linkRef]
    cases hname : tree.classifier? name with
    | some id => exact .known hname
    | none => exact .unknown hname
  | _ =>
    apply LinksTo.untouched
    rintro _ ⟨⟩

theorem linkRef_ne_symbolic (reference : ClassifierRef) (name : QualifiedName) :
    tree.linkRef reference ≠ .symbolic name := by
  have hlinks := tree.linksTo_linkRef reference
  generalize tree.linkRef reference = linked at hlinks
  cases hlinks with
  | known hknown => nofun
  | unknown hunknown => nofun
  | untouched hother => exact hother name

theorem linkRef_of_ne_symbolic {reference : ClassifierRef}
    (hother : ∀ name, reference ≠ .symbolic name) : tree.linkRef reference = reference := by
  cases reference with
  | symbolic name => exact absurd rfl (hother name)
  | _ => rfl

theorem detachesTo_detachRef (reference : ClassifierRef) :
    tree.DetachesTo reference (tree.detachRef reference) := by
  cases reference with
  | resolved id =>
    rw [detachRef]
    cases hget : tree.get? id with
    | some target => exact .bound hget
    | none =>
      apply DetachesTo.untouched
      rintro _ ⟨⟩
      exact hget
  | _ =>
    apply DetachesTo.untouched
    rintro _ ⟨⟩

theorem get?_of_detachRef_eq {reference : ClassifierRef} {id : DeclId}
    (hdetached : tree.detachRef reference = .resolved id) : tree.get? id = none := by
  have hdetaches := tree.detachesTo_detachRef reference
  rw [hdetached] at hdetaches
  cases hdetaches with
  | untouched hother => exact hother id rfl

/-- A linked reference is found again by its name, if it leads to the first classifier of that. -/
theorem linkRef_detachRef {reference : ClassifierRef}
    (hlinked : ∀ name, reference ≠ .symbolic name)
    (hfirst : ∀ id target, reference = .resolved id → tree.get? id = some target →
      tree.classifier? target.qualifiedName = some id) :
    tree.linkRef (tree.detachRef reference) = reference := by
  have hdetaches := tree.detachesTo_detachRef reference
  generalize tree.detachRef reference = detached at hdetaches
  cases hdetaches with
  | @bound id target hget =>
    unfold linkRef
    simp only [hfirst id target rfl hget]
  | untouched hother => exact linkRef_of_ne_symbolic hlinked

/-- Linking binds the names of a tree and nothing else. -/
theorem linkOf_link : tree.LinkOf tree.link where
  roots := rfl
  classifiers := rfl
  size := Array.size_map
  declarations id declaration hget := by
    refine ⟨declaration.payload.mapRefs tree.linkRef, get?_link_of_get? hget, ?_⟩
    apply Payload.pairs_mapRefs
    intro reference _
    exact linksTo_linkRef reference

/-- A declaration of a linked tree has no name left to look up. -/
theorem every_of_get?_link {id : DeclId} {declaration : Declaration}
    (hget : tree.link.get? id = some declaration) :
    declaration.payload.Every fun reference => ∀ name, reference ≠ .symbolic name := by
  rw [get?_link, Option.map_eq_some_iff] at hget
  obtain ⟨before, -, rfl⟩ := hget
  apply Payload.every_iff.mpr
  intro reference href
  have hmapped : reference ∈ before.payload.refs.map tree.linkRef := by
    rwa [← Payload.refs_mapRefs]
  obtain ⟨unlinked, -, rfl⟩ := List.mem_map.mp hmapped
  exact linkRef_ne_symbolic unlinked

/-- What has no name left to look up is as linking leaves it. -/
theorem mapRefs_linkRef {payload : Payload ClassifierRef}
    (hlinked : payload.Every fun reference => ∀ name, reference ≠ .symbolic name) :
    payload.mapRefs tree.linkRef = payload := by
  calc
    payload.mapRefs tree.linkRef = payload.mapRefs id :=
      Payload.mapRefs_congr fun reference href =>
        linkRef_of_ne_symbolic (Payload.every_iff.mp hlinked reference href)
    _ = payload := payload.mapRefs_id

theorem eq_of_get? {other : Tree} (hget : ∀ id, other.get? id = tree.get? id)
    (hroots : other.roots = tree.roots) (hclassifiers : other.classifiers = tree.classifiers) :
    other = tree := by
  obtain ⟨declarations, roots, classifiers⟩ := tree
  obtain ⟨declarations', roots', classifiers'⟩ := other
  simp only [mk.injEq]
  refine ⟨Array.ext_getElem? fun index => hget ⟨index⟩, hroots, hclassifiers⟩

/-- Linking a second time changes nothing. -/
theorem link_link : tree.link.link = tree.link := by
  refine eq_of_get? (fun id => ?_) rfl rfl
  rw [get?_link]
  cases hget : tree.link.get? id with
  | none => rfl
  | some declaration =>
    have hpayload : declaration.data.payload.mapRefs tree.link.linkRef = declaration.data.payload :=
      mapRefs_linkRef (every_of_get?_link hget)
    simp only [Option.map_some, Data.mapRefs, hpayload]

/-- Detaching the data of a linked declaration. -/
theorem detachedOf_mapRefs {data : Data}
    (hlinked : data.payload.Every fun reference => ∀ name, reference ≠ .symbolic name) :
    tree.DetachedOf data (data.mapRefs tree.detachRef) where
  attributes := rfl
  detaches := Payload.pairs_mapRefs fun reference _ => detachesTo_detachRef reference
  free := by
    apply Payload.every_iff.mpr
    intro reference href id hresolved
    have hmapped : reference ∈ data.payload.refs.map tree.detachRef := by
      rwa [← Payload.refs_mapRefs]
    obtain ⟨attached, -, rfl⟩ := List.mem_map.mp hmapped
    exact get?_of_detachRef_eq hresolved
  names := Payload.pairs_mapRefs fun reference _ => nameOf?_detachRef tree reference
  restores hfirst := by
    have hpayload : (data.payload.mapRefs tree.detachRef).mapRefs tree.linkRef = data.payload := by
      calc
        (data.payload.mapRefs tree.detachRef).mapRefs tree.linkRef =
            data.payload.mapRefs (tree.linkRef ∘ tree.detachRef) := Payload.mapRefs_mapRefs _ _ _
        _ = data.payload.mapRefs id := Payload.mapRefs_congr fun reference href =>
          linkRef_detachRef (Payload.every_iff.mp hlinked reference href)
            (Payload.every_iff.mp hfirst reference href)
        _ = data.payload := data.payload.mapRefs_id
    simp only [Data.mapRefs, hpayload]

/-- Linking binds every name and leaves none, a second time it changes nothing, and it undoes
detaching. -/
theorem linking_and_detaching (tree : Tree) :
    tree.LinkOf tree.link ∧
      (∀ id declaration, tree.link.get? id = some declaration →
        declaration.payload.Every fun reference => ∀ name, reference ≠ .symbolic name) ∧
      tree.link.link = tree.link ∧
      ∀ id declaration, tree.link.get? id = some declaration → ∃ detached,
        tree.link.detached? id = some detached ∧
          tree.link.DetachedOf declaration.data detached := by
  refine ⟨linkOf_link, fun id declaration hget => every_of_get?_link hget, link_link,
    fun id declaration hget => ⟨declaration.data.mapRefs tree.link.detachRef, ?_, ?_⟩⟩
  · unfold detached?
    rw [hget, Option.map_some]
  · exact detachedOf_mapRefs (every_of_get?_link hget)

end Tree

end Concord
